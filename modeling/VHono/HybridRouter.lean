import VHono.FastRouter

/-! # The hybrid router

    Static paths are keyed by method and path; every other path is kept as a
    bare handler in one list for all methods, sorted by complexity.  A lookup
    tries the static map, then the LRU cache, then each dynamic handler in
    order, compiling its pattern on first use.

    `hybridMatch` is what a pattern answers a path with, the regex cache aside;
    `matchPathWithRegex_spec` says the cache never changes the answer. -/

namespace VHono

open ByteString

variable {E : RegexEngine} {F : Type}

structure CompiledRegex (E : RegexEngine) where
  regex      : E.RE
  paramNames : List ByteString
  compiled   : Bool

structure ContextHybridRouter (E : RegexEngine) (F : Type) where
  staticRoutes  : InsertionMap ByteString (IHandler F)
  dynamicRoutes : List (IHandler F)
  cache         : ContextLRUCache (ContextRouteMatch F)
  regexCache    : InsertionMap ByteString (CompiledRegex E)

def isStaticPath (path : ByteString) : Bool :=
  decide (byte ':' ∉ path) && decide (byte '*' ∉ path) &&
    decide (byte '?' ∉ path) && decide (byte '+' ∉ path)

def isDynamicPath (path : ByteString) : Bool :=
  decide (byte ':' ∈ path) || decide (byte '*' ∈ path) ||
    decide (byte '?' ∈ path) || decide (byte '+' ∈ path)

/-- A path is on exactly one side. -/
theorem isDynamicPath_eq (path : ByteString) : isDynamicPath path = !isStaticPath path := by
  simp [isDynamicPath, isStaticPath]

/-! ## Patterns -/

/-- The expression and parameter names of a registered path: `**`, `*`,
    `:param`, and nothing for the other paths. -/
def hybridRegexSource (regPath : ByteString) : Option (ByteString × List ByteString) :=
  if containsStr regPath (ascii "**") then
    some (replaceStr regPath (ascii "**") (ascii ".*"), [])
  else if byte '*' ∈ regPath then
    some (replaceStr regPath (ascii "*") (ascii "[^/]*"), [])
  else if byte ':' ∈ regPath then
    some (paramRegexSource regPath, paramNames regPath)
  else none

def compileHybrid (E : RegexEngine) (regPath : ByteString) : Option (CompiledRegex E) :=
  (hybridRegexSource regPath).bind (fun source =>
    (E.regexOpt source.1).map (fun re => ⟨re, source.2, true⟩))

/-- The expression a pattern matches a path with, if it does. -/
def hybridMatch (E : RegexEngine) (regPath realPath : ByteString) :
    Option (CompiledRegex E) :=
  (compileHybrid E regPath).bind (fun re =>
    if E.matchesString re.regex realPath then some re else none)

namespace ContextHybridRouter

def new (now : Int) : ContextHybridRouter E F where
  staticRoutes := .empty
  dynamicRoutes := []
  cache := .new 1000 now
  regexCache := .empty

/-- The answer `(true, re, names)` is `some`, the answer `(false, ..)` is `none`. -/
def matchPathWithRegex (r : ContextHybridRouter E F) (realPath regPath : ByteString) :
    Option (CompiledRegex E) × ContextHybridRouter E F :=
  let answer := fun (re : CompiledRegex E) =>
    if E.matchesString re.regex realPath then some re else none
  let compileAndStore := match compileHybrid E regPath with
    | none => (none, r)
    | some re => (answer re, { r with regexCache := r.regexCache.insert regPath re })
  match r.regexCache.get? regPath with
  | some cached => if cached.compiled then (answer cached, r) else compileAndStore
  | none => compileAndStore

/-! ## Registration -/

variable (S : CompareSort)

def sortDynamicRoutes (r : ContextHybridRouter E F) : ContextHybridRouter E F :=
  { r with dynamicRoutes := S.sortBy (fun h => calculateRouteComplexity h.path) r.dynamicRoutes }

/-- The method is part of a static key and dropped from a dynamic route. -/
def addRoute (r : ContextHybridRouter E F) (method : ByteString) (handler : IHandler F)
    (_basePath : ByteString) : ContextHybridRouter E F :=
  if isStaticPath handler.path then
    { r with staticRoutes := r.staticRoutes.insert (cacheKey method handler.path) handler }
  else
    let r := { r with dynamicRoutes := r.dynamicRoutes ++ [handler] }
    r.sortDynamicRoutes S

/-! ## Matching -/

def dynamicResult (handler : IHandler F) (re : CompiledRegex E) (path : ByteString) :
    ContextRouteMatch F where
  handler := handler
  params := extractParams E re.regex re.paramNames path
  path := handler.path
  basePath := []

/-- The loop over the dynamic handlers. -/
def matchHandlers (path : ByteString) :
    List (IHandler F) → ContextHybridRouter E F →
      Option (ContextRouteMatch F) × ContextHybridRouter E F
  | [], r => (none, r)
  | handler :: rest, r =>
    match r.matchPathWithRegex path handler.path with
    | (some re, r) => (some (dynamicResult handler re path), r)
    | (none, r) => matchHandlers path rest r

def matchDynamicRouteWithKey (r : ContextHybridRouter E F) (key path : ByteString)
    (now : Int) : Option (ContextRouteMatch F) × ContextHybridRouter E F :=
  match r.cache.get key now with
  | (some cached, lru) => (some cached, { r with cache := lru })
  | (none, lru) =>
    match matchHandlers path r.dynamicRoutes { r with cache := lru } with
    | (some result, r) => (some result, { r with cache := r.cache.put key result now })
    | (none, r) => (none, r)

/-- The match a static route answers with. -/
def staticMatch (handler : IHandler F) (path : ByteString) : ContextRouteMatch F where
  handler := handler
  params := .empty
  path := path
  basePath := []

def matchRoute (r : ContextHybridRouter E F) (method path : ByteString) (now : Int) :
    Option (ContextRouteMatch F) × ContextHybridRouter E F :=
  let key := cacheKey method path
  match r.staticRoutes.get? key with
  | some handler => (some (staticMatch handler path), r)
  | none => r.matchDynamicRouteWithKey key path now

def clearCache (r : ContextHybridRouter E F) (now : Int) : ContextHybridRouter E F :=
  { r with cache := r.cache.clear now }

/-! ## The regex cache is transparent -/

/-- Each cached expression is the one its path compiles to. -/
def RegexCacheOk (r : ContextHybridRouter E F) : Prop :=
  r.regexCache.AllValues (fun regPath re => compileHybrid E regPath = some re)

/-- Two routers that differ in the regex cache only. -/
def SameRoutes (r r' : ContextHybridRouter E F) : Prop :=
  r'.staticRoutes = r.staticRoutes ∧ r'.dynamicRoutes = r.dynamicRoutes ∧ r'.cache = r.cache

theorem SameRoutes.refl (r : ContextHybridRouter E F) : SameRoutes r r := ⟨rfl, rfl, rfl⟩

theorem SameRoutes.trans {r r' r'' : ContextHybridRouter E F} (h : SameRoutes r r')
    (h' : SameRoutes r' r'') : SameRoutes r r'' :=
  ⟨h'.1.trans h.1, h'.2.1.trans h.2.1, h'.2.2.trans h.2.2⟩

theorem regexCacheOk_new (now : Int) : RegexCacheOk (new now : ContextHybridRouter E F) :=
  InsertionMap.allValues_empty _

theorem matchPathWithRegex_spec {r : ContextHybridRouter E F} (h : RegexCacheOk r)
    (realPath regPath : ByteString) :
    (r.matchPathWithRegex realPath regPath).1 = hybridMatch E regPath realPath ∧
      SameRoutes r (r.matchPathWithRegex realPath regPath).2 ∧
      RegexCacheOk (r.matchPathWithRegex realPath regPath).2 := by
  -- a cache miss, and an entry that is not compiled, compile the path afresh
  have hmiss : ∀ x : Option (CompiledRegex E) × ContextHybridRouter E F,
      x = (match compileHybrid E regPath with
        | none => (none, r)
        | some re => (if E.matchesString re.regex realPath then some re else none,
            { r with regexCache := r.regexCache.insert regPath re })) →
      x.1 = hybridMatch E regPath realPath ∧ SameRoutes r x.2 ∧ RegexCacheOk x.2 := by
    intro x hx
    rw [hybridMatch]
    cases hc : compileHybrid E regPath with
    | none =>
        rw [hc] at hx
        rw [hx]
        exact ⟨rfl, SameRoutes.refl r, h⟩
    | some re =>
        rw [hc] at hx
        rw [hx]
        exact ⟨rfl, ⟨rfl, rfl, rfl⟩, InsertionMap.AllValues.insert h hc⟩
  rw [matchPathWithRegex]
  dsimp only
  cases hget : r.regexCache.get? regPath with
  | none => exact hmiss _ rfl
  | some cached =>
      dsimp only
      by_cases hcomp : cached.compiled = true
      · rw [if_pos hcomp]
        refine ⟨?_, SameRoutes.refl r, h⟩
        rw [hybridMatch, h regPath cached hget]
        rfl
      · rw [if_neg hcomp]
        exact hmiss _ rfl

/-- The first dynamic handler whose pattern matches the path. -/
def firstMatching (E : RegexEngine) (handlers : List (IHandler F)) (path : ByteString) :
    Option (IHandler F) :=
  handlers.find? (fun h => (hybridMatch E h.path path).isSome)

/-- The answer of the dynamic handlers alone. -/
def dynamicAnswer (E : RegexEngine) (handlers : List (IHandler F)) (path : ByteString) :
    Option (ContextRouteMatch F) :=
  (firstMatching E handlers path).bind (fun h =>
    (hybridMatch E h.path path).map (fun re => dynamicResult h re path))

theorem dynamicAnswer_handler {handlers : List (IHandler F)} {path : ByteString}
    {result : ContextRouteMatch F} (h : dynamicAnswer E handlers path = some result) :
    firstMatching E handlers path = some result.handler := by
  obtain ⟨handler, hfirst, hmap⟩ := Option.bind_eq_some_iff.mp h
  obtain ⟨re, -, hre⟩ := Option.map_eq_some_iff.mp hmap
  rw [hfirst, ← hre]
  rfl

/-- **THE LOOP.**  The handlers are tried in order, and only the regex cache changes. -/
theorem matchHandlers_spec (path : ByteString) :
    ∀ (handlers : List (IHandler F)) {r : ContextHybridRouter E F}, RegexCacheOk r →
      (matchHandlers path handlers r).1 = dynamicAnswer E handlers path ∧
        SameRoutes r (matchHandlers path handlers r).2 ∧
        RegexCacheOk (matchHandlers path handlers r).2 := by
  intro handlers
  induction handlers with
  | nil => intro r h; exact ⟨rfl, SameRoutes.refl r, h⟩
  | cons handler rest ih =>
      intro r h
      obtain ⟨hans, hsame, hok⟩ := matchPathWithRegex_spec h path handler.path
      rcases hm : r.matchPathWithRegex path handler.path with ⟨found, r'⟩
      rw [hm] at hans hsame hok
      have hans' : hybridMatch E handler.path path = found := hans.symm
      cases found with
      | some re =>
          -- the first handler matches
          simp only [matchHandlers, hm]
          refine ⟨?_, hsame, hok⟩
          have hfirst : firstMatching E (handler :: rest) path = some handler := by
            rw [firstMatching, List.find?_cons_of_pos]
            rw [hans']
            rfl
          rw [dynamicAnswer, hfirst, Option.bind_some, hans']
          rfl
      | none =>
          -- it does not: the rest of the list decides
          simp only [matchHandlers, hm]
          obtain ⟨ihans, ihsame, ihok⟩ := ih hok
          refine ⟨?_, hsame.trans ihsame, ihok⟩
          have hfirst : firstMatching E (handler :: rest) path = firstMatching E rest path := by
            rw [firstMatching, List.find?_cons_of_neg, firstMatching]
            rw [hans']
            simp
          rw [ihans, dynamicAnswer, dynamicAnswer, hfirst]

/-! ## Provenance -/

structure AllHandlers (P : IHandler F → Prop) (r : ContextHybridRouter E F) : Prop where
  statics  : r.staticRoutes.AllValues (fun _ handler => P handler)
  dynamics : ∀ handler ∈ r.dynamicRoutes, P handler
  cached   : r.cache.Holds (fun _ v => P v.handler)
  regexes  : RegexCacheOk r

variable {P Q : IHandler F → Prop}

theorem allHandlers_new (P : IHandler F → Prop) (now : Int) :
    AllHandlers P (new now : ContextHybridRouter E F) where
  statics := InsertionMap.allValues_empty _
  dynamics := fun _ hmem => (by cases hmem)
  cached := ContextLRUCache.holds_new _ _ _
  regexes := regexCacheOk_new now

theorem AllHandlers.mono {r : ContextHybridRouter E F} (h : AllHandlers P r)
    (hPQ : ∀ handler, P handler → Q handler) : AllHandlers Q r where
  statics := h.statics.mono (fun _ handler hv => hPQ handler hv)
  dynamics := fun handler hmem => hPQ _ (h.dynamics handler hmem)
  cached := h.cached.mono (fun _ v hv => hPQ v.handler hv)
  regexes := h.regexes

theorem AllHandlers.addRoute {r : ContextHybridRouter E F} (h : AllHandlers P r)
    (method : ByteString) {handler : IHandler F} (base : ByteString) (hP : P handler) :
    AllHandlers P (r.addRoute S method handler base) := by
  rw [ContextHybridRouter.addRoute]
  by_cases hst : isStaticPath handler.path = true
  · rw [if_pos hst]
    exact ⟨h.statics.insert hP, h.dynamics, h.cached, h.regexes⟩
  · rw [if_neg hst]
    refine ⟨h.statics, ?_, h.cached, h.regexes⟩
    intro handler' hmem
    rcases List.mem_append.mp ((S.mem_sortBy).mp hmem) with hold | hnew
    · exact h.dynamics handler' hold
    · rw [List.mem_singleton.mp hnew]
      exact hP

theorem AllHandlers.matchDynamic {r : ContextHybridRouter E F} (h : AllHandlers P r)
    (key path : ByteString) (now : Int) :
    AllHandlers P (r.matchDynamicRouteWithKey key path now).2 ∧
      ∀ result, (r.matchDynamicRouteWithKey key path now).1 = some result →
        P result.handler := by
  obtain ⟨hlru, hcached⟩ := ContextLRUCache.holds_get h.cached key now
  rw [matchDynamicRouteWithKey]
  rcases hget : r.cache.get key now with ⟨found, lru⟩
  rw [hget] at hlru hcached
  cases found with
  | some cached => exact ⟨⟨h.statics, h.dynamics, hlru, h.regexes⟩, hcached⟩
  | none =>
      have hok : RegexCacheOk ({ r with cache := lru } : ContextHybridRouter E F) := h.regexes
      obtain ⟨hans, ⟨hs, hd, hc⟩, hrx⟩ := matchHandlers_spec path r.dynamicRoutes hok
      dsimp only
      rcases hloop : matchHandlers path r.dynamicRoutes
        ({ r with cache := lru } : ContextHybridRouter E F) with ⟨answer, s⟩
      rw [hloop] at hans hs hd hc hrx
      have hall : AllHandlers P s :=
        ⟨hs ▸ h.statics, hd ▸ h.dynamics, hc ▸ hlru, hrx⟩
      cases answer with
      | none => exact ⟨hall, fun result hres => (by cases hres)⟩
      | some result =>
          have hP : P result.handler :=
            h.dynamics _ (List.mem_of_find?_eq_some (dynamicAnswer_handler hans.symm))
          refine ⟨⟨hall.statics, hall.dynamics, ?_, hall.regexes⟩, fun result' hres => ?_⟩
          · exact ContextLRUCache.holds_put hall.cached hP now
          · rw [← Option.some.inj hres]
            exact hP

theorem AllHandlers.matchRoute {r : ContextHybridRouter E F} (h : AllHandlers P r)
    (method path : ByteString) (now : Int) :
    AllHandlers P (r.matchRoute method path now).2 ∧
      ∀ result, (r.matchRoute method path now).1 = some result → P result.handler := by
  rw [ContextHybridRouter.matchRoute]
  cases hst : r.staticRoutes.get? (cacheKey method path) with
  | none => exact h.matchDynamic _ _ now
  | some handler =>
      refine ⟨h, fun result hres => ?_⟩
      rw [← Option.some.inj hres]
      exact h.statics _ _ hst

end ContextHybridRouter

end VHono
