import VHono.CompareSort
import VHono.RouteCaches
import VHono.RoutePatterns

/-! # The fast router

    Static paths are answered from a map of preallocated results; the other
    paths go through a cache and then through the precompiled routes, which
    are kept sorted by complexity while sorting is enabled.

    The sort is the library's and unspecified on ties, so it is a
    `CompareSort`; the regular expressions are a `RegexEngine`. -/

namespace VHono

open ByteString

variable {E : RegexEngine} {F : Type}

structure PrecompiledRoute (E : RegexEngine) (F : Type) where
  method     : ByteString
  pattern    : ByteString
  regex      : E.RE
  paramNames : List ByteString
  handler    : IHandler F
  complexity : Nat

structure FastRouter (E : RegexEngine) (F : Type) where
  staticRoutes       : InsertionMap ByteString (IHandler F)
  staticRouteResults : InsertionMap ByteString (ContextRouteMatch F)
  precompiledRoutes  : List (PrecompiledRoute E F)
  fastCache          : FastRouteCache (ContextRouteMatch F)
  lruCache           : ContextLRUCache (ContextRouteMatch F)
  cacheEnabled       : Bool
  sortEnabled        : Bool
  useFastCache       : Bool

/-- `'${method}:${path}'` -/
def cacheKey (method path : ByteString) : ByteString := method ++ byte ':' :: path

/-- Two requests whose methods have no colon share a key only if they are equal. -/
theorem cacheKey_inj {m m' p p' : ByteString} (hm : byte ':' ∉ m) (hm' : byte ':' ∉ m')
    (h : cacheKey m p = cacheKey m' p') : m = m' ∧ p = p' :=
  append_sep_inj hm hm' h

namespace PrecompiledRoute

/-- The route's method is the request's and its expression matches the path. -/
def serves (method path : ByteString) (route : PrecompiledRoute E F) : Bool :=
  decide (route.method = method) && E.matchesString route.regex path

/-- The match the route answers a path with. -/
def result (path : ByteString) (route : PrecompiledRoute E F) : ContextRouteMatch F where
  handler := route.handler
  params := extractParams E route.regex route.paramNames path
  path := route.pattern
  basePath := []

end PrecompiledRoute

namespace FastRouter

def newWithCacheCapacities (fast lru now : Int) : FastRouter E F where
  staticRoutes := .empty
  staticRouteResults := .empty
  precompiledRoutes := []
  fastCache := .new fast
  lruCache := .new lru now
  cacheEnabled := true
  sortEnabled := true
  useFastCache := true

def new (now : Int) : FastRouter E F := newWithCacheCapacities 10000 1000 now

def newWithCacheSize (cacheSize now : Int) : FastRouter E F :=
  newWithCacheCapacities (cacheSize * 10) cacheSize now

/-! ## Registration -/

def isStaticFastPath (path : ByteString) : Bool :=
  decide (byte ':' ∉ path) && decide (byte '*' ∉ path)

def precompileRoute (method : ByteString) (handler : IHandler F) :
    Except ByteString (PrecompiledRoute E F) :=
  let source := paramRegexSource handler.path
  match E.regexOpt source with
  | none => .error (ascii "Failed to compile regex: " ++ source)
  | some re => .ok {
      method := method
      pattern := handler.path
      regex := re
      paramNames := paramNames handler.path
      handler := handler
      complexity := calculateFastRouteComplexity handler.path }

/-- The result preallocated for a static route. -/
def staticResult (handler : IHandler F) : ContextRouteMatch F where
  handler := handler
  params := .empty
  path := handler.path
  basePath := []

def addStaticRoute (r : FastRouter E F) (method : ByteString) (handler : IHandler F) :
    FastRouter E F :=
  let key := cacheKey method handler.path
  { r with
    staticRoutes := r.staticRoutes.insert key handler
    staticRouteResults := r.staticRouteResults.insert key (staticResult handler) }

variable (S : CompareSort)

def sortDynamicRoutes (r : FastRouter E F) : FastRouter E F :=
  { r with precompiledRoutes := S.sortBy (·.complexity) r.precompiledRoutes }

/-- The dynamic routes after one more registration. -/
def routesWith (r : FastRouter E F) (route : PrecompiledRoute E F) :
    List (PrecompiledRoute E F) :=
  if r.sortEnabled then S.sortBy (·.complexity) (r.precompiledRoutes ++ [route])
  else r.precompiledRoutes ++ [route]

def addRoute (r : FastRouter E F) (method : ByteString) (handler : IHandler F)
    (_basePath : ByteString) : Except ByteString (FastRouter E F) :=
  if isStaticFastPath handler.path then .ok (r.addStaticRoute method handler)
  else
    match precompileRoute method handler with
    | .error err =>
      .error (ascii "Failed to precompile route " ++ handler.path ++ ascii ": " ++ err)
    | .ok route => .ok { r with precompiledRoutes := r.routesWith S route }

/-! ## Matching -/

/-- The cache in use is read; the LRU cache moves the entry it finds. -/
def readCache (r : FastRouter E F) (key : ByteString) (now : Int) :
    Option (ContextRouteMatch F) × FastRouter E F :=
  if r.cacheEnabled && r.useFastCache then (r.fastCache.get key, r)
  else if r.cacheEnabled then
    let (found, lru) := r.lruCache.get key now
    (found, { r with lruCache := lru })
  else (none, r)

/-- The cache in use is written. -/
def writeCache (r : FastRouter E F) (key : ByteString) (result : ContextRouteMatch F)
    (now : Int) : FastRouter E F :=
  if r.cacheEnabled then
    if r.useFastCache then { r with fastCache := r.fastCache.put key result }
    else { r with lruCache := r.lruCache.put key result now }
  else r

/-- The first dynamic route that serves the request. -/
def firstServing (routes : List (PrecompiledRoute E F)) (method path : ByteString) :
    Option (PrecompiledRoute E F) :=
  routes.find? (·.serves method path)

def matchRoute (r : FastRouter E F) (method path : ByteString) (now : Int) :
    Option (ContextRouteMatch F) × FastRouter E F :=
  let key := cacheKey method path
  match r.staticRouteResults.get? key with
  | some result => (some result, r)
  | none =>
    match r.readCache key now with
    | (some cached, r) => (some cached, r)
    | (none, r) =>
      match firstServing r.precompiledRoutes method path with
      | some route =>
        let result := route.result path
        (some result, r.writeCache key result now)
      | none => (none, r)

/-- Past the static results and the caches, the first serving route answers. -/
theorem matchRoute_missed {r : FastRouter E F} {method path : ByteString} {now : Int}
    (hread : r.readCache (cacheKey method path) now = (none, r)) :
    (r.matchRoute method path now).1
      = match r.staticRouteResults.get? (cacheKey method path) with
        | some result => some result
        | none => (firstServing r.precompiledRoutes method path).map (·.result path) := by
  rw [matchRoute]
  dsimp only
  cases r.staticRouteResults.get? (cacheKey method path) with
  | some result => rfl
  | none =>
      rw [hread]
      dsimp only
      cases firstServing r.precompiledRoutes method path <;> rfl

/-! ## Cache and sort switches -/

/-- Only the LRU cache is emptied. -/
def clearCache (r : FastRouter E F) (now : Int) : FastRouter E F :=
  { r with lruCache := r.lruCache.clear now }

def setCacheEnabled (r : FastRouter E F) (enabled : Bool) (now : Int) : FastRouter E F :=
  let r := { r with cacheEnabled := enabled }
  if ¬ enabled then r.clearCache now else r

def setSortEnabled (r : FastRouter E F) (enabled : Bool) : FastRouter E F :=
  let r := { r with sortEnabled := enabled }
  if enabled then r.sortDynamicRoutes S else r

/-! ## Provenance

    Whatever holds of every handler registered holds of every handler a
    lookup answers with, from the routes or from either cache. -/

structure AllHandlers (P : IHandler F → Prop) (r : FastRouter E F) : Prop where
  statics : r.staticRouteResults.AllValues (fun _ v => P v.handler)
  routes  : ∀ route ∈ r.precompiledRoutes, P route.handler
  fast    : r.fastCache.Holds (fun _ v => P v.handler)
  lru     : r.lruCache.Holds (fun _ v => P v.handler)

variable {P Q : IHandler F → Prop}

theorem allHandlers_new (P : IHandler F → Prop) (now : Int) :
    AllHandlers P (new now : FastRouter E F) where
  statics := InsertionMap.allValues_empty _
  routes := fun _ hmem => (by cases hmem)
  fast := FastRouteCache.holds_new _ _
  lru := ContextLRUCache.holds_new _ _ _

theorem AllHandlers.mono {r : FastRouter E F} (h : AllHandlers P r)
    (hPQ : ∀ handler, P handler → Q handler) : AllHandlers Q r where
  statics := h.statics.mono (fun _ v hv => hPQ v.handler hv)
  routes := fun route hmem => hPQ _ (h.routes route hmem)
  fast := h.fast.mono (fun _ v hv => hPQ v.handler hv)
  lru := h.lru.mono (fun _ v hv => hPQ v.handler hv)

theorem precompileRoute_handler {method : ByteString} {handler : IHandler F}
    {route : PrecompiledRoute E F} (h : precompileRoute method handler = .ok route) :
    route.handler = handler := by
  rw [precompileRoute] at h
  split at h
  · cases h
  · rw [← Except.ok.inj h]

theorem mem_routesWith {r : FastRouter E F} {route route' : PrecompiledRoute E F} :
    route' ∈ r.routesWith S route ↔ route' ∈ r.precompiledRoutes ∨ route' = route := by
  rw [routesWith]
  split
  · rw [S.mem_sortBy, List.mem_append, List.mem_singleton]
  · rw [List.mem_append, List.mem_singleton]

theorem AllHandlers.addRoute {r r' : FastRouter E F} (h : AllHandlers P r)
    {method : ByteString} {handler : IHandler F} {base : ByteString} (hP : P handler)
    (hadd : r.addRoute S method handler base = .ok r') : AllHandlers P r' := by
  rw [FastRouter.addRoute] at hadd
  by_cases hst : isStaticFastPath handler.path = true
  · rw [if_pos hst] at hadd
    rw [← Except.ok.inj hadd]
    exact ⟨h.statics.insert hP, h.routes, h.fast, h.lru⟩
  · rw [if_neg hst] at hadd
    cases hpre : (precompileRoute method handler : Except ByteString (PrecompiledRoute E F)) with
    | error err =>
        rw [hpre] at hadd
        cases hadd
    | ok route =>
        rw [hpre] at hadd
        rw [← Except.ok.inj hadd]
        refine ⟨h.statics, ?_, h.fast, h.lru⟩
        intro route' hmem
        rcases (mem_routesWith S).mp hmem with hold | hnew
        · exact h.routes route' hold
        · rw [hnew, precompileRoute_handler hpre]
          exact hP

theorem AllHandlers.readCache {r : FastRouter E F} (h : AllHandlers P r) (key : ByteString)
    (now : Int) : AllHandlers P (r.readCache key now).2 ∧
      ∀ v, (r.readCache key now).1 = some v → P v.handler := by
  rw [FastRouter.readCache]
  split
  · exact ⟨h, fun v hv => h.fast.get hv⟩
  · split
    · obtain ⟨hlru, hv⟩ := ContextLRUCache.holds_get h.lru key now
      exact ⟨⟨h.statics, h.routes, h.fast, hlru⟩, hv⟩
    · exact ⟨h, fun v hv => (by cases hv)⟩

theorem AllHandlers.writeCache {r : FastRouter E F} (h : AllHandlers P r) (key : ByteString)
    {v : ContextRouteMatch F} (hv : P v.handler) (now : Int) :
    AllHandlers P (r.writeCache key v now) := by
  rw [FastRouter.writeCache]
  split
  · split
    · exact ⟨h.statics, h.routes, h.fast.put hv, h.lru⟩
    · exact ⟨h.statics, h.routes, h.fast, ContextLRUCache.holds_put h.lru hv now⟩
  · exact h

theorem AllHandlers.matchRoute {r : FastRouter E F} (h : AllHandlers P r)
    (method path : ByteString) (now : Int) :
    AllHandlers P (r.matchRoute method path now).2 ∧
      ∀ result, (r.matchRoute method path now).1 = some result → P result.handler := by
  obtain ⟨hread, hcached⟩ := h.readCache (cacheKey method path) now
  rw [FastRouter.matchRoute]
  dsimp only
  cases hst : r.staticRouteResults.get? (cacheKey method path) with
  | some result =>
      refine ⟨h, fun result' hres => ?_⟩
      rw [← Option.some.inj hres]
      exact h.statics _ _ hst
  | none =>
      dsimp only
      rcases hrd : r.readCache (cacheKey method path) now with ⟨found, s⟩
      rw [hrd] at hread hcached
      cases found with
      | some cached => exact ⟨hread, hcached⟩
      | none =>
          dsimp only
          cases hfirst : firstServing s.precompiledRoutes method path with
          | none => exact ⟨hread, fun result hres => (by cases hres)⟩
          | some route =>
              have hP : P (route.result path).handler :=
                hread.routes route (List.mem_of_find?_eq_some hfirst)
              refine ⟨hread.writeCache _ hP now, fun result hres => ?_⟩
              rw [← Option.some.inj hres]
              exact hP

end FastRouter

end VHono
