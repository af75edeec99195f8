import VHono.FastRouter
import VHono.MachineRuns

/-! # Transparency of the fast router's cache

    The router as a machine over its five calls, next to the same machine
    with the cache switched off before and after every call.  The two give
    the same replies as long as no call changes which route serves a request
    whose answer is still cached: neither a registration nor a re-sort empties
    `fast_cache`, and neither does `clear_cache`, which empties the LRU cache
    the router is not using. -/

namespace VHono

open ByteString MachineRuns

variable {E : RegexEngine} {F : Type}

inductive FastRouterCall (F : Type) where
  | addRoute (method : ByteString) (handler : IHandler F) (basePath : ByteString)
  | matchRoute (method path : ByteString) (now : Int)
  | clearCache (now : Int)
  | setCacheEnabled (enabled : Bool) (now : Int)
  | setSortEnabled (enabled : Bool)

inductive FastRouterReply (F : Type) where
  | done
  | failed (err : ByteString)
  | matched (result : Option (ContextRouteMatch F))

namespace FastRouter

variable (S : CompareSort)

def step (r : FastRouter E F) : FastRouterCall F → FastRouter E F × FastRouterReply F
  | .addRoute method handler basePath =>
    match r.addRoute S method handler basePath with
    | .ok r' => (r', .done)
    | .error err => (r, .failed err)
  | .matchRoute method path now =>
    let (result, r') := r.matchRoute method path now
    (r', .matched result)
  | .clearCache now => (r.clearCache now, .done)
  | .setCacheEnabled enabled now => (r.setCacheEnabled enabled now, .done)
  | .setSortEnabled enabled => (r.setSortEnabled S enabled, .done)

/-- The router with its caches switched off. -/
def uncached (r : FastRouter E F) : FastRouter E F := { r with cacheEnabled := false }

/-- The same calls with `cache_enabled = false` throughout. -/
def uncachedStep (r : FastRouter E F) (call : FastRouterCall F) :
    FastRouter E F × FastRouterReply F :=
  let (r', reply) := r.uncached.step S call
  (r'.uncached, reply)

/-! ## The condition on a call -/

/-- The request was looked up earlier and its key is still in `fast_cache`. -/
def StillCached (past : List (FastRouterCall F)) (r : FastRouter E F)
    (method path : ByteString) : Prop :=
  (∃ now, .matchRoute method path now ∈ past) ∧
    r.fastCache.cache.contains (cacheKey method path) = true

/-- The routes `after` serve every request whose answer is still cached by the
    route that serves it now. -/
def SameServing (past : List (FastRouterCall F)) (r : FastRouter E F)
    (after : List (PrecompiledRoute E F)) : Prop :=
  ∀ method path, StillCached past r method path →
    firstServing after method path = firstServing r.precompiledRoutes method path

/-- A call the caches stay transparent under. -/
def CallOk (past : List (FastRouterCall F)) (r : FastRouter E F) :
    FastRouterCall F → Prop
  | .addRoute method handler _ =>
    isStaticFastPath handler.path = false →
      ∀ route, precompileRoute method handler = .ok route →
        SameServing past r (r.routesWith S route)
  | .matchRoute method path _ =>
    r.cacheEnabled = true → ∀ method' path', StillCached past r method' path' →
      cacheKey method' path' = cacheKey method path → method' = method ∧ path' = path
  | .setSortEnabled true => SameServing past r (r.sortDynamicRoutes S).precompiledRoutes
  | .setSortEnabled false | .clearCache _ | .setCacheEnabled _ _ => True

/-! ## Coherence

    Each entry of `fast_cache` is the answer that the current routes give to
    some earlier request with that key. -/

/-- The entry `v` under `key` is what the routes answer an earlier request. -/
def EntryOk (past : List (FastRouterCall F)) (routes : List (PrecompiledRoute E F))
    (key : ByteString) (v : ContextRouteMatch F) : Prop :=
  ∃ method path, (∃ now, .matchRoute method path now ∈ past) ∧
    key = cacheKey method path ∧
    (firstServing routes method path).map (·.result path) = some v

def Coherent (past : List (FastRouterCall F)) (r : FastRouter E F) : Prop :=
  r.fastCache.Holds (EntryOk past r.precompiledRoutes)

/-- What the cached and the uncached router have in common. -/
structure Agree (r t : FastRouter E F) : Prop where
  statics : r.staticRouteResults = t.staticRouteResults
  routes  : r.precompiledRoutes = t.precompiledRoutes
  sorting : r.sortEnabled = t.sortEnabled

/-- The simulation relation of the run. -/
structure Simulates (past : List (FastRouterCall F)) (r t : FastRouter E F) : Prop where
  agree    : Agree r t
  fast     : r.useFastCache = true
  coherent : Coherent past r

theorem Agree.uncached {r t : FastRouter E F} (h : Agree r t) : Agree r t.uncached :=
  ⟨h.statics, h.routes, h.sorting⟩

theorem EntryOk.later {past : List (FastRouterCall F)} {call : FastRouterCall F}
    {routes : List (PrecompiledRoute E F)} {key : ByteString} {v : ContextRouteMatch F}
    (h : EntryOk past routes key v) : EntryOk (past ++ [call]) routes key v := by
  obtain ⟨m, p, ⟨now, hmem⟩, hkey, hv⟩ := h
  exact ⟨m, p, ⟨now, List.mem_append_left _ hmem⟩, hkey, hv⟩

theorem Coherent.later {past : List (FastRouterCall F)} {r : FastRouter E F}
    (h : Coherent past r) (call : FastRouterCall F) : Coherent (past ++ [call]) r :=
  h.mono (fun _ _ => EntryOk.later)

/-- Changing the routes keeps coherence when no cached request changes hands. -/
theorem Coherent.reroute {past : List (FastRouterCall F)} {r r' : FastRouter E F}
    (h : Coherent past r) (hcache : r'.fastCache = r.fastCache)
    (hsame : SameServing past r r'.precompiledRoutes) : Coherent past r' := by
  rw [Coherent]
  rw [hcache]
  intro key v hget
  obtain ⟨m, p, hpast, hkey, hv⟩ := h key v hget
  have hin : r.fastCache.cache.contains (cacheKey m p) = true := by
    rw [← hkey, InsertionMap.contains, hget]
    rfl
  refine ⟨m, p, hpast, hkey, ?_⟩
  rw [hsame m p ⟨hpast, hin⟩]
  exact hv

/-! ## One call -/

/-- The answer of the routes alone, the caches aside. -/
def directAnswer (r : FastRouter E F) (method path : ByteString) :
    Option (ContextRouteMatch F) :=
  match r.staticRouteResults.get? (cacheKey method path) with
  | some result => some result
  | none => (firstServing r.precompiledRoutes method path).map (·.result path)

theorem Agree.directAnswer {r t : FastRouter E F} (h : Agree r t) (m p : ByteString) :
    r.directAnswer m p = t.directAnswer m p := by
  rw [FastRouter.directAnswer, FastRouter.directAnswer, h.statics, h.routes]

/-- With the cache off a lookup gives the direct answer and changes nothing. -/
theorem matchRoute_uncached (t : FastRouter E F) (m p : ByteString) (now : Int) :
    t.uncached.matchRoute m p now = (t.directAnswer m p, t.uncached) := by
  rw [matchRoute, directAnswer]
  cases hstat : t.staticRouteResults.get? (cacheKey m p) with
  | some result =>
      have : t.uncached.staticRouteResults.get? (cacheKey m p) = some result := hstat
      simp only [this]
  | none =>
      have : t.uncached.staticRouteResults.get? (cacheKey m p) = none := hstat
      simp only [this]
      have hread : t.uncached.readCache (cacheKey m p) now = (none, t.uncached) := rfl
      rw [hread]
      have hroutes : t.uncached.precompiledRoutes = t.precompiledRoutes := rfl
      dsimp only
      rw [hroutes]
      cases firstServing t.precompiledRoutes m p with
      | none => rfl
      | some route => rfl

/-- What a lookup may do to the router: only the caches change. -/
theorem matchRoute_agree (r : FastRouter E F) (m p : ByteString) (now : Int) :
    Agree (r.matchRoute m p now).2 r ∧
      (r.matchRoute m p now).2.useFastCache = r.useFastCache := by
  have hread : Agree (r.readCache (cacheKey m p) now).2 r ∧
      (r.readCache (cacheKey m p) now).2.useFastCache = r.useFastCache := by
    rw [readCache]
    split
    · exact ⟨⟨rfl, rfl, rfl⟩, rfl⟩
    · split
      · exact ⟨⟨rfl, rfl, rfl⟩, rfl⟩
      · exact ⟨⟨rfl, rfl, rfl⟩, rfl⟩
  have hwrite : ∀ (s : FastRouter E F) (key : ByteString) (v : ContextRouteMatch F),
      Agree (s.writeCache key v now) s ∧ (s.writeCache key v now).useFastCache = s.useFastCache := by
    intro s key v
    rw [writeCache]
    split
    · split
      · exact ⟨⟨rfl, rfl, rfl⟩, rfl⟩
      · exact ⟨⟨rfl, rfl, rfl⟩, rfl⟩
    · exact ⟨⟨rfl, rfl, rfl⟩, rfl⟩
  rw [matchRoute]
  dsimp only
  cases r.staticRouteResults.get? (cacheKey m p) with
  -- a static route answers before the caches are asked
  | some result => exact ⟨⟨rfl, rfl, rfl⟩, rfl⟩
  | none =>
      dsimp only
      rcases hrd : r.readCache (cacheKey m p) now with ⟨found, s⟩
      rw [hrd] at hread
      obtain ⟨⟨h1, h2, h3⟩, h4⟩ := hread
      cases found with
      | some cached => exact ⟨⟨h1, h2, h3⟩, h4⟩
      | none =>
          dsimp only
          cases firstServing s.precompiledRoutes m p with
          | none => exact ⟨⟨h1, h2, h3⟩, h4⟩
          | some route =>
              obtain ⟨⟨w1, w2, w3⟩, w4⟩ := hwrite s (cacheKey m p) (route.result p)
              exact ⟨⟨w1.trans h1, w2.trans h2, w3.trans h3⟩, w4.trans h4⟩

/-- **A LOOKUP.**  A coherent cache whose entry under the key stems from the
    same request answers as the routes do, and stays coherent. -/
theorem matchRoute_coherent {past : List (FastRouterCall F)} {r : FastRouter E F}
    (hfast : r.useFastCache = true) (hcoh : Coherent past r) {m p : ByteString} {now : Int}
    (hok : CallOk S past r (.matchRoute m p now)) :
    (r.matchRoute m p now).1 = r.directAnswer m p ∧
      Coherent (past ++ [.matchRoute m p now]) (r.matchRoute m p now).2 := by
  have hlater := hcoh.later (.matchRoute m p now)
  rw [matchRoute, directAnswer]
  dsimp only
  cases hstat : r.staticRouteResults.get? (cacheKey m p) with
  -- a static route answers before the caches are asked
  | some result => exact ⟨rfl, hlater⟩
  | none =>
      dsimp only
      cases hen : r.cacheEnabled with
      | false =>
          -- with the caches off nothing is read and nothing written
          have hread : r.readCache (cacheKey m p) now = (none, r) := by
            simp [readCache, hen]
          rw [hread]
          dsimp only
          cases firstServing r.precompiledRoutes m p with
          | none => exact ⟨rfl, hlater⟩
          | some route =>
              refine ⟨rfl, ?_⟩
              show Coherent _ (r.writeCache (cacheKey m p) (route.result p) now)
              rw [show r.writeCache (cacheKey m p) (route.result p) now = r by
                simp [writeCache, hen]]
              exact hlater
      | true =>
          have hread : r.readCache (cacheKey m p) now = (r.fastCache.get (cacheKey m p), r) := by
            simp [readCache, hen, hfast]
          rw [hread]
          cases hget : r.fastCache.get (cacheKey m p) with
          | some v =>
              -- a hit: the entry was computed for an earlier lookup, and its key tells which
              refine ⟨?_, hlater⟩
              obtain ⟨m', p', hpast, hkey, hv⟩ := hcoh.get hget
              have hcached : StillCached past r m' p' := by
                refine ⟨hpast, ?_⟩
                rw [← hkey, InsertionMap.contains, FastRouteCache.get?_of_get hget]
                rfl
              obtain ⟨rfl, rfl⟩ := hok hen m' p' hcached hkey.symm
              exact hv.symm
          | none =>
              dsimp only
              cases hfirst : firstServing r.precompiledRoutes m p with
              | none => exact ⟨rfl, hlater⟩
              | some route =>
                  -- a miss: the entry that is written is the answer of the routes as they are now
                  refine ⟨rfl, ?_⟩
                  show Coherent _ (r.writeCache (cacheKey m p) (route.result p) now)
                  rw [show r.writeCache (cacheKey m p) (route.result p) now
                      = { r with fastCache := r.fastCache.put (cacheKey m p) (route.result p) }
                    by simp [writeCache, hen, hfast]]
                  refine FastRouteCache.Holds.put hlater ⟨m, p, ⟨now, ?_⟩, rfl, ?_⟩
                  · exact List.mem_append_right _ (List.mem_singleton_self _)
                  · show (firstServing r.precompiledRoutes m p).map _ = _
                    rw [hfirst]
                    rfl

theorem setCacheEnabled_agree (r : FastRouter E F) (enabled : Bool) (now : Int) :
    Agree (r.setCacheEnabled enabled now) r := by
  cases enabled with
  | true => exact ⟨rfl, rfl, rfl⟩
  | false => exact ⟨rfl, rfl, rfl⟩

/-- Registration reads nothing but what cached and uncached router share. -/
theorem addRoute_agree {r t : FastRouter E F} (h : Agree r t) (m : ByteString)
    (handler : IHandler F) (base : ByteString) :
    Agree (r.step S (.addRoute m handler base)).1 (t.step S (.addRoute m handler base)).1 ∧
      (r.step S (.addRoute m handler base)).2 = (t.step S (.addRoute m handler base)).2 := by
  simp only [step, addRoute]
  by_cases hst : isStaticFastPath handler.path = true
  · simp only [if_pos hst]
    refine ⟨⟨?_, h.routes, h.sorting⟩, trivial⟩
    simp only [addStaticRoute, h.statics]
  · simp only [if_neg hst]
    cases (precompileRoute m handler : Except ByteString (PrecompiledRoute E F)) with
    | error err => exact ⟨h, rfl⟩
    | ok route =>
        refine ⟨⟨h.statics, ?_, h.sorting⟩, rfl⟩
        simp only [routesWith, h.sorting, h.routes]

/-- Registration keeps coherence when no cached request changes hands. -/
theorem addRoute_coherent {past : List (FastRouterCall F)} {r : FastRouter E F}
    (hfast : r.useFastCache = true) (hcoh : Coherent past r) {m : ByteString}
    {handler : IHandler F} {base : ByteString}
    (hok : CallOk S past r (.addRoute m handler base)) :
    (r.step S (.addRoute m handler base)).1.useFastCache = true ∧
      Coherent past (r.step S (.addRoute m handler base)).1 := by
  simp only [step, addRoute]
  by_cases hst : isStaticFastPath handler.path = true
  · simp only [if_pos hst]
    exact ⟨hfast, hcoh⟩
  · simp only [if_neg hst]
    cases hpre : (precompileRoute m handler : Except ByteString (PrecompiledRoute E F)) with
    | error err => exact ⟨hfast, hcoh⟩
    | ok route =>
        have hsame := hok (Bool.eq_false_iff.mpr hst) route hpre
        exact ⟨hfast, hcoh.reroute rfl hsame⟩

/-- **THE STEP LEMMA.**  A call that meets its condition keeps the simulation
    and gets the same reply from both routers. -/
theorem step_simulates {past : List (FastRouterCall F)} {r t : FastRouter E F}
    (h : Simulates past r t) {call : FastRouterCall F} (hok : CallOk S past r call) :
    Simulates (past ++ [call]) (r.step S call).1 (t.uncachedStep S call).1 ∧
      (r.step S call).2 = (t.uncachedStep S call).2 := by
  obtain ⟨hagree, hfast, hcoh⟩ := h
  cases call with
  | addRoute m handler base =>
      obtain ⟨ha, hreply⟩ := addRoute_agree S hagree.uncached m handler base
      obtain ⟨hf, hc⟩ := addRoute_coherent S hfast hcoh hok
      exact ⟨⟨ha.uncached, hf, hc.later _⟩, hreply⟩
  | matchRoute m p now =>
      obtain ⟨hans, hc⟩ := matchRoute_coherent S hfast hcoh hok
      obtain ⟨⟨h1, h2, h3⟩, hf⟩ := matchRoute_agree r m p now
      have hun := matchRoute_uncached t m p now
      refine ⟨⟨⟨?_, ?_, ?_⟩, hf.trans hfast, hc⟩, ?_⟩
      · simp only [step, uncachedStep, hun]
        exact h1.trans hagree.statics
      · simp only [step, uncachedStep, hun]
        exact h2.trans hagree.routes
      · simp only [step, uncachedStep, hun]
        exact h3.trans hagree.sorting
      · simp only [step, uncachedStep, hun, hans]
        rw [hagree.directAnswer]
  -- only `lru_cache` is cleared, which a router with the fast cache does not read
  | clearCache now =>
      exact ⟨⟨⟨hagree.statics, hagree.routes, hagree.sorting⟩, hfast, hcoh.later _⟩, rfl⟩
  | setCacheEnabled enabled now =>
      have hr := setCacheEnabled_agree r enabled now
      have ht := setCacheEnabled_agree t.uncached enabled now
      refine ⟨⟨⟨?_, ?_, ?_⟩, ?_, ?_⟩, rfl⟩
      · exact hr.statics.trans (hagree.statics.trans ht.statics.symm)
      · exact hr.routes.trans (hagree.routes.trans ht.routes.symm)
      · exact hr.sorting.trans (hagree.sorting.trans ht.sorting.symm)
      · cases enabled with
        | true => exact hfast
        | false => exact hfast
      · cases enabled with
        | true => exact hcoh.later _
        | false => exact hcoh.later _
  | setSortEnabled enabled =>
      cases enabled with
      | true =>
          -- sorting again may change which route serves a request first
          have hc : Coherent past (r.setSortEnabled S true) := hcoh.reroute rfl hok
          refine ⟨⟨⟨hagree.statics, ?_, rfl⟩, hfast, hc.later _⟩, rfl⟩
          exact congrArg (S.sortBy (·.complexity)) hagree.routes
      | false =>
          exact ⟨⟨⟨hagree.statics, hagree.routes, rfl⟩, hfast, hcoh.later _⟩, rfl⟩

theorem simulates_new (now : Int) :
    Simulates [] (new now : FastRouter E F) (new now) where
  agree := ⟨rfl, rfl, rfl⟩
  fast := rfl
  coherent := FastRouteCache.holds_new _ _

/-- **CACHE TRANSPARENCY.**  In a run whose calls all meet `CallOk`, every reply
    is the reply of the router that never caches. -/
theorem replies_eq_uncached (now : Int) (calls : List (FastRouterCall F))
    (hok : ∀ e ∈ events (step S) (new now : FastRouter E F) calls,
      CallOk S e.past e.before e.input) :
    outputs (step S) (new now : FastRouter E F) calls
      = outputs (uncachedStep S) (new now : FastRouter E F) calls := by
  have hstep : ∀ past (r t : FastRouter E F) call, Simulates past r t → CallOk S past r call →
      Simulates (past ++ [call]) (r.step S call).1 (t.uncachedStep S call).1 ∧
        (r.step S call).2 = (t.uncachedStep S call).2 :=
    fun _ _ _ _ hR h => step_simulates S hR h
  exact outputs_eq_of_sim hstep calls [] _ _ (simulates_new now) hok

/-! ## Runs that register first

    An application that registers its routes before it serves requests, and
    whose methods are tokens without a colon, meets the condition throughout. -/

/-- A call that registers or configures, but looks nothing up. -/
def IsSetup : FastRouterCall F → Prop
  | .matchRoute _ _ _ => False
  | .addRoute _ _ _ | .clearCache _ | .setCacheEnabled _ _ | .setSortEnabled _ => True

/-- A call that leaves the routes alone. -/
def IsTraffic : FastRouterCall F → Prop
  | .matchRoute method _ _ => byte ':' ∉ method
  | .clearCache _ | .setCacheEnabled _ _ => True
  | .addRoute _ _ _ | .setSortEnabled _ => False

theorem callOk_of_setup {past : List (FastRouterCall F)} (hpast : ∀ c ∈ past, IsSetup c)
    (r : FastRouter E F) (call : FastRouterCall F) : CallOk S past r call := by
  have hnone : ∀ m p, ¬ StillCached past r m p := by
    rintro m p ⟨⟨now, hmem⟩, -⟩
    exact hpast _ hmem
  cases call with
  | addRoute m handler base => exact fun _ _ _ m p h => absurd h (hnone m p)
  | matchRoute m p now => exact fun _ m' p' h => absurd h (hnone m' p')
  | clearCache now => exact trivial
  | setCacheEnabled enabled now => exact trivial
  | setSortEnabled enabled =>
      cases enabled with
      | true => exact fun m p h => absurd h (hnone m p)
      | false => exact trivial

theorem callOk_of_traffic {past : List (FastRouterCall F)}
    (hpast : ∀ c ∈ past, IsSetup c ∨ IsTraffic c) (r : FastRouter E F)
    {call : FastRouterCall F} (hcall : IsTraffic call) : CallOk S past r call := by
  cases call with
  | addRoute m handler base => exact hcall.elim
  | setSortEnabled enabled => exact hcall.elim
  | clearCache now => exact trivial
  | setCacheEnabled enabled now => exact trivial
  | matchRoute m p now =>
      rintro - m' p' ⟨⟨now', hmem⟩, -⟩ hkey
      rcases hpast _ hmem with hset | htraf
      · exact hset.elim
      · exact cacheKey_inj htraf hcall hkey

theorem callOk_of_setup_first {setup traffic : List (FastRouterCall F)}
    (hs : ∀ c ∈ setup, IsSetup c) (ht : ∀ c ∈ traffic, IsTraffic c) (r : FastRouter E F) :
    ∀ e ∈ events (step S) r (setup ++ traffic), CallOk S e.past e.before e.input := by
  intro e he
  obtain ⟨pre, post, hsplit, hpast⟩ := eventsFrom_split he
  rw [List.nil_append] at hpast
  rcases List.append_eq_append_iff.mp hsplit with ⟨mid, hpre, htraf⟩ | ⟨mid, hset, -⟩
  · -- the call is part of the traffic
    refine callOk_of_traffic S ?_ e.before (ht _ ?_)
    · intro c hc
      rw [hpast, hpre] at hc
      rcases List.mem_append.mp hc with h | h
      · exact Or.inl (hs c h)
      · exact Or.inr (ht c (htraf ▸ List.mem_append_left _ h))
    · rw [htraf]
      exact List.mem_append_right _ (List.mem_cons_self ..)
  · -- the inputs before it are part of the setup
    refine callOk_of_setup S ?_ e.before e.input
    intro c hc
    rw [hpast] at hc
    exact hs c (hset ▸ List.mem_append_left _ hc)

/-! ## Two runs -/

/-- The handler a reply carries. -/
def servedHandle : FastRouterReply F → Option F
  | .matched (some result) => some result.handler.handle
  | _ => none

def getCall (path : String) : FastRouterCall Nat := .matchRoute (ascii "GET") (ascii path) 0

def addCall (path : String) (handle : Nat) : FastRouterCall Nat :=
  .addRoute (ascii "GET") ⟨ascii path, handle⟩ []

/-- One route, looked up before and after the cache is cleared. -/
theorem replies_eq_uncached_of_one_route :
    outputs (step .insertion) (new 0 : FastRouter segmentEngine Nat)
        ([addCall "/:x/:y" 0] ++ [getCall "/a/b", .clearCache 0, getCall "/a/b"])
      = outputs (uncachedStep .insertion) (new 0 : FastRouter segmentEngine Nat)
        ([addCall "/:x/:y" 0] ++ [getCall "/a/b", .clearCache 0, getCall "/a/b"]) :=
  replies_eq_uncached .insertion 0 _
    (callOk_of_setup_first .insertion
      (by
        intro c hc
        rw [List.mem_singleton.mp hc]
        exact trivial)
      (by
        intro c hc
        have hGet : byte ':' ∉ ascii "GET" := by decide
        simp only [List.mem_cons, List.not_mem_nil, or_false] at hc
        rcases hc with rfl | rfl | rfl
        · exact hGet
        · exact trivial
        · exact hGet)
      (new 0))

/-- A more specific route registered after a lookup, and the cache cleared. -/
def staleRun : List (FastRouterCall Nat) :=
  [addCall "/:x/:y" 0, getCall "/a/b", addCall "/a/:y" 1, .clearCache 0, getCall "/a/b"]

/-- The last lookup still answers from `fast_cache`. -/
theorem stale_entry_survives_clear :
    outputs (step .insertion) (new 0 : FastRouter segmentEngine Nat) staleRun
      ≠ outputs (uncachedStep .insertion) (new 0 : FastRouter segmentEngine Nat) staleRun := by
  intro h
  have hserved := congrArg (List.map servedHandle) h
  exact absurd hserved (by decide)

end FastRouter

end VHono
