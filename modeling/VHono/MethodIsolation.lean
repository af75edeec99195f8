import VHono.HybridRouter
import VHono.MachineRuns

/-! # Method isolation in the hybrid router

    A lookup for method `m` should answer only with handlers registered for
    `m`.  Static routes and cache entries carry the method in their key; a
    dynamic route does not carry it at all, so the answer of the dynamic list
    is isolated only where its first matching handler was registered for `m`. -/

namespace VHono

open ByteString MachineRuns

variable {E : RegexEngine} {F : Type}

inductive HybridCall (F : Type) where
  | addRoute (method : ByteString) (handler : IHandler F) (basePath : ByteString)
  | matchRoute (method path : ByteString) (now : Int)

def HybridCall.method : HybridCall F → ByteString
  | .addRoute method _ _ => method
  | .matchRoute method _ _ => method

namespace ContextHybridRouter

variable (S : CompareSort)

/-- A lookup answers with a match or none; a registration answers nothing. -/
def step (r : ContextHybridRouter E F) :
    HybridCall F → ContextHybridRouter E F × Option (ContextRouteMatch F)
  | .addRoute method handler basePath => (r.addRoute S method handler basePath, none)
  | .matchRoute method path now =>
    let (result, r') := r.matchRoute method path now
    (r', result)

/-- Some earlier call registered the handler with the method. -/
def Registered (past : List (HybridCall F)) (method : ByteString) (handler : IHandler F) :
    Prop :=
  ∃ base, .addRoute method handler base ∈ past

/-- A lookup that answers does so with a handler of its own method. -/
def MethodIsolated
    (e : Event (ContextHybridRouter E F) (HybridCall F) (Option (ContextRouteMatch F))) :
    Prop :=
  ∀ method path now, e.input = .matchRoute method path now →
    ∀ result, e.output = some result → Registered e.past method result.handler

/-! ## The condition on a lookup -/

/-- Every earlier static route and lookup under the request's key is for its method. -/
def KeyOwned (past : List (HybridCall F)) (method path : ByteString) : Prop :=
  (∀ method' handler base, .addRoute method' handler base ∈ past →
    isStaticPath handler.path = true →
    cacheKey method' handler.path = cacheKey method path → method' = method) ∧
  (∀ method' path' now, .matchRoute method' path' now ∈ past →
    cacheKey method' path' = cacheKey method path → method' = method)

/-- The key is owned, and where neither the static map nor the cache answers,
    the first dynamic handler matching the path was registered for the method. -/
def LookupOk (past : List (HybridCall F)) (r : ContextHybridRouter E F) :
    HybridCall F → Prop
  | .addRoute _ _ _ => True
  | .matchRoute method path now =>
    KeyOwned past method path ∧
      (r.staticRoutes.get? (cacheKey method path) = none →
        (r.cache.get (cacheKey method path) now).1 = none →
        ∀ handler, firstMatching E r.dynamicRoutes path = some handler →
          Registered past method handler)

/-- Methods without a colon own every key. -/
theorem keyOwned_of_tokens {past : List (HybridCall F)} {method : ByteString}
    (hm : byte ':' ∉ method)
    (hpast : ∀ c ∈ past, byte ':' ∉ c.method) (path : ByteString) :
    KeyOwned past method path := by
  constructor
  · intro m' handler base hmem _ hkey
    exact (cacheKey_inj (hpast _ hmem) hm hkey).1
  · intro m' p' now hmem hkey
    exact (cacheKey_inj (hpast _ hmem) hm hkey).1

/-! ## The invariant on the three stores -/

/-- A static entry was registered under its key. -/
def StaticOk (past : List (HybridCall F)) (key : ByteString) (handler : IHandler F) : Prop :=
  ∃ method, Registered past method handler ∧ isStaticPath handler.path = true ∧
    key = cacheKey method handler.path

/-- A cached answer is for an earlier lookup and a handler of its method. -/
def CachedOk (past : List (HybridCall F)) (key : ByteString)
    (result : ContextRouteMatch F) : Prop :=
  ∃ method path, (∃ now, .matchRoute method path now ∈ past) ∧
    key = cacheKey method path ∧ Registered past method result.handler

/-- Of a dynamic handler only this is known: some method registered it. -/
def DynamicOk (past : List (HybridCall F)) (handlers : List (IHandler F)) : Prop :=
  ∀ handler ∈ handlers, ∃ method, Registered past method handler

structure Isolated (past : List (HybridCall F)) (r : ContextHybridRouter E F) : Prop where
  statics  : r.staticRoutes.AllValues (StaticOk past)
  dynamics : DynamicOk past r.dynamicRoutes
  cached   : r.cache.Holds (CachedOk past)
  regexes  : RegexCacheOk r

theorem Registered.later {past : List (HybridCall F)} {method : ByteString}
    {handler : IHandler F} (h : Registered past method handler) (call : HybridCall F) :
    Registered (past ++ [call]) method handler := by
  obtain ⟨base, hmem⟩ := h
  exact ⟨base, List.mem_append_left _ hmem⟩

theorem StaticOk.later {past : List (HybridCall F)} {key : ByteString} {handler : IHandler F}
    (h : StaticOk past key handler) (call : HybridCall F) :
    StaticOk (past ++ [call]) key handler := by
  obtain ⟨m, hreg, hst, hkey⟩ := h
  exact ⟨m, hreg.later call, hst, hkey⟩

theorem CachedOk.later {past : List (HybridCall F)} {key : ByteString}
    {result : ContextRouteMatch F} (h : CachedOk past key result) (call : HybridCall F) :
    CachedOk (past ++ [call]) key result := by
  obtain ⟨m, p, ⟨now, hmem⟩, hkey, hreg⟩ := h
  exact ⟨m, p, ⟨now, List.mem_append_left _ hmem⟩, hkey, hreg.later call⟩

theorem Isolated.later {past : List (HybridCall F)} {r : ContextHybridRouter E F}
    (h : Isolated past r) (call : HybridCall F) : Isolated (past ++ [call]) r where
  statics := h.statics.mono (fun _ _ hs => hs.later call)
  dynamics := fun handler hmem => (h.dynamics handler hmem).imp (fun _ hreg => hreg.later call)
  cached := h.cached.mono (fun _ _ hc => hc.later call)
  regexes := h.regexes

theorem isolated_new (now : Int) : Isolated [] (new now : ContextHybridRouter E F) where
  statics := InsertionMap.allValues_empty _
  dynamics := fun _ hmem => (by cases hmem)
  cached := ContextLRUCache.holds_new _ _ _
  regexes := regexCacheOk_new now

/-- A registration keeps the invariant, whatever it registers. -/
theorem addRoute_isolated {past : List (HybridCall F)} {r : ContextHybridRouter E F}
    (h : Isolated past r) (m : ByteString) (handler : IHandler F) (base : ByteString) :
    Isolated (past ++ [.addRoute m handler base]) (r.addRoute S m handler base) := by
  have hlater := h.later (.addRoute m handler base)
  have hreg : Registered (past ++ [.addRoute m handler base]) m handler :=
    ⟨base, List.mem_append_right _ (List.mem_singleton_self _)⟩
  rw [addRoute]
  by_cases hst : isStaticPath handler.path = true
  · rw [if_pos hst]
    exact ⟨hlater.statics.insert ⟨m, hreg, hst, rfl⟩, hlater.dynamics, hlater.cached,
      hlater.regexes⟩
  · rw [if_neg hst]
    refine ⟨hlater.statics, ?_, hlater.cached, hlater.regexes⟩
    intro handler' hmem
    rcases List.mem_append.mp ((S.mem_sortBy).mp hmem) with hold | hnew
    · exact hlater.dynamics handler' hold
    · rw [List.mem_singleton.mp hnew]
      exact ⟨m, hreg⟩

/-- **THE DYNAMIC LOOKUP.**  The cache answers with a handler of the method; so do
    the dynamic handlers when the first one that matches is of the method. -/
theorem matchDynamic_isolated {past : List (HybridCall F)} {r : ContextHybridRouter E F}
    (h : Isolated past r) {m p : ByteString} {now : Int} (hown : KeyOwned past m p)
    (hdyn : (r.cache.get (cacheKey m p) now).1 = none →
      ∀ handler, firstMatching E r.dynamicRoutes p = some handler →
        Registered past m handler) :
    Isolated (past ++ [.matchRoute m p now])
        (r.matchDynamicRouteWithKey (cacheKey m p) p now).2 ∧
      ∀ result, (r.matchDynamicRouteWithKey (cacheKey m p) p now).1 = some result →
        Registered past m result.handler := by
  obtain ⟨hlru, hcached⟩ := ContextLRUCache.holds_get h.cached (cacheKey m p) now
  rw [matchDynamicRouteWithKey]
  rcases hget : r.cache.get (cacheKey m p) now with ⟨found, lru⟩
  rw [hget] at hlru hcached hdyn
  cases found with
  | some result =>
      -- the entry was written for a lookup with the same key, hence of the same method
      have hr : Isolated past ({ r with cache := lru } : ContextHybridRouter E F) :=
        ⟨h.statics, h.dynamics, hlru, h.regexes⟩
      refine ⟨hr.later _, ?_⟩
      intro result' hres
      obtain ⟨m', p', ⟨now', hmem⟩, hkey, hreg⟩ := hcached result rfl
      have hm : m' = m := hown.2 m' p' now' hmem hkey.symm
      rw [← Option.some.inj hres, ← hm]
      exact hreg
  | none =>
      -- no entry: the handlers are tried in order, whatever their method
      have hok : RegexCacheOk ({ r with cache := lru } : ContextHybridRouter E F) := h.regexes
      obtain ⟨hans, ⟨hs, hd, hc⟩, hrx⟩ := matchHandlers_spec p r.dynamicRoutes hok
      dsimp only
      rcases hloop : matchHandlers p r.dynamicRoutes
        ({ r with cache := lru } : ContextHybridRouter E F) with ⟨answer, s⟩
      rw [hloop] at hans hs hd hc hrx
      have hstat : s.staticRoutes.AllValues (StaticOk past) := by
        rw [hs]
        exact h.statics
      have hdynr : DynamicOk past s.dynamicRoutes := by
        rw [hd]
        exact h.dynamics
      have hcach : s.cache.Holds (CachedOk past) := by
        rw [hc]
        exact hlru
      cases answer with
      | none =>
          exact ⟨Isolated.later ⟨hstat, hdynr, hcach, hrx⟩ _, by rintro result ⟨⟩⟩
      | some result =>
          have hreg : Registered past m result.handler :=
            hdyn rfl _ (dynamicAnswer_handler hans.symm)
          have hlater := Isolated.later ⟨hstat, hdynr, hcach, hrx⟩ (.matchRoute m p now)
          refine ⟨⟨hlater.statics, hlater.dynamics, ?_, hlater.regexes⟩, ?_⟩
          · refine ContextLRUCache.holds_put hlater.cached ⟨m, p, ⟨now, ?_⟩, rfl, hreg.later _⟩ now
            exact List.mem_append_right _ (List.mem_singleton_self _)
          · intro result' hres
            rw [← Option.some.inj hres]
            exact hreg

/-- **THE STEP LEMMA.**  A call that meets its condition keeps the invariant and
    answers within its method. -/
theorem step_isolated {past : List (HybridCall F)} {r : ContextHybridRouter E F}
    {call : HybridCall F} (h : Isolated past r) (hok : LookupOk past r call) :
    Isolated (past ++ [call]) (r.step S call).1 ∧
      MethodIsolated ⟨past, r, call, (r.step S call).2⟩ := by
  cases call with
  | addRoute m handler base =>
      exact ⟨addRoute_isolated S h m handler base, fun m' p' now' hin => (by cases hin)⟩
  | matchRoute m p now =>
      obtain ⟨hown, hdyn⟩ := hok
      -- the lookup's own answer, before it is read off the event
      have hlookup : Isolated (past ++ [.matchRoute m p now]) (r.matchRoute m p now).2 ∧
          ∀ result, (r.matchRoute m p now).1 = some result →
            Registered past m result.handler := by
        rw [ContextHybridRouter.matchRoute]
        cases hst : r.staticRoutes.get? (cacheKey m p) with
        | none => exact matchDynamic_isolated h hown (hdyn hst)
        | some handler =>
            refine ⟨h.later _, ?_⟩
            intro result hres
            obtain ⟨m', ⟨base, hmem⟩, hstatic, hkey⟩ := h.statics _ _ hst
            have hm : m' = m := hown.1 m' handler base hmem hstatic hkey.symm
            rw [← Option.some.inj hres, ← hm]
            exact ⟨base, hmem⟩
      refine ⟨hlookup.1, ?_⟩
      intro m' p' now' hin result hres
      cases hin
      exact hlookup.2 result hres

/-- **METHOD ISOLATION.**  In a run whose lookups all meet `LookupOk`, every
    answer is a handler registered with the method asked for. -/
theorem lookups_isolated (now : Int) (calls : List (HybridCall F))
    (hok : ∀ e ∈ events (step S) (new now : ContextHybridRouter E F) calls,
      LookupOk e.past e.before e.input) :
    Always MethodIsolated (step S) (new now : ContextHybridRouter E F) calls :=
  events_good (isolated_new now) (fun _ _ _ h hc => step_isolated S h hc) hok

/-! ## Routers that serve one method -/

/-- With one method in the whole run, every lookup meets its condition. -/
theorem lookupOk_of_one_method {m : ByteString} (hm : byte ':' ∉ m) (now : Int)
    {calls : List (HybridCall F)} (hcalls : ∀ c ∈ calls, c.method = m) :
    ∀ e ∈ events (step S) (new now : ContextHybridRouter E F) calls,
      LookupOk e.past e.before e.input := by
  have hstep : ∀ past (r : ContextHybridRouter E F) call,
      (Isolated past r ∧ ∀ c ∈ past, c.method = m) → call.method = m →
      (Isolated (past ++ [call]) (r.step S call).1 ∧
        ∀ c ∈ past ++ [call], c.method = m) ∧ LookupOk past r call := by
    rintro past r call ⟨hiso, hpast⟩ hcall
    have hok : LookupOk past r call := by
      cases call with
      | addRoute m' handler base => exact trivial
      | matchRoute m' p now' =>
          have hm' : m' = m := hcall
          subst hm'
          refine ⟨keyOwned_of_tokens hm (fun c hc => hpast c hc ▸ hm) p, ?_⟩
          · intro _ _ handler hfirst
            obtain ⟨m₁, base, hmem⟩ := hiso.dynamics handler (List.mem_of_find?_eq_some hfirst)
            have hm₁ : m₁ = m' := hpast _ hmem
            exact ⟨base, hm₁ ▸ hmem⟩
    refine ⟨⟨(step_isolated S hiso hok).1, ?_⟩, hok⟩
    intro c hc
    rcases List.mem_append.mp hc with hold | hnew
    · exact hpast c hold
    · rw [List.mem_singleton.mp hnew]
      exact hcall
  refine events_good ⟨isolated_new now, fun c hc => (by cases hc)⟩ hstep ?_
  intro e he
  obtain ⟨pre, post, hsplit, -⟩ := eventsFrom_split he
  exact hcalls _ (hsplit ▸ List.mem_append_right _ (List.mem_cons_self ..))

/-- A parameter route looked up twice with its own method. -/
theorem lookups_isolated_of_one_route :
    Always MethodIsolated (step .insertion) (new 0 : ContextHybridRouter segmentEngine Nat)
      [.addRoute (ascii "GET") ⟨ascii "/u/:id", 0⟩ [],
        .matchRoute (ascii "GET") (ascii "/u/1") 0, .matchRoute (ascii "GET") (ascii "/u/1") 1] :=
  lookups_isolated .insertion 0 _
    (lookupOk_of_one_method .insertion (show byte ':' ∉ ascii "GET" by decide) 0 (by
      intro c hc
      simp only [List.mem_cons, List.not_mem_nil, or_false] at hc
      rcases hc with rfl | rfl | rfl <;> rfl))

/-- A route registered for POST only. -/
def postOnlyRun : List (HybridCall Nat) :=
  [.addRoute (ascii "POST") ⟨ascii "/u/:id", 0⟩ [],
    .matchRoute (ascii "GET") (ascii "/u/1") 0]

/-- The lookup for GET answers with it. -/
theorem post_route_answers_get :
    ¬ Always MethodIsolated (step .insertion) (new 0 : ContextHybridRouter segmentEngine Nat)
      postOnlyRun := by
  intro h
  have hget := h _ (List.mem_cons_of_mem _ (List.mem_cons_self ..))
  have hanswer : ∃ result, ((((new 0 : ContextHybridRouter segmentEngine Nat).addRoute .insertion
      (ascii "POST") ⟨ascii "/u/:id", 0⟩ []).step .insertion
        (.matchRoute (ascii "GET") (ascii "/u/1") 0)).2) = some result := by
    exact Option.isSome_iff_exists.mp (by decide)
  obtain ⟨result, hresult⟩ := hanswer
  obtain ⟨base, hmem⟩ := hget _ _ _ rfl result hresult
  have hmethod : ascii "GET" = ascii "POST" :=
    congrArg HybridCall.method (List.mem_singleton.mp hmem)
  exact absurd hmethod (by decide)

end ContextHybridRouter

end VHono
