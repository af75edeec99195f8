import VHono.Dispatch

/-! # When the dispatchers agree

    The three dispatchers started with one application, each through its own
    listen function, and fed the same requests.  Their traces for a request are
    compared in whatever states earlier requests have left their routers.

    They do not agree: the low-level backends skip the global
    middlewares where no route matches and where a WebSocket upgrade meets a
    route, and `listen_http` never sorts the mounted prefixes, so `ServerHanler`
    runs no mounted middleware at all. -/

namespace VHono

open ByteString HttpGrammar MachineRuns

variable {E : RegexEngine} {M F : Type}

namespace Hono

/-- The applications that the registration calls build. -/
inductive BuiltApp (S : CompareSort) : Hono E M F → Prop
  | new (now : Int) : BuiltApp S (new now)
  | on {app : Hono E M F} (m : RouteMethod) (path : ByteString) (handler : F) :
      BuiltApp S app → BuiltApp S (app.on S m path handler)
  | useMiddleware {app : Hono E M F} (mw : M) :
      BuiltApp S app → BuiltApp S (app.useMiddleware mw)
  | notFound {app : Hono E M F} (handler : F) :
      BuiltApp S app → BuiltApp S (app.notFound handler)
  | route {app subapp : Hono E M F} (pfx : ByteString) :
      BuiltApp S app → BuiltApp S subapp → BuiltApp S (app.route S pfx subapp)
  | setFastRouterEnabled {app : Hono E M F} (enabled : Bool) :
      BuiltApp S app → BuiltApp S (app.setFastRouterEnabled enabled)
  | setBasePath {app : Hono E M F} (basePath : ByteString) :
      BuiltApp S app → BuiltApp S (app.setBasePath basePath)

/-- What building keeps: the flag is set where there are middlewares, nothing
    empty is mounted, and no prefix is sorted yet. -/
structure Configured (app : Hono E M F) : Prop where
  flag     : app.hasMiddlewares = false →
    app.contextMiddlewares = [] ∧ app.routeMiddlewares.len = 0
  stored   : ∀ pfx mws, app.routeMiddlewares.get? pfx = some mws → mws ≠ []
  unsorted : app.sortedMiddlewarePrefixes = []

variable {S : CompareSort}

theorem Configured.of_sameSetup {app app' : Hono E M F} (h : Configured app)
    (hs : SameSetup app app') : Configured app' where
  flag := by
    rw [hs.flag, hs.own, hs.mounted]
    exact h.flag
  stored := by
    rw [hs.mounted]
    exact h.stored
  unsorted := hs.prefixes.trans h.unsorted

theorem Configured.mergeMiddlewares {app : Hono E M F} (h : Configured app)
    (pfx : ByteString) (mws : List M) : Configured (app.mergeMiddlewares pfx mws) := by
  rw [Hono.mergeMiddlewares]
  by_cases hpos : 0 < mws.length
  · rw [if_pos hpos]
    have hne : mws ≠ [] := List.ne_nil_of_length_pos hpos
    refine ⟨by rintro ⟨⟩, ?_, h.unsorted⟩
    intro p l hl
    cases hget : app.routeMiddlewares.get? pfx with
    | none =>
        simp only [hget, InsertionMap.get?_insert] at hl
        by_cases hp : p = pfx
        · rw [if_pos hp] at hl
          rw [← Option.some.inj hl]
          exact hne
        · rw [if_neg hp] at hl
          exact h.stored p l hl
    | some old =>
        simp only [hget, InsertionMap.get?_insert] at hl
        by_cases hp : p = pfx
        · rw [if_pos hp] at hl
          rw [← Option.some.inj hl]
          exact List.append_ne_nil_of_right_ne_nil old hne
        · rw [if_neg hp] at hl
          exact h.stored p l hl
  · rw [if_neg hpos]
    exact h

/-- Every built application is configured. -/
theorem BuiltApp.configured {app : Hono E M F} (h : BuiltApp S app) : Configured app := by
  induction h with
  | new now => exact ⟨fun _ => ⟨rfl, rfl⟩, fun _ _ hget => (nomatch hget), rfl⟩
  | @on app m path handler _ ih =>
      obtain ⟨base, hreg⟩ := app.on_eq_register S m path handler
      rw [hreg]
      exact ih.of_sameSetup (sameSetup_register S app m base path handler)
  | useMiddleware mw _ ih => exact ⟨fun hf => (nomatch hf), ih.stored, ih.unsorted⟩
  | notFound handler _ ih => exact ⟨ih.flag, ih.stored, ih.unsorted⟩
  | @route app subapp pfx _ _ ih _ =>
      exact (ih.mergeMiddlewares pfx subapp.contextMiddlewares).of_sameSetup
        (sameSetup_mergeRoutes S pfx subapp.handlers _)
  | setFastRouterEnabled enabled _ ih => exact ⟨ih.flag, ih.stored, ih.unsorted⟩
  | setBasePath basePath _ ih => exact ⟨ih.flag, ih.stored, ih.unsorted⟩

/-! ## The middlewares of a matched request -/

/-- Without sorted prefixes only the own middlewares are selected. -/
theorem Configured.matchedMiddlewares {app : Hono E M F} (h : Configured app)
    (path : ByteString) : app.matchedMiddlewares path = app.contextMiddlewares := by
  rw [Hono.matchedMiddlewares]
  cases hflag : app.hasMiddlewares with
  | false =>
      rw [if_pos (by simp), (h.flag hflag).1]
  | true =>
      rw [if_neg (by simp), selectMiddlewares]
      split
      · rfl
      · rw [mountedMiddlewares, h.unsorted]
        exact List.append_nil _

/-- With sorted prefixes nothing is added exactly where no prefix is selected. -/
theorem Configured.mounted_nil_iff {app : Hono E M F} (h : Configured app)
    (path : ByteString) :
    (app.precomputeMiddlewarePrefixes S).mountedMiddlewares path = []
      ↔ ∀ pfx ∈ app.routeMiddlewares.keys, selectsPrefix path pfx = false := by
  rw [mountedMiddlewares, List.flatMap_eq_nil_iff]
  constructor
  · intro hnil pfx hpfx
    by_contra hsel
    obtain ⟨mws, hget⟩ := InsertionMap.mem_keys_iff.mp hpfx
    have hempty := hnil pfx (S.mem_sortBy.mpr hpfx)
    have hget' : (app.precomputeMiddlewarePrefixes S).routeMiddlewares.get? pfx = some mws :=
      hget
    rw [if_pos (by simpa using hsel), hget'] at hempty
    exact h.stored pfx mws hget hempty
  · intro hsel pfx hpfx
    rw [hsel pfx (S.mem_sortBy.mp hpfx)]
    rfl

/-! ## One dispatch against another -/

/-- The handler a lookup finds. -/
def lookup (app : Hono E M F) (method path : ByteString) (now : Int) : Option F :=
  (app.matchRequest method path now).1.map (·.handler.handle)

/-- What `ServerHanler` runs, with the setup of a configured application. -/
theorem serverHandle_trace (lib : HttpLibrary) {app h : Hono E M F}
    (hc : Configured app) (hs : SameSetup app h) (r : Request) (now : Int) :
    (h.serverHandle lib r now).2
      = ⟨app.contextMiddlewares,
          match h.lookup (lib.methodStr r.method) (lib.urlPath r.target) now with
          | some f => .handler f
          | none => app.unmatchedFinal⟩ := by
  have hs' := hs.trans
    (h.sameSetup_matchRequest (lib.methodStr r.method) (lib.urlPath r.target) now)
  rw [serverHandle, lookup]
  rcases hm : h.matchRequest (lib.methodStr r.method) (lib.urlPath r.target) now with ⟨found, h'⟩
  rw [hm] at hs'
  cases found with
  | some result =>
      dsimp only
      rw [(hc.of_sameSetup hs').matchedMiddlewares, hs'.own]
      rfl
  | none =>
      dsimp only
      rw [hs'.own, unmatchedFinal, hs'.fallback]
      rfl

/-- What a low-level backend runs, with the prefixes of the application sorted. -/
theorem lowLevelDispatch_trace {app l : Hono E M F}
    (hs : SameSetup (app.precomputeMiddlewarePrefixes S) l) (inc : Incoming) (now : Int) :
    (l.lowLevelDispatch inc now).2
      = match l.lookup inc.method inc.path now with
        | some f =>
          if inc.upgrade then ⟨[], upgradeFinal inc f⟩
          else ⟨app.contextMiddlewares
            ++ (app.precomputeMiddlewarePrefixes S).mountedMiddlewares inc.path, .handler f⟩
        | none => ⟨[], app.unmatchedFinal⟩ := by
  have hs' := hs.trans (l.sameSetup_matchRequest inc.method inc.path now)
  rw [lowLevelDispatch, lookup]
  rcases hm : l.matchRequest inc.method inc.path now with ⟨found, l'⟩
  rw [hm] at hs'
  cases found with
  | some result =>
      dsimp only
      rw [hs'.matchedMiddlewares, matchedMiddlewares_precomputed]
      show (if inc.upgrade then _ else _ : Hono E M F × Trace M F).2 = if inc.upgrade then _ else _
      split
      · rfl
      · rfl
  | none =>
      dsimp only
      rw [unmatchedFinal, hs'.fallback]
      rfl

/-- A low-level backend adds nothing to a matched route, and leaves nothing out: an
    upgrade is well formed and skips no global middleware, and for any other
    request no mounted prefix is selected. -/
def MatchClear (app : Hono E M F) (inc : Incoming) : Prop :=
  if inc.upgrade then
    inc.version = ascii "13" ∧ inc.key ≠ [] ∧ app.contextMiddlewares = []
  else ∀ pfx ∈ app.routeMiddlewares.keys, selectsPrefix inc.path pfx = false

/-- The lookup of the server and that of a low-level backend find the same; without
    a route no global middleware is skipped; with one the backend is clear. -/
def Agrees (app : Hono E M F) (inc : Incoming) (found found' : Option F) : Prop :=
  found = found' ∧ (found' = none → app.contextMiddlewares = []) ∧
    (found' ≠ none → MatchClear app inc)

theorem upgradeFinal_eq_handler_iff (inc : Incoming) (f g : F) :
    Final.handler f = upgradeFinal inc g ↔ f = g ∧ inc.version = ascii "13" ∧ inc.key ≠ [] := by
  rw [upgradeFinal]
  by_cases hv : inc.version = ascii "13"
  · rw [if_neg (not_not_intro hv)]
    by_cases hk : inc.key.length = 0
    · rw [if_pos hk]
      exact ⟨fun h => (nomatch h), fun h => absurd (List.length_eq_zero_iff.mp hk) h.2.2⟩
    · rw [if_neg hk, Final.handler.injEq]
      exact ⟨fun h => ⟨h, hv, fun hnil => hk (List.length_eq_zero_iff.mpr hnil)⟩, fun h => h.1⟩
  · rw [if_pos hv]
    exact ⟨fun h => (nomatch h), fun h => absurd h.2.1 hv⟩

/-- A request without a route ends in the not-found handler or the default. -/
theorem unmatchedFinal_cases (app : Hono E M F) :
    (∃ f, app.unmatchedFinal = .notFound f) ∨ app.unmatchedFinal = .default404 := by
  rw [unmatchedFinal]
  cases app.notFoundHandler with
  | some f => exact Or.inl ⟨f, rfl⟩
  | none => exact Or.inr rfl

/-- An upgrade ends in a rejection or in the route's handler. -/
theorem upgradeFinal_cases (inc : Incoming) (f : F) :
    (∃ status, upgradeFinal inc f = .rejected status) ∨ upgradeFinal inc f = .handler f := by
  rw [upgradeFinal]
  split
  · exact Or.inl ⟨426, rfl⟩
  · split
    · exact Or.inl ⟨400, rfl⟩
    · exact Or.inr rfl

theorem unmatchedFinal_ne_handler (app : Hono E M F) (f : F) :
    app.unmatchedFinal ≠ .handler f := by
  rcases app.unmatchedFinal_cases with ⟨g, h⟩ | h
  · rw [h]
    exact fun hne => (by cases hne)
  · rw [h]
    exact fun hne => (by cases hne)

theorem unmatchedFinal_ne_upgradeFinal (app : Hono E M F) (inc : Incoming) (f : F) :
    app.unmatchedFinal ≠ upgradeFinal inc f := by
  rcases upgradeFinal_cases inc f with ⟨status, h⟩ | h
  · rw [h]
    rcases app.unmatchedFinal_cases with ⟨g, h'⟩ | h'
    · rw [h']
      exact fun hne => (by cases hne)
    · rw [h']
      exact fun hne => (by cases hne)
  · rw [h]
    exact app.unmatchedFinal_ne_handler f

/-- A server trace equals a low-level trace exactly when the lookups agree, no
    global middleware is skipped, and a match is clear. -/
theorem traces_eq_iff {app : Hono E M F} (hc : Configured app) (inc : Incoming)
    (found found' : Option F) :
    (⟨app.contextMiddlewares,
        match found with
        | some f => .handler f
        | none => app.unmatchedFinal⟩ : Trace M F)
      = (match found' with
        | some f =>
          if inc.upgrade then ⟨[], upgradeFinal inc f⟩
          else ⟨app.contextMiddlewares
            ++ (app.precomputeMiddlewarePrefixes S).mountedMiddlewares inc.path, .handler f⟩
        | none => ⟨[], app.unmatchedFinal⟩)
      ↔ Agrees app inc found found' := by
  rw [Agrees]
  cases found' with
  | none =>
      cases found with
      | none => simp
      | some f => simp [(app.unmatchedFinal_ne_handler f).symm]
  | some g =>
      by_cases hup : inc.upgrade = true
      -- an upgrade runs no middlewares, and its handler only if it is accepted
      · simp only [hup, if_true, MatchClear]
        cases found with
        | none => simp [app.unmatchedFinal_ne_upgradeFinal inc g]
        | some f =>
            rw [Trace.mk.injEq, upgradeFinal_eq_handler_iff]
            simp
            tauto
      -- otherwise the mounted middlewares are the difference
      · have hup' : inc.upgrade = false := by simpa using hup
        simp only [MatchClear, hup', Bool.false_eq_true, if_false]
        rw [← hc.mounted_nil_iff (S := S)]
        cases found with
        | none => simp [app.unmatchedFinal_ne_handler g]
        | some f =>
            rw [Trace.mk.injEq, Final.handler.injEq]
            simp [and_comm]

/-! ## The three dispatchers over a run -/

/-- A request and the time it is served. -/
structure Arrival where
  request : Request
  now     : Int

def serverStep (lib : HttpLibrary) (app : Hono E M F) (a : Arrival) :
    Hono E M F × Trace M F :=
  app.serverHandle lib a.request a.now

def picoevStep (app : Hono E M F) (a : Arrival) : Hono E M F × Trace M F :=
  app.picoevCallback (picoRequest a.request) a.now

def usocketsStep (app : Hono E M F) (a : Arrival) : Hono E M F × Trace M F :=
  app.usocketsOnData a.request.render a.now

/-- An application after some requests, under each dispatcher. -/
structure Running (E : RegexEngine) (M F : Type) where
  server   : Hono E M F
  picoev   : Hono E M F
  usockets : Hono E M F

/-- Each dispatcher started through its listen function and fed the requests. -/
def running (S : CompareSort) (lib : HttpLibrary) (app : Hono E M F)
    (earlier : List Arrival) : Running E M F where
  server := final (serverStep lib) app.listenHttp earlier
  picoev := final picoevStep (app.listen S) earlier
  usockets := final usocketsStep (app.listenUsockets S) earlier

/-- The next request has one trace under the three dispatchers. -/
def SameTraces (lib : HttpLibrary) (run : Running E M F) (a : Arrival) : Prop :=
  (run.server.serverStep lib a).2 = (run.picoev.picoevStep a).2 ∧
    (run.picoev.picoevStep a).2 = (run.usockets.usocketsStep a).2

/-- The three lookups find the same handler or none; without one there are no
    global middlewares; with one, both low-level backends are clear. -/
def RequestClear (lib : HttpLibrary) (app : Hono E M F) (run : Running E M F)
    (a : Arrival) : Prop :=
  let r := a.request
  let found := run.server.lookup (lib.methodStr r.method) (lib.urlPath r.target) a.now
  found = run.picoev.lookup r.method (picoevIncoming (picoRequest r)).path a.now ∧
  found = run.usockets.lookup r.method (usocketsIncoming r.render).path a.now ∧
  (found = none → app.contextMiddlewares = []) ∧
  (found ≠ none →
    MatchClear app (picoevIncoming (picoRequest r)) ∧ MatchClear app (usocketsIncoming r.render))

theorem sameSetup_running (S : CompareSort) (lib : HttpLibrary) (app : Hono E M F)
    (earlier : List Arrival) :
    SameSetup app (running S lib app earlier).server ∧
    SameSetup (app.precomputeMiddlewarePrefixes S) (running S lib app earlier).picoev ∧
    SameSetup (app.precomputeMiddlewarePrefixes S) (running S lib app earlier).usockets := by
  have hserver : ∀ (_ : List Arrival) (s : Hono E M F) a, SameSetup app s →
      SameSetup app (s.serverStep lib a).1 :=
    fun _ s a h => h.trans (s.sameSetup_serverHandle lib a.request a.now)
  have hpicoev : ∀ (_ : List Arrival) (s : Hono E M F) a,
      SameSetup (app.precomputeMiddlewarePrefixes S) s →
      SameSetup (app.precomputeMiddlewarePrefixes S) (s.picoevStep a).1 :=
    fun _ s a h => h.trans (s.sameSetup_lowLevelDispatch _ a.now)
  have husockets : ∀ (_ : List Arrival) (s : Hono E M F) a,
      SameSetup (app.precomputeMiddlewarePrefixes S) s →
      SameSetup (app.precomputeMiddlewarePrefixes S) (s.usocketsStep a).1 :=
    fun _ s a h => h.trans (s.sameSetup_usocketsOnData a.request.render a.now)
  exact ⟨final_inv hserver earlier [] _ (SameSetup.refl app),
    final_inv hpicoev earlier [] _ (SameSetup.refl _),
    final_inv husockets earlier [] _ (SameSetup.refl _)⟩

/-- A well-formed message is never a bad request. -/
theorem usocketsOnData_render (app : Hono E M F) (r : Request) (now : Int) :
    app.usocketsOnData r.render now = app.lowLevelDispatch (usocketsIncoming r.render) now := by
  have hne : ¬ (parseHttpRequestUsockets r.render).method.length = 0 := by
    rw [(parseHttpRequestUsockets_render r).1]
    exact fun h => r.method_ne (List.length_eq_zero_iff.mp h)
  rw [usocketsOnData, if_neg hne]

/-- **THE DISPATCHERS AGREE.**  For every built application, started by each
    dispatcher through its own listen function, after any requests, the next
    request has one trace under all three if and only if it is clear. -/
theorem same_traces_iff (S : CompareSort) (lib : HttpLibrary) (app : Hono E M F)
    (hbuilt : BuiltApp S app) (earlier : List Arrival) (a : Arrival) :
    SameTraces lib (running S lib app earlier) a
      ↔ RequestClear lib app (running S lib app earlier) a := by
  have hc := hbuilt.configured
  obtain ⟨hserver, hpicoev, husockets⟩ := sameSetup_running S lib app earlier
  generalize running S lib app earlier = run at *
  have htrace := serverHandle_trace lib hc hserver a.request a.now
  have hpico : (run.server.serverStep lib a).2 = (run.picoev.picoevStep a).2 ↔
      Agrees app (picoevIncoming (picoRequest a.request))
        (run.server.lookup (lib.methodStr a.request.method) (lib.urlPath a.request.target) a.now)
        (run.picoev.lookup a.request.method (picoevIncoming (picoRequest a.request)).path
          a.now) := by
    rw [serverStep, picoevStep, picoevCallback, htrace, lowLevelDispatch_trace hpicoev]
    exact traces_eq_iff hc (picoevIncoming (picoRequest a.request)) _ _
  have husock : (run.server.serverStep lib a).2 = (run.usockets.usocketsStep a).2 ↔
      Agrees app (usocketsIncoming a.request.render)
        (run.server.lookup (lib.methodStr a.request.method) (lib.urlPath a.request.target) a.now)
        (run.usockets.lookup (usocketsIncoming a.request.render).method
          (usocketsIncoming a.request.render).path a.now) := by
    rw [serverStep, usocketsStep, usocketsOnData_render, htrace, lowLevelDispatch_trace husockets]
    exact traces_eq_iff hc (usocketsIncoming a.request.render) _ _
  -- uSockets reads the method from the bytes
  have hmethod : (usocketsIncoming a.request.render).method = a.request.method :=
    (parseHttpRequestUsockets_render a.request).1
  rw [hmethod] at husock
  rw [SameTraces, RequestClear]
  constructor
  · rintro ⟨h1, h2⟩
    obtain ⟨hfind, hnone, hsome⟩ := hpico.mp h1
    obtain ⟨hfind', -, hsome'⟩ := husock.mp (h1.trans h2)
    refine ⟨hfind, hfind', fun h => hnone (hfind ▸ h), fun h => ⟨hsome ?_, hsome' ?_⟩⟩
    · exact fun hn => h (hfind.trans hn)
    · exact fun hn => h (hfind'.trans hn)
  · rintro ⟨hfind, hfind', hnone, hsome⟩
    have h1 := hpico.mpr ⟨hfind, fun h => hnone (hfind.trans h),
      fun h => (hsome (fun hn => h (hfind.symm.trans hn))).1⟩
    have h2 := husock.mpr ⟨hfind', fun h => hnone (hfind'.trans h),
      fun h => (hsome (fun hn => h (hfind'.symm.trans hn))).2⟩
    exact ⟨h1, h1.symm.trans h2⟩

/-! ## A request without a route -/

/-- The library on words that need no decoding. -/
def plainLibrary : HttpLibrary where
  methodStr := id
  urlPath := fun target => target.takeWhile (· ≠ byte '?')

/-- One global middleware and one route. -/
def guardedApp : Hono segmentEngine Nat Nat :=
  ((new 0).useMiddleware 1).get .insertion (ascii "/x") 5

theorem guardedApp_built : BuiltApp .insertion guardedApp :=
  .on .get (ascii "/x") 5 (.useMiddleware 1 (.new 0))

theorem same_traces_iff_of_guarded :
    SameTraces plainLibrary (running .insertion plainLibrary guardedApp []) ⟨queryRequest, 0⟩
      ↔ RequestClear plainLibrary guardedApp (running .insertion plainLibrary guardedApp [])
        ⟨queryRequest, 0⟩ :=
  same_traces_iff .insertion plainLibrary guardedApp guardedApp_built [] ⟨queryRequest, 0⟩

/-- `GET /y HTTP/1.1` -/
def missingRequest : Request :=
  { queryRequest with
    target := ascii "/y"
    target_ne := by decide
    target_bytes := List.all_eq_true.mp (by decide) }

/-- The server runs the global middleware before its 404, picoev does not. -/
theorem global_middleware_skipped_on_404 :
    ¬ SameTraces plainLibrary (running .insertion plainLibrary guardedApp [])
      ⟨missingRequest, 0⟩ := by
  rintro ⟨h, -⟩
  exact absurd (congrArg Trace.middlewares h) (by decide)

end Hono

end VHono
