import VHono.MountComposition
import VHono.BackendRequests

/-! # The three dispatchers

    `ServerHanler.handle`, `picoev_callback` and `usockets_on_data`: what each
    runs for a request.  The outcome is a trace, the list of middlewares
    handed to the onion and the final step they enclose; `Trace.run` gives a
    trace its meaning.

    Method and path reach `ServerHanler` through the HTTP and URL libraries,
    which enter as an `HttpLibrary`. -/

namespace VHono

open ByteString HttpGrammar MachineRuns

variable {E : RegexEngine} {M F : Type}

/-- How the library's server turns the words of a request line into the method
    name and the path that `ServerHanler` routes by. -/
structure HttpLibrary where
  methodStr : ByteString → ByteString
  urlPath   : ByteString → ByteString

/-- The last step of a request. -/
inductive Final (F : Type) where
  | handler (f : F)
  | notFound (f : F)
  | default404
  | rejected (status : Nat)
  | badRequest

structure Trace (M F : Type) where
  middlewares : List M
  final       : Final F

/-! ## The onion -/

/-- `exec_..._middlewares(idx, middlewares, ctx, handler)`: each middleware is
    given the rest as its `next`. -/
def execMiddlewares {C R : Type} (call : M → (C → R) → C → R) (idx : Nat)
    (middlewares : List M) (handler : C → R) : C → R :=
  if h : idx < middlewares.length then
    call middlewares[idx] (execMiddlewares call (idx + 1) middlewares handler)
  else handler
  termination_by middlewares.length - idx

/-- The first middleware is the outermost. -/
theorem execMiddlewares_eq_foldr {C R : Type} (call : M → (C → R) → C → R)
    (middlewares : List M) (handler : C → R) :
    ∀ (k idx : Nat), middlewares.length - idx = k →
      execMiddlewares call idx middlewares handler
        = (middlewares.drop idx).foldr call handler := by
  intro k
  induction k with
  | zero =>
      intro idx hk
      have hge : middlewares.length ≤ idx := by omega
      rw [execMiddlewares, dif_neg (by omega), List.drop_eq_nil_of_le hge]
      rfl
  | succ k ih =>
      intro idx hk
      have hlt : idx < middlewares.length := by omega
      rw [execMiddlewares, dif_pos hlt, ih (idx + 1) (by omega), List.drop_eq_getElem_cons hlt]
      rfl

/-- What a trace does, given what a middleware and a final step do. -/
def Trace.run {C R : Type} (call : M → (C → R) → C → R) (finish : Final F → C → R)
    (t : Trace M F) : C → R :=
  execMiddlewares call 0 t.middlewares (finish t.final)

/-- A trace runs its middlewares in order, the first one outermost. -/
theorem Trace.run_eq_foldr {C R : Type} (call : M → (C → R) → C → R)
    (finish : Final F → C → R) (t : Trace M F) :
    t.run call finish = t.middlewares.foldr call (finish t.final) :=
  execMiddlewares_eq_foldr call t.middlewares (finish t.final) _ 0 rfl

/-! ## The dispatchers -/

namespace Hono

/-- The final step of a request without a route. -/
def unmatchedFinal (app : Hono E M F) : Final F :=
  match app.notFoundHandler with
  | some f => .notFound f
  | none => .default404

/-- `ServerHanler.handle` -/
def serverHandle (lib : HttpLibrary) (app : Hono E M F) (r : Request) (now : Int) :
    Hono E M F × Trace M F :=
  let path := lib.urlPath r.target
  match app.matchRequest (lib.methodStr r.method) path now with
  | (some result, app) =>
    (app, ⟨app.matchedMiddlewares path, .handler result.handler.handle⟩)
  | (none, app) => (app, ⟨app.contextMiddlewares, app.unmatchedFinal⟩)

/-- What a low-level backend reads off a request. -/
structure Incoming where
  method  : ByteString
  path    : ByteString
  upgrade : Bool
  version : ByteString
  key     : ByteString

/-- The upgrade branch: two checks, then the handler alone. -/
def upgradeFinal (inc : Incoming) (f : F) : Final F :=
  if inc.version ≠ ascii "13" then .rejected 426
  else if inc.key.length = 0 then .rejected 400
  else .handler f

/-- What both low-level backends run. -/
def lowLevelDispatch (app : Hono E M F) (inc : Incoming) (now : Int) :
    Hono E M F × Trace M F :=
  match app.matchRequest inc.method inc.path now with
  | (some result, app) =>
    if inc.upgrade then (app, ⟨[], upgradeFinal inc result.handler.handle⟩)
    else (app, ⟨app.matchedMiddlewares inc.path, .handler result.handler.handle⟩)
  | (none, app) => (app, ⟨[], app.unmatchedFinal⟩)

def picoevIncoming (req : PicoRequest) : Incoming where
  method := req.method
  path := (parsePathAndQuery req.path).1
  upgrade := isPicoevWsUpgrade req
  version := getPicoevWsVersion req
  key := getPicoevWsKey req

/-- `picoev_callback` -/
def picoevCallback (app : Hono E M F) (req : PicoRequest) (now : Int) :
    Hono E M F × Trace M F :=
  app.lowLevelDispatch (picoevIncoming req) now

def usocketsIncoming (raw : ByteString) : Incoming where
  method := (parseHttpRequestUsockets raw).method
  path := (parseHttpRequestUsockets raw).path
  upgrade := isUsocketsWsUpgrade raw
  version := getUsocketsWsVersion raw
  key := getUsocketsWsKey raw

/-- `usockets_on_data` -/
def usocketsOnData (app : Hono E M F) (raw : ByteString) (now : Int) :
    Hono E M F × Trace M F :=
  if (parseHttpRequestUsockets raw).method.length = 0 then (app, ⟨[], .badRequest⟩)
  else app.lowLevelDispatch (usocketsIncoming raw) now

/-! ## The listen functions -/

/-- `listen_http` starts the server with the application as it is. -/
def listenHttp (app : Hono E M F) : Hono E M F := app

/-- `listen`, which runs picoev -/
def listen (S : CompareSort) (app : Hono E M F) : Hono E M F :=
  app.precomputeMiddlewarePrefixes S

def listenUsockets (S : CompareSort) (app : Hono E M F) : Hono E M F :=
  app.precomputeMiddlewarePrefixes S

/-! ## What a dispatch leaves alone -/

theorem sameSetup_serverHandle (lib : HttpLibrary) (app : Hono E M F) (r : Request)
    (now : Int) : SameSetup app (app.serverHandle lib r now).1 := by
  have h := app.sameSetup_matchRequest (lib.methodStr r.method) (lib.urlPath r.target) now
  rw [serverHandle]
  rcases hm : app.matchRequest (lib.methodStr r.method) (lib.urlPath r.target) now with ⟨found, app'⟩
  rw [hm] at h
  cases found with
  | some result => exact h
  | none => exact h

theorem sameSetup_lowLevelDispatch (app : Hono E M F) (inc : Incoming) (now : Int) :
    SameSetup app (app.lowLevelDispatch inc now).1 := by
  have h := app.sameSetup_matchRequest inc.method inc.path now
  rw [lowLevelDispatch]
  rcases hm : app.matchRequest inc.method inc.path now with ⟨found, app'⟩
  rw [hm] at h
  cases found with
  | some result =>
      dsimp only
      split
      · exact h
      · exact h
  | none => exact h

theorem sameSetup_usocketsOnData (app : Hono E M F) (raw : ByteString) (now : Int) :
    SameSetup app (app.usocketsOnData raw now).1 := by
  rw [usocketsOnData]
  split
  · exact SameSetup.refl app
  · exact sameSetup_lowLevelDispatch app _ now

end Hono

end VHono
