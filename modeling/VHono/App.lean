import VHono.HybridRouter

/-! # The application

    `Hono`: registration of handlers and middlewares, mounting of sub-apps by
    `route`, and the lookup and middleware selection a request goes through.

    A handler runs something of type `F`, a middleware is a value of type `M`;
    neither is inspected here.  Mounting copies: the sub-app's middlewares go
    under the prefix as they are at that moment, and its handlers are
    registered again under prefixed paths. -/

namespace VHono

open ByteString

/-- The methods the application keeps handler lists for. -/
inductive RouteMethod where
  | get | post | put | delete | patch | head | options
  deriving DecidableEq, Repr

namespace RouteMethod

def str : RouteMethod → ByteString
  | get => ascii "GET"
  | post => ascii "POST"
  | put => ascii "PUT"
  | delete => ascii "DELETE"
  | patch => ascii "PATCH"
  | head => ascii "HEAD"
  | options => ascii "OPTIONS"

theorem str_inj {m m' : RouteMethod} (h : m.str = m'.str) : m = m' := by
  cases m <;> cases m' <;> first | rfl | exact absurd h (by decide)

/-- The order in which `route` merges the lists of a sub-app. -/
def mergeOrder : List RouteMethod := [get, post, put, delete, patch, head, options]

end RouteMethod

structure Hono (E : RegexEngine) (M F : Type) where
  basePath                 : ByteString
  notFoundHandler          : Option F
  handlers                 : RouteMethod → List (IHandler F)
  contextHybridRouter      : ContextHybridRouter E F
  fastRouter               : FastRouter E F
  useFastRouter            : Bool
  contextMiddlewares       : List M
  routeMiddlewares         : InsertionMap ByteString (List M)
  sortedMiddlewarePrefixes : List ByteString
  hasMiddlewares           : Bool

namespace Hono

variable {E : RegexEngine} {M F : Type} (S : CompareSort)

def new (now : Int) : Hono E M F where
  basePath := []
  notFoundHandler := none
  handlers := fun _ => []
  contextHybridRouter := .new now
  fastRouter := .new now
  useFastRouter := true
  contextMiddlewares := []
  routeMiddlewares := .empty
  sortedMiddlewarePrefixes := []
  hasMiddlewares := false

/-! ## Registration -/

/-- The fast router, and the hybrid router where it is off or fails. -/
def addToRouters (app : Hono E M F) (method : ByteString) (h : IHandler F)
    (base : ByteString) : Hono E M F :=
  let fallBack := { app with
    contextHybridRouter := app.contextHybridRouter.addRoute S method h base }
  if app.useFastRouter then
    match app.fastRouter.addRoute S method h base with
    | .ok fast => { app with fastRouter := fast }
    | .error _ => fallBack
  else fallBack

def pushHandler (app : Hono E M F) (m : RouteMethod) (h : IHandler F) : Hono E M F :=
  { app with handlers := Function.update app.handlers m (app.handlers m ++ [h]) }

/-- What every registration method of the application does. -/
def register (app : Hono E M F) (m : RouteMethod) (base path : ByteString) (handler : F) :
    Hono E M F :=
  (app.addToRouters S m.str ⟨path, handler⟩ base).pushHandler m ⟨path, handler⟩

def get (app : Hono E M F) (path : ByteString) (handler : F) : Hono E M F :=
  app.register S .get [] path handler

def post (app : Hono E M F) (path : ByteString) (handler : F) : Hono E M F :=
  app.register S .post [] path handler

def put (app : Hono E M F) (path : ByteString) (handler : F) : Hono E M F :=
  app.register S .put app.basePath path handler

def delete (app : Hono E M F) (path : ByteString) (handler : F) : Hono E M F :=
  app.register S .delete app.basePath path handler

def patch (app : Hono E M F) (path : ByteString) (handler : F) : Hono E M F :=
  app.register S .patch app.basePath path handler

def head (app : Hono E M F) (path : ByteString) (handler : F) : Hono E M F :=
  app.register S .head app.basePath path handler

def options (app : Hono E M F) (path : ByteString) (handler : F) : Hono E M F :=
  app.register S .options app.basePath path handler

/-- The registration method of a request method. -/
def on (app : Hono E M F) : RouteMethod → ByteString → F → Hono E M F
  | .get => app.get S
  | .post => app.post S
  | .put => app.put S
  | .delete => app.delete S
  | .patch => app.patch S
  | .head => app.head S
  | .options => app.options S

/-- Each of them is `register` with some base path. -/
theorem on_eq_register (app : Hono E M F) (m : RouteMethod) (path : ByteString)
    (handler : F) : ∃ base, app.on S m path handler = app.register S m base path handler := by
  cases m with
  | get => exact ⟨[], rfl⟩
  | post => exact ⟨[], rfl⟩
  | put => exact ⟨app.basePath, rfl⟩
  | delete => exact ⟨app.basePath, rfl⟩
  | patch => exact ⟨app.basePath, rfl⟩
  | head => exact ⟨app.basePath, rfl⟩
  | options => exact ⟨app.basePath, rfl⟩

/-- A WebSocket route is a GET route whose handler is the upgrade handler. -/
def ws (app : Hono E M F) (path : ByteString) (upgradeHandler : F) : Hono E M F :=
  app.get S path upgradeHandler

def all (app : Hono E M F) (path : ByteString) (handler : F) : Hono E M F :=
  (((((((app.get S path handler).post S path handler).put S path handler).delete S path
    handler).patch S path handler).head S path handler).options S path handler)

/-- `app.use(mw)` -/
def useMiddleware (app : Hono E M F) (mw : M) : Hono E M F :=
  { app with contextMiddlewares := app.contextMiddlewares ++ [mw], hasMiddlewares := true }

def notFound (app : Hono E M F) (handler : F) : Hono E M F :=
  { app with notFoundHandler := some handler }

def setFastRouterEnabled (app : Hono E M F) (enabled : Bool) : Hono E M F :=
  { app with useFastRouter := enabled }

def setBasePath (app : Hono E M F) (basePath : ByteString) : Hono E M F :=
  { app with basePath := basePath }

/-- Run before a server starts. -/
def precomputeMiddlewarePrefixes (app : Hono E M F) : Hono E M F :=
  { app with
    sortedMiddlewarePrefixes := S.sortBy List.length app.routeMiddlewares.keys
    hasMiddlewares :=
      decide (0 < app.contextMiddlewares.length) || decide (0 < app.routeMiddlewares.len) }

/-! ## Mounting -/

/-- The path a sub-app's handler gets under a prefix. -/
def prefixedPath (pfx path : ByteString) : ByteString :=
  if path = [byte '/'] ∨ path = [] then pfx
  else if startsWith path [byte '/'] then pfx ++ path
  else pfx ++ byte '/' :: path

/-- A wrapper that runs the inner handler. -/
def prefixedHandler (pfx : ByteString) (h : IHandler F) : IHandler F where
  path := prefixedPath pfx h.path
  handle := h.handle

def mergeRoute (m : RouteMethod) (pfx : ByteString) (app : Hono E M F) (h : IHandler F) :
    Hono E M F :=
  (app.pushHandler m (prefixedHandler pfx h)).addToRouters S m.str (prefixedHandler pfx h) []

def mergeRoutesForMethod (app : Hono E M F) (m : RouteMethod) (pfx : ByteString)
    (handlers : List (IHandler F)) : Hono E M F :=
  handlers.foldl (mergeRoute S m pfx) app

/-- The sub-app's middlewares of this moment go under the prefix. -/
def mergeMiddlewares (app : Hono E M F) (pfx : ByteString) (mws : List M) : Hono E M F :=
  if 0 < mws.length then
    { app with
      routeMiddlewares := match app.routeMiddlewares.get? pfx with
        | some old => app.routeMiddlewares.insert pfx (old ++ mws)
        | none => app.routeMiddlewares.insert pfx mws
      hasMiddlewares := true }
  else app

def mergeRoutes (app : Hono E M F) (pfx : ByteString) (subHandlers : RouteMethod →
    List (IHandler F)) : Hono E M F :=
  RouteMethod.mergeOrder.foldl
    (fun app m => app.mergeRoutesForMethod S m pfx (subHandlers m)) app

def route (app : Hono E M F) (pfx : ByteString) (subapp : Hono E M F) : Hono E M F :=
  (app.mergeMiddlewares pfx subapp.contextMiddlewares).mergeRoutes S pfx subapp.handlers

/-! ## Requests -/

/-- Route lookup as every dispatcher makes it: the fast router where it is on,
    then the hybrid router. -/
def matchRequest (app : Hono E M F) (method path : ByteString) (now : Int) :
    Option (ContextRouteMatch F) × Hono E M F :=
  let hybrid := fun (app : Hono E M F) =>
    let (found, router) := app.contextHybridRouter.matchRoute method path now
    (found, { app with contextHybridRouter := router })
  if app.useFastRouter then
    match app.fastRouter.matchRoute method path now with
    | (some result, fast) => (some result, { app with fastRouter := fast })
    | (none, fast) => hybrid { app with fastRouter := fast }
  else hybrid app

/-- The test of the selection loop. -/
def selectsPrefix (path pfx : ByteString) : Bool :=
  startsWith path pfx || decide (pfx = [byte '/'])

/-- The loop over the sorted prefixes. -/
def mountedMiddlewares (app : Hono E M F) (path : ByteString) : List M :=
  app.sortedMiddlewarePrefixes.flatMap (fun pfx =>
    if selectsPrefix path pfx then (app.routeMiddlewares.get? pfx).getD [] else [])

/-- Middleware selection as every dispatcher makes it. -/
def selectMiddlewares (app : Hono E M F) (path : ByteString) : List M :=
  if app.routeMiddlewares.len = 0 then app.contextMiddlewares
  else app.contextMiddlewares ++ app.mountedMiddlewares path

/-- `ServerHanler.get_middlewares_for_path` -/
def getMiddlewaresForPath (app : Hono E M F) (path : ByteString) : List M :=
  app.selectMiddlewares path

/-- `get_middlewares_for_path_picoev_optimized` -/
def getMiddlewaresForPathPicoev (app : Hono E M F) (path : ByteString) : List M :=
  app.selectMiddlewares path

/-- `get_middlewares_for_path_usockets_optimized` -/
def getMiddlewaresForPathUsockets (app : Hono E M F) (path : ByteString) : List M :=
  app.selectMiddlewares path

/-- The middlewares around a matched handler: none on the fast path. -/
def matchedMiddlewares (app : Hono E M F) (path : ByteString) : List M :=
  if ¬ app.hasMiddlewares then [] else app.selectMiddlewares path

/-! ## What registration leaves alone -/

/-- Two applications that may differ in their routers and handler lists only. -/
structure SameSetup (app app' : Hono E M F) : Prop where
  own      : app'.contextMiddlewares = app.contextMiddlewares
  mounted  : app'.routeMiddlewares = app.routeMiddlewares
  prefixes : app'.sortedMiddlewarePrefixes = app.sortedMiddlewarePrefixes
  flag     : app'.hasMiddlewares = app.hasMiddlewares
  fallback : app'.notFoundHandler = app.notFoundHandler

theorem SameSetup.refl (app : Hono E M F) : SameSetup app app :=
  ⟨rfl, rfl, rfl, rfl, rfl⟩

theorem SameSetup.trans {a b c : Hono E M F} (h : SameSetup a b)
    (h' : SameSetup b c) : SameSetup a c :=
  ⟨h'.own.trans h.own, h'.mounted.trans h.mounted, h'.prefixes.trans h.prefixes,
    h'.flag.trans h.flag, h'.fallback.trans h.fallback⟩

theorem sameSetup_addToRouters (app : Hono E M F) (method : ByteString)
    (h : IHandler F) (base : ByteString) :
    SameSetup app (app.addToRouters S method h base) := by
  rw [addToRouters]
  split
  · split
    · exact ⟨rfl, rfl, rfl, rfl, rfl⟩
    · exact ⟨rfl, rfl, rfl, rfl, rfl⟩
  · exact ⟨rfl, rfl, rfl, rfl, rfl⟩

theorem sameSetup_register (app : Hono E M F) (m : RouteMethod)
    (base path : ByteString) (handler : F) :
    SameSetup app (app.register S m base path handler) :=
  (sameSetup_addToRouters S app m.str ⟨path, handler⟩ base).trans ⟨rfl, rfl, rfl, rfl, rfl⟩

theorem sameSetup_mergeRoute (m : RouteMethod) (pfx : ByteString) (app : Hono E M F)
    (h : IHandler F) : SameSetup app (mergeRoute S m pfx app h) := by
  have hpush : SameSetup app (app.pushHandler m (prefixedHandler pfx h)) :=
    ⟨rfl, rfl, rfl, rfl, rfl⟩
  exact hpush.trans (sameSetup_addToRouters S _ m.str (prefixedHandler pfx h) [])

theorem sameSetup_mergeRoutesForMethod (m : RouteMethod) (pfx : ByteString) :
    ∀ (handlers : List (IHandler F)) (app : Hono E M F),
      SameSetup app (app.mergeRoutesForMethod S m pfx handlers) := by
  intro handlers
  induction handlers with
  | nil => intro app; exact SameSetup.refl app
  | cons h hs ih =>
      intro app
      exact (sameSetup_mergeRoute S m pfx app h).trans (ih _)

theorem sameSetup_mergeRoutes (pfx : ByteString)
    (subHandlers : RouteMethod → List (IHandler F)) (app : Hono E M F) :
    SameSetup app (app.mergeRoutes S pfx subHandlers) := by
  rw [mergeRoutes]
  induction RouteMethod.mergeOrder generalizing app with
  | nil => exact SameSetup.refl app
  | cons m ms ih =>
      exact (sameSetup_mergeRoutesForMethod S m pfx (subHandlers m) app).trans (ih _)

theorem sameSetup_matchRequest (app : Hono E M F) (method path : ByteString)
    (now : Int) : SameSetup app (app.matchRequest method path now).2 := by
  rw [matchRequest]
  dsimp only
  split
  · split
    · exact ⟨rfl, rfl, rfl, rfl, rfl⟩
    · exact ⟨rfl, rfl, rfl, rfl, rfl⟩
  · exact ⟨rfl, rfl, rfl, rfl, rfl⟩

theorem SameSetup.selectMiddlewares {app app' : Hono E M F}
    (h : SameSetup app app') (path : ByteString) :
    app'.selectMiddlewares path = app.selectMiddlewares path := by
  simp only [Hono.selectMiddlewares, mountedMiddlewares, h.own, h.mounted, h.prefixes]

theorem SameSetup.matchedMiddlewares {app app' : Hono E M F}
    (h : SameSetup app app') (path : ByteString) :
    app'.matchedMiddlewares path = app.matchedMiddlewares path := by
  rw [Hono.matchedMiddlewares, Hono.matchedMiddlewares, h.flag, h.selectMiddlewares]

/-! ## Provenance of handlers -/

/-- Every handler the application can answer with satisfies `P`. -/
structure AllHandlers (P : F → Prop) (app : Hono E M F) : Prop where
  lists  : ∀ m, ∀ h ∈ app.handlers m, P h.handle
  fast   : app.fastRouter.AllHandlers (fun h => P h.handle)
  hybrid : app.contextHybridRouter.AllHandlers (fun h => P h.handle)

variable {P Q : F → Prop}

theorem allHandlers_new (P : F → Prop) (now : Int) : AllHandlers P (new now : Hono E M F) where
  lists := fun _ _ hmem => (by cases hmem)
  fast := FastRouter.allHandlers_new _ now
  hybrid := ContextHybridRouter.allHandlers_new _ now

theorem AllHandlers.mono {app : Hono E M F} (h : AllHandlers P app)
    (hPQ : ∀ f, P f → Q f) : AllHandlers Q app where
  lists := fun m hd hmem => hPQ _ (h.lists m hd hmem)
  fast := h.fast.mono (fun hd => hPQ hd.handle)
  hybrid := h.hybrid.mono (fun hd => hPQ hd.handle)

theorem AllHandlers.addToRouters {app : Hono E M F} (h : AllHandlers P app)
    (method : ByteString) {hd : IHandler F} (base : ByteString) (hP : P hd.handle) :
    AllHandlers P (app.addToRouters S method hd base) := by
  rw [Hono.addToRouters]
  split
  · split
    · rename_i hok
      exact ⟨h.lists, h.fast.addRoute S hP hok, h.hybrid⟩
    · exact ⟨h.lists, h.fast, h.hybrid.addRoute S method base hP⟩
  · exact ⟨h.lists, h.fast, h.hybrid.addRoute S method base hP⟩

theorem AllHandlers.pushHandler {app : Hono E M F} (h : AllHandlers P app) (m : RouteMethod)
    {hd : IHandler F} (hP : P hd.handle) : AllHandlers P (app.pushHandler m hd) := by
  refine ⟨?_, h.fast, h.hybrid⟩
  intro m' h' hmem
  by_cases hm : m' = m
  · subst hm
    have hmem' : h' ∈ app.handlers m' ++ [hd] := by
      simpa [Hono.pushHandler] using hmem
    rcases List.mem_append.mp hmem' with hold | hnew
    · exact h.lists m' h' hold
    · rw [List.mem_singleton.mp hnew]
      exact hP
  · have hmem' : h' ∈ app.handlers m' := by
      simpa [Hono.pushHandler, Function.update_of_ne hm] using hmem
    exact h.lists m' h' hmem'

theorem AllHandlers.register {app : Hono E M F} (h : AllHandlers P app) (m : RouteMethod)
    (base path : ByteString) {handler : F} (hP : P handler) :
    AllHandlers P (app.register S m base path handler) :=
  (h.addToRouters S m.str base hP).pushHandler m hP

theorem AllHandlers.mergeRoutesForMethod (m : RouteMethod) (pfx : ByteString) :
    ∀ (handlers : List (IHandler F)) {app : Hono E M F}, AllHandlers P app →
      (∀ h ∈ handlers, P h.handle) →
      AllHandlers P (app.mergeRoutesForMethod S m pfx handlers) := by
  intro handlers
  induction handlers with
  | nil => intro app h _; exact h
  | cons hd hs ih =>
      intro app h hP
      have hhd : P (prefixedHandler pfx hd).handle := hP hd (List.mem_cons_self ..)
      exact ih ((h.pushHandler m hhd).addToRouters S m.str [] hhd)
        (fun h' hmem => hP h' (List.mem_cons_of_mem _ hmem))

theorem AllHandlers.mergeRoutes {app : Hono E M F} (h : AllHandlers P app) (pfx : ByteString)
    {subHandlers : RouteMethod → List (IHandler F)}
    (hP : ∀ m, ∀ hd ∈ subHandlers m, P hd.handle) :
    AllHandlers P (app.mergeRoutes S pfx subHandlers) := by
  rw [Hono.mergeRoutes]
  induction RouteMethod.mergeOrder generalizing app with
  | nil => exact h
  | cons m ms ih => exact ih (AllHandlers.mergeRoutesForMethod S m pfx _ h (hP m))

theorem AllHandlers.route {app subapp : Hono E M F} (h : AllHandlers P app)
    (hsub : AllHandlers P subapp) (pfx : ByteString) :
    AllHandlers P (app.route S pfx subapp) := by
  rw [Hono.route]
  refine AllHandlers.mergeRoutes S ?_ pfx hsub.lists
  rw [mergeMiddlewares]
  split
  · exact ⟨h.lists, h.fast, h.hybrid⟩
  · exact h

theorem AllHandlers.matchRequest {app : Hono E M F} (h : AllHandlers P app)
    (method path : ByteString) (now : Int) :
    AllHandlers P (app.matchRequest method path now).2 ∧
      ∀ result, (app.matchRequest method path now).1 = some result →
        P result.handler.handle := by
  obtain ⟨hfast, hfastP⟩ := h.fast.matchRoute method path now
  obtain ⟨hhyb, hhybP⟩ := h.hybrid.matchRoute method path now
  rw [Hono.matchRequest]
  dsimp only
  split
  · rcases hm : app.fastRouter.matchRoute method path now with ⟨found, fast⟩
    rw [hm] at hfast hfastP
    cases found with
    | some result => exact ⟨⟨h.lists, hfast, h.hybrid⟩, hfastP⟩
    | none => exact ⟨⟨h.lists, hfast, hhyb⟩, hhybP⟩
  · exact ⟨⟨h.lists, h.fast, hhyb⟩, hhybP⟩

end Hono

end VHono
