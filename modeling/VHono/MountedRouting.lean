import VHono.App
import VHono.PatternExpressions
import VHono.CompareSort

/-! # Routing through a mount

    What a fast router holds after registrations made in any order, method by
    method: the last static route of every key, and the dynamic routes sorted
    by complexity, in the order of their registration where that is equal.
    Mounting registers the routes of a sub-app again, method by method, under
    one prefix; so the lists of the two routers correspond, each method by
    itself, and a literal prefix of a path is read by the literal prefix of the
    expression. -/

namespace VHono

open ByteString PathExpressions

/-- Bytes that stand for themselves in every expression. -/
def PlainText (s : ByteString) : Prop := ∀ b ∈ s, b ≠ byte ':' ∧ b ≠ byte '*' ∧ b ≠ byte '\\'

/-- In an anchored expression a literal text before a slash reads itself, and nothing else changes
    (a bar of the library's expressions chooses between its two neighbours only). -/
structure RegexEngine.LiteralPrefix (E : RegexEngine) : Prop where
  compiles {pfx rest : ByteString} : PlainText pfx → rest.head? = some (byte '/') →
    ((E.regexOpt (ascii "^" ++ (pfx.flatMap escapedByte ++ rest))).isSome
      = (E.regexOpt (ascii "^" ++ rest)).isSome)
  matches_eq {pfx rest : ByteString} {re re' : E.RE} : PlainText pfx →
    rest.head? = some (byte '/') → E.regexOpt (ascii "^" ++ rest) = some re →
    E.regexOpt (ascii "^" ++ (pfx.flatMap escapedByte ++ rest)) = some re' →
    ∀ s, E.matchesString re' (pfx ++ s) = E.matchesString re s
  groups {pfx rest : ByteString} {re re' : E.RE} : PlainText pfx →
    rest.head? = some (byte '/') → E.regexOpt (ascii "^" ++ rest) = some re →
    E.regexOpt (ascii "^" ++ (pfx.flatMap escapedByte ++ rest)) = some re' →
    ∀ s name, E.matchesString re s = true →
      E.getGroupByName re' (pfx ++ s) name = E.getGroupByName re s name

variable {E : RegexEngine} {M F : Type}

/-! ## Prefixed patterns -/

theorem scanParams_plain {pfx : ByteString} (h : PlainText pfx) (path : ByteString) :
    scanParams 0 (pfx ++ path) = pfx.map .text ++ scanParams 0 path := by
  induction pfx with
  | nil => rfl
  | cons b pfx ih =>
      rw [List.cons_append, scanParams_text (fun hb => (h b (List.mem_cons_self ..)).1 hb.1),
        ih (fun c hc => h c (List.mem_cons_of_mem _ hc))]
      rfl

theorem paramNames_plain {pfx : ByteString} (h : PlainText pfx) (path : ByteString) :
    paramNames (pfx ++ path) = paramNames path := by
  have hnone : ((pfx.map PathPiece.text).map pieceMark).filterMap Mark.groupName = [] := by
    refine List.filterMap_eq_nil_iff.mpr ?_
    intro mark hmark
    obtain ⟨piece, hpiece, rfl⟩ := List.mem_map.mp hmark
    obtain ⟨b, -, rfl⟩ := List.mem_map.mp hpiece
    rw [pieceMark]
    split <;> rfl
  rw [paramNames_eq, paramNames_eq, pathMarks, pathMarks, scanParams_plain h, List.map_append,
    List.filterMap_append, hnone, List.nil_append]

/-- The expression behind the first anchor. -/
def sourceBody (path : ByteString) : ByteString :=
  (scanParams 0 path).flatMap pieceSource ++ ascii "$"

theorem paramRegexSource_eq (path : ByteString) :
    paramRegexSource path = ascii "^" ++ sourceBody path := by
  rw [paramRegexSource, replaceParams_escaped, sourceBody, List.append_assoc]

theorem paramRegexSource_plain {pfx : ByteString} (h : PlainText pfx) (path : ByteString) :
    paramRegexSource (pfx ++ path) = ascii "^" ++ (pfx.flatMap escapedByte ++ sourceBody path) := by
  have htext : (pfx.map PathPiece.text).flatMap pieceSource = pfx.flatMap escapedByte := by
    rw [List.flatMap_map]
    rfl
  rw [paramRegexSource_eq, sourceBody, scanParams_plain h, List.flatMap_append, htext,
    List.append_assoc]
  rfl

theorem sourceBody_head {path : ByteString} (h : path.head? = some (byte '/')) :
    (sourceBody path).head? = some (byte '/') := by
  obtain ⟨rest, rfl⟩ := List.head?_eq_some_iff.mp h
  rw [sourceBody, scanParams_text (fun hb => absurd hb.1 (by decide))]
  rfl

/-- What a prefix adds to the complexity of a path. -/
def prefixComplexity (pfx : ByteString) : Nat :=
  pfx.count (byte ':') * 10 + pfx.count (byte '*') * 20 + pfx.count (byte '/')
    + (specialChars.map (fun ch => pfx.count ch * 5)).sum

theorem complexity_append (pfx path : ByteString) :
    calculateFastRouteComplexity (pfx ++ path)
      = calculateFastRouteComplexity path + prefixComplexity pfx := by
  have hsum : ∀ chars : List UInt8, (chars.map (fun ch => (pfx ++ path).count ch * 5)).sum
      = (chars.map (fun ch => path.count ch * 5)).sum
        + (chars.map (fun ch => pfx.count ch * 5)).sum := by
    intro chars
    induction chars with
    | nil => rfl
    | cons c chars ih =>
        rw [List.map_cons, List.sum_cons, ih, List.map_cons, List.sum_cons, List.map_cons,
          List.sum_cons, List.count_append]
        omega
  rw [calculateFastRouteComplexity, calculateFastRouteComplexity, routeComplexity, routeComplexity,
    prefixComplexity, hsum, List.count_append, List.count_append, List.count_append]
  omega

theorem isStaticFastPath_plain {pfx : ByteString} (h : PlainText pfx) (path : ByteString) :
    FastRouter.isStaticFastPath (pfx ++ path) = FastRouter.isStaticFastPath path := by
  have hcolon : byte ':' ∈ pfx ++ path ↔ byte ':' ∈ path := by
    rw [List.mem_append]
    exact or_iff_right (fun hmem => (h _ hmem).1 rfl)
  have hstar : byte '*' ∈ pfx ++ path ↔ byte '*' ∈ path := by
    rw [List.mem_append]
    exact or_iff_right (fun hmem => (h _ hmem).2.1 rfl)
  simp only [FastRouter.isStaticFastPath, hcolon, hstar]

/-! ## Registrations -/

abbrev Registration (F : Type) := RouteMethod × IHandler F

/-- A registration that does not compile leaves the fast router as it is. -/
def keepRoute (S : CompareSort) (r : FastRouter E F) (reg : Registration F) : FastRouter E F :=
  match r.addRoute S reg.1.str reg.2 [] with
  | .ok r' => r'
  | .error _ => r

/-- The application holds the registrations, in their lists and in the fast router. -/
structure RoutesOf (S : CompareSort) (app : Hono E M F) (now : Int) (regs : List (Registration F)) :
    Prop where
  enabled : app.useFastRouter = true
  lists : ∀ m, app.handlers m = (regs.filter (fun reg => reg.1 = m)).map Prod.snd
  fast : app.fastRouter = regs.foldl (keepRoute S) (FastRouter.new now)

variable {S : CompareSort} {now : Int}

theorem routesOf_new (S : CompareSort) (now : Int) :
    RoutesOf S (Hono.new now : Hono E M F) now [] := ⟨rfl, fun _ => rfl, rfl⟩

theorem addToRouters_keep {app : Hono E M F} (h : app.useFastRouter = true) (m : RouteMethod)
    (handler : IHandler F) (base : ByteString) :
    (app.addToRouters S m.str handler base).fastRouter = keepRoute S app.fastRouter (m, handler) ∧
      (app.addToRouters S m.str handler base).useFastRouter = true ∧
      (app.addToRouters S m.str handler base).handlers = app.handlers := by
  have hbase : app.fastRouter.addRoute S m.str handler base
      = app.fastRouter.addRoute S m.str handler [] := rfl
  rw [Hono.addToRouters, if_pos h, hbase, keepRoute]
  cases app.fastRouter.addRoute S m.str handler [] with
  | ok r => exact ⟨rfl, h, rfl⟩
  | error err => exact ⟨rfl, h, rfl⟩

theorem lists_concat {regs : List (Registration F)} {lists : RouteMethod → List (IHandler F)}
    (h : ∀ m, lists m = (regs.filter (fun reg => reg.1 = m)).map Prod.snd) (m : RouteMethod)
    (handler : IHandler F) (m' : RouteMethod) :
    Function.update lists m (lists m ++ [handler]) m'
      = ((regs ++ [(m, handler)]).filter (fun reg => reg.1 = m')).map Prod.snd := by
  rw [List.filter_append, List.map_append, ← h m']
  by_cases hm : m' = m
  · rw [hm, Function.update_self, List.filter_cons, if_pos (decide_eq_true rfl)]
    rfl
  · rw [Function.update_of_ne hm, List.filter_cons,
      if_neg (by rw [decide_eq_true_eq]; exact fun heq => hm heq.symm)]
    exact (List.append_nil _).symm

theorem RoutesOf.register {app : Hono E M F} {regs : List (Registration F)}
    (h : RoutesOf S app now regs) (m : RouteMethod) (base path : ByteString) (handler : F) :
    RoutesOf S (app.register S m base path handler) now (regs ++ [(m, ⟨path, handler⟩)]) := by
  obtain ⟨hfast, henabled, hlists⟩ := addToRouters_keep (S := S) h.enabled m ⟨path, handler⟩ base
  refine ⟨henabled, ?_, ?_⟩
  · intro m'
    rw [Hono.register, Hono.pushHandler]
    dsimp only
    rw [hlists]
    exact lists_concat h.lists m ⟨path, handler⟩ m'
  · rw [List.foldl_concat, ← h.fast, ← hfast]
    rfl

theorem RoutesOf.mergeRoute {app : Hono E M F} {regs : List (Registration F)}
    (h : RoutesOf S app now regs) (m : RouteMethod) (pfx : ByteString) (handler : IHandler F) :
    RoutesOf S (app.mergeRoute S m pfx handler) now
      (regs ++ [(m, Hono.prefixedHandler pfx handler)]) := by
  have hpushed : (app.pushHandler m (Hono.prefixedHandler pfx handler)).useFastRouter = true :=
    h.enabled
  obtain ⟨hfast, henabled, hlists⟩ := addToRouters_keep (S := S) hpushed m
    (Hono.prefixedHandler pfx handler) []
  refine ⟨henabled, ?_, ?_⟩
  · intro m'
    rw [Hono.mergeRoute, hlists]
    exact lists_concat h.lists m (Hono.prefixedHandler pfx handler) m'
  · rw [List.foldl_concat, ← h.fast]
    exact hfast

theorem RoutesOf.mergeRoutesForMethod (m : RouteMethod) (pfx : ByteString) :
    ∀ (handlers : List (IHandler F)) {app : Hono E M F} {regs : List (Registration F)},
      RoutesOf S app now regs → RoutesOf S (app.mergeRoutesForMethod S m pfx handlers) now
        (regs ++ handlers.map (fun h => (m, Hono.prefixedHandler pfx h))) := by
  intro handlers
  induction handlers with
  | nil => intro app regs h; rwa [List.map_nil, List.append_nil]
  | cons handler handlers ih =>
      intro app regs h
      have hrest := ih (h.mergeRoute m pfx handler)
      rwa [List.append_assoc] at hrest

theorem RoutesOf.mergeRoutes {app : Hono E M F} {regs : List (Registration F)}
    (h : RoutesOf S app now regs) (pfx : ByteString)
    (subHandlers : RouteMethod → List (IHandler F)) :
    RoutesOf S (app.mergeRoutes S pfx subHandlers) now
      (regs ++ RouteMethod.mergeOrder.flatMap (fun m =>
        (subHandlers m).map (fun h => (m, Hono.prefixedHandler pfx h)))) := by
  rw [Hono.mergeRoutes]
  induction RouteMethod.mergeOrder generalizing app regs with
  | nil => rwa [List.flatMap_nil, List.append_nil]
  | cons m ms ih =>
      have hrest := ih (RoutesOf.mergeRoutesForMethod m pfx (subHandlers m) h)
      rw [List.flatMap_cons, ← List.append_assoc]
      exact hrest

theorem RoutesOf.route {app : Hono E M F} {regs : List (Registration F)}
    (h : RoutesOf S app now regs) (pfx : ByteString) (subapp : Hono E M F) :
    RoutesOf S (app.route S pfx subapp) now
      (regs ++ RouteMethod.mergeOrder.flatMap (fun m =>
        (subapp.handlers m).map (fun h => (m, Hono.prefixedHandler pfx h)))) := by
  rw [Hono.route]
  refine RoutesOf.mergeRoutes ?_ pfx subapp.handlers
  rw [Hono.mergeMiddlewares]
  split
  · exact ⟨h.enabled, h.lists, h.fast⟩
  · exact h

/-- The applications that the registration calls build, with the fast router on throughout. -/
inductive RoutingApp (S : CompareSort) : Hono E M F → Prop
  | new (now : Int) : RoutingApp S (Hono.new now)
  | on {app : Hono E M F} (m : RouteMethod) (path : ByteString) (handler : F) :
      RoutingApp S app → RoutingApp S (app.on S m path handler)
  | useMiddleware {app : Hono E M F} (mw : M) :
      RoutingApp S app → RoutingApp S (app.useMiddleware mw)
  | notFound {app : Hono E M F} (handler : F) : RoutingApp S app → RoutingApp S (app.notFound handler)
  | setBasePath {app : Hono E M F} (basePath : ByteString) :
      RoutingApp S app → RoutingApp S (app.setBasePath basePath)
  | route {app subapp : Hono E M F} (pfx : ByteString) :
      RoutingApp S app → RoutingApp S (app.route S pfx subapp)

theorem RoutingApp.routes {app : Hono E M F} (h : RoutingApp S app) :
    ∃ now regs, RoutesOf S app now regs := by
  induction h with
  | new now => exact ⟨now, [], routesOf_new S now⟩
  | on m path handler _ ih =>
      obtain ⟨now, regs, hregs⟩ := ih
      rename_i app _
      obtain ⟨base, hbase⟩ := app.on_eq_register S m path handler
      rw [hbase]
      exact ⟨now, _, hregs.register m base path handler⟩
  | useMiddleware mw _ ih =>
      obtain ⟨now, regs, hregs⟩ := ih
      exact ⟨now, regs, hregs.enabled, hregs.lists, hregs.fast⟩
  | notFound handler _ ih =>
      obtain ⟨now, regs, hregs⟩ := ih
      exact ⟨now, regs, hregs.enabled, hregs.lists, hregs.fast⟩
  | setBasePath basePath _ ih =>
      obtain ⟨now, regs, hregs⟩ := ih
      exact ⟨now, regs, hregs.enabled, hregs.lists, hregs.fast⟩
  | route pfx _ ih =>
      obtain ⟨now, regs, hregs⟩ := ih
      exact ⟨now, _, hregs.route pfx _⟩

end VHono
