import VHono.MountTransparency

/-! # Lookups behind a mount

    The first serving route behind the prefix is the first serving one of the
    sub-app, and its answer reads the same parameters; with the static answers
    this makes every lookup of the sub-app one of the mounting app.  The root
    route of the sub-app answers at the prefix itself. -/

namespace VHono

open ByteString FastRouter

variable {E : RegexEngine} {M F : Type} {S : CompareSort}

section Mount

variable {pfx : ByteString} {regs mounted : List (Registration F)}

/-! ## One compiled route -/

theorem dynamic_path_ne_root {path : ByteString} (h : isStaticFastPath path = false) :
    path ≠ [byte '/'] := by
  intro heq
  rw [heq] at h
  exact absurd h (by decide)

theorem mountedRoute_regex (hE : E.LiteralPrefix) (hpfx : PlainText pfx) {reg : Registration F}
    (hslash : reg.2.path.head? = some (byte '/')) {route : PrecompiledRoute E F}
    (h : compiled E reg = some route) :
    E.regexOpt (ascii "^" ++ sourceBody reg.2.path) = some route.regex ∧
      E.regexOpt (ascii "^" ++ (pfx.flatMap escapedByte ++ sourceBody reg.2.path))
        = some (mountedRoute pfx route).regex := by
  obtain ⟨-, -, hpattern, hregex, -⟩ := compiled_eq_some h
  rw [paramRegexSource_eq] at hregex
  have hcompiles := hE.compiles hpfx (sourceBody_head hslash)
  rw [hregex] at hcompiles
  obtain ⟨re', hre'⟩ := Option.isSome_iff_exists.mp hcompiles
  refine ⟨hregex, ?_⟩
  rw [mountedRoute, hpattern, paramRegexSource_plain hpfx, hre']
  rfl

theorem matchesString_mounted (hE : E.LiteralPrefix) (hpfx : PlainText pfx)
    {reg : Registration F} (hslash : reg.2.path.head? = some (byte '/'))
    {route : PrecompiledRoute E F} (h : compiled E reg = some route) (q : ByteString) :
    E.matchesString (mountedRoute pfx route).regex (pfx ++ q)
      = E.matchesString route.regex q := by
  obtain ⟨hregex, hmounted⟩ := mountedRoute_regex hE hpfx hslash h
  exact hE.matches_eq hpfx (sourceBody_head hslash) hregex hmounted q

/-- A path that the route serves binds the same parameters behind the prefix. -/
theorem result_mounted (hE : E.LiteralPrefix) (hpfx : PlainText pfx) {reg : Registration F}
    (hslash : reg.2.path.head? = some (byte '/')) {route : PrecompiledRoute E F}
    (h : compiled E reg = some route) {q : ByteString} (hq : E.matchesString route.regex q = true) :
    (mountedRoute pfx route).result (pfx ++ q) = mountedMatch pfx (route.result q) := by
  obtain ⟨hregex, hmounted⟩ := mountedRoute_regex hE hpfx hslash h
  obtain ⟨hdynamic, -, hpattern, -⟩ := compiled_eq_some h
  have hgroups : ∀ name, E.getGroupByName (mountedRoute pfx route).regex (pfx ++ q) name
      = E.getGroupByName route.regex q name :=
    fun name => hE.groups hpfx (sourceBody_head hslash) hregex hmounted q name hq
  have hparams : extractParams E (mountedRoute pfx route).regex route.paramNames (pfx ++ q)
      = extractParams E route.regex route.paramNames q := by
    rw [extractParams, extractParams]
    simp only [hgroups]
  have hpath : Hono.prefixedPath pfx route.pattern = pfx ++ route.pattern := by
    rw [hpattern]
    exact prefixedPath_slash hslash (dynamic_path_ne_root hdynamic)
  rw [PrecompiledRoute.result, PrecompiledRoute.result, mountedMatch, hpath]
  show ContextRouteMatch.mk _ (extractParams E _ route.paramNames _) _ _ = _
  rw [hparams]
  rfl

/-! ## The first serving route -/

theorem firstServing_eq (routes : List (PrecompiledRoute E F)) (method path : ByteString) :
    firstServing routes method path
      = (routes.filter (fun route => route.method = method)).find?
          (fun route => E.matchesString route.regex path) := by
  rw [firstServing, List.find?_filter]
  refine find?_congr_of_mem (fun route _ => ?_)
  rw [PrecompiledRoute.serves, Bool.eq_iff_iff, Bool.and_eq_true]
  exact decide_eq_true_iff.symm

/-- Every compiled route comes from a registration. -/
theorem FastRoutes.of_mem {r : FastRouter E F} (h : FastRoutes r regs)
    {route : PrecompiledRoute E F} (hroute : route ∈ r.precompiledRoutes) :
    ∃ reg ∈ regs, compiled E reg = some route := by
  have hmem : route ∈ r.precompiledRoutes.filter
      (fun other => other.complexity = route.complexity) :=
    List.mem_filter.mpr ⟨hroute, decide_eq_true rfl⟩
  rw [h.dynamic] at hmem
  exact List.mem_filterMap.mp (List.mem_filter.mp hmem).1

theorem firstServing_mounted (hE : E.LiteralPrefix) (hpfx : PlainText pfx)
    (hslash : ∀ reg ∈ regs, reg.2.path.head? = some (byte '/')) {method : ByteString}
    (hmounted : mounted.filter (fun reg => reg.1.str = method)
      = (regs.filter (fun reg => reg.1.str = method)).map (mountedRegistration pfx))
    {r r' : FastRouter E F} (h : FastRoutes r regs) (h' : FastRoutes r' mounted)
    (q : ByteString) :
    (firstServing r'.precompiledRoutes method (pfx ++ q)).map (·.result (pfx ++ q))
      = ((firstServing r.precompiledRoutes method q).map (·.result q)).map
          (mountedMatch pfx) := by
  have hserves : ∀ route ∈ r.precompiledRoutes.filter (fun route => route.method = method),
      ((fun route => E.matchesString route.regex (pfx ++ q)) ∘ mountedRoute pfx) route
        = E.matchesString route.regex q := by
    intro route hroute
    obtain ⟨reg, hreg, hcompiled⟩ := h.of_mem (List.mem_filter.mp hroute).1
    exact matchesString_mounted hE hpfx (hslash reg hreg) hcompiled q
  rw [firstServing_eq, firstServing_eq, dynamic_mounted hE hpfx hslash hmounted h h',
    List.find?_map, find?_congr_of_mem hserves]
  cases hfirst : (r.precompiledRoutes.filter (fun route => route.method = method)).find?
      (fun route => E.matchesString route.regex q) with
  | none => rfl
  | some route =>
      have hmem := (List.mem_filter.mp (List.mem_of_find?_eq_some hfirst)).1
      have hmatches : E.matchesString route.regex q = true :=
        List.find?_some (p := fun other : PrecompiledRoute E F => E.matchesString other.regex q)
          hfirst
      obtain ⟨reg, hreg, hcompiled⟩ := h.of_mem hmem
      exact congrArg some (result_mounted hE hpfx (hslash reg hreg) hcompiled hmatches)

/-! ## Lookups -/

theorem matchRoute_mounted (hE : E.LiteralPrefix) (hpfx : PlainText pfx)
    (hslash : ∀ reg ∈ regs, reg.2.path.head? = some (byte '/')) {method : ByteString}
    (hmounted : mounted.filter (fun reg => reg.1.str = method)
      = (regs.filter (fun reg => reg.1.str = method)).map (mountedRegistration pfx))
    {r r' : FastRouter E F} (h : FastRoutes r regs) (h' : FastRoutes r' mounted)
    {q : ByteString} (hq : q ≠ [] ∧ q ≠ [byte '/']) (now now' : Int) :
    (r'.matchRoute method (pfx ++ q) now).1
      = (r.matchRoute method q now').1.map (mountedMatch pfx) := by
  have hpath : ∀ reg ∈ regs, Hono.prefixedPath pfx reg.2.path = pfx ++ q ↔ reg.2.path = q :=
    fun reg hreg => prefixedPath_eq_iff (hslash reg hreg) hq
  rw [h'.matchRoute, h.matchRoute, static_mounted hpfx hslash hmounted hpath]
  cases (regs.reverse.find? (holdsKey (cacheKey method q))).map (fun reg => staticResult reg.2) with
  | some result => rfl
  | none => exact firstServing_mounted hE hpfx hslash hmounted h h' q

/-- The root route answers at the prefix. -/
theorem matchRoute_mounted_root (hpfx : PlainText pfx)
    (hslash : ∀ reg ∈ regs, reg.2.path.head? = some (byte '/')) {m : RouteMethod}
    (hmounted : mounted.filter (fun reg => reg.1.str = m.str)
      = (regs.filter (fun reg => reg.1.str = m.str)).map (mountedRegistration pfx))
    {r r' : FastRouter E F} (h : FastRoutes r regs) (h' : FastRoutes r' mounted)
    {handler : IHandler F} (hroot : (m, handler) ∈ regs ∧ handler.path = [byte '/'])
    (now now' : Int) :
    ∃ reg ∈ regs, reg.1 = m ∧ reg.2.path = [byte '/'] ∧
      (r.matchRoute m.str [byte '/'] now').1 = some (staticResult reg.2) ∧
      (r'.matchRoute m.str pfx now).1 = some (mountedMatch pfx (staticResult reg.2)) := by
  have hpath : ∀ reg ∈ regs, Hono.prefixedPath pfx reg.2.path = pfx ↔ reg.2.path = [byte '/'] :=
    fun reg hreg => prefixedPath_eq_prefix (hslash reg hreg)
  have hkey : holdsKey (cacheKey m.str [byte '/']) (m, handler) = true :=
    holdsKey_iff.mpr ⟨by rw [hroot.2]; decide, rfl, hroot.2⟩
  cases hfind : regs.reverse.find? (holdsKey (cacheKey m.str [byte '/'])) with
  | none =>
      have hnone := List.find?_eq_none.mp hfind _ (List.mem_reverse.mpr hroot.1)
      exact absurd hkey hnone
  | some reg =>
      obtain ⟨-, hmethod, hreg⟩ := holdsKey_iff.mp (List.find?_some hfind)
      refine ⟨reg, List.mem_reverse.mp (List.mem_of_find?_eq_some hfind),
        RouteMethod.str_inj hmethod, hreg, ?_, ?_⟩
      · rw [h.matchRoute, hfind]
        rfl
      · rw [h'.matchRoute, static_mounted hpfx hslash hmounted hpath, hfind]
        rfl

end Mount

/-! ## The mount of a sub-app -/

/-- A prefix without its trailing slash. -/
def withoutTrailingSlash (pfx : ByteString) : ByteString :=
  if pfx.getLast? = some (byte '/') then pfx.dropLast else pfx

/-- Every route of the application is written with a leading slash. -/
def SlashedRoutes (app : Hono E M F) : Prop :=
  ∀ m, ∀ handler ∈ app.handlers m, handler.path.head? = some (byte '/')

theorem RoutesOf.mem_iff {app : Hono E M F} {now : Int} {regs : List (Registration F)}
    (h : RoutesOf S app now regs) {m : RouteMethod} {handler : IHandler F} :
    handler ∈ app.handlers m ↔ (m, handler) ∈ regs := by
  rw [h.lists, List.mem_map]
  constructor
  · rintro ⟨⟨m', handler'⟩, hmem, rfl⟩
    obtain ⟨hmem, hm⟩ := List.mem_filter.mp hmem
    have hm' : m' = m := of_decide_eq_true hm
    rwa [hm'] at hmem
  · intro hmem
    exact ⟨(m, handler), List.mem_filter.mpr ⟨hmem, decide_eq_true rfl⟩, rfl⟩

theorem RoutesOf.eq_nil {app : Hono E M F} {now : Int} {regs : List (Registration F)}
    (h : RoutesOf S app now regs) (hempty : ∀ m, app.handlers m = []) : regs = [] := by
  refine List.eq_nil_iff_forall_not_mem.mpr ?_
  rintro ⟨m, handler⟩ hmem
  have hhandler := h.mem_iff.mpr hmem
  rw [hempty] at hhandler
  cases hhandler

/-- **THE MOUNT.**  On an application without routes, under a plain prefix: what the sub-app answers
    to a path, the application answers behind the prefix, with the same inner handler and the same
    parameters; and the sub-app's root route answers at the prefix. -/
theorem mount_transparent (hS : S.Stable) (hE : E.LiteralPrefix) {app sub : Hono E M F}
    (happ : RoutingApp S app) (hempty : ∀ m, app.handlers m = []) (hsub : RoutingApp S sub)
    (hslash : SlashedRoutes sub) {pfx : ByteString} (hplain : PlainText pfx)
    (hpfx : pfx.head? = some (byte '/') ∧ pfx.getLast? ≠ some (byte '/')) (now now' : Int) :
    (∀ (method q : ByteString), q ≠ [] → q ≠ [byte '/'] →
      ((app.route S pfx sub).fastRouter.matchRoute method (withoutTrailingSlash pfx ++ q) now).1
        = (sub.fastRouter.matchRoute method q now').1.map (mountedMatch pfx)) ∧
    (∀ (m : RouteMethod), (∃ handler ∈ sub.handlers m, handler.path = [byte '/']) →
      ∃ handler ∈ sub.handlers m, handler.path = [byte '/'] ∧
        (sub.fastRouter.matchRoute m.str [byte '/'] now').1 = some (staticResult handler) ∧
        ((app.route S pfx sub).fastRouter.matchRoute m.str (withoutTrailingSlash pfx) now).1
          = some (mountedMatch pfx (staticResult handler))) := by
  obtain ⟨created, regs, hregs⟩ := hsub.routes
  obtain ⟨appCreated, appRegs, happRegs⟩ := happ.routes
  have hnil : appRegs = [] := happRegs.eq_nil hempty
  subst hnil
  have hmount := happRegs.route pfx sub
  rw [List.nil_append] at hmount
  have htrim : withoutTrailingSlash pfx = pfx := if_neg hpfx.2
  have hslashed : ∀ reg ∈ regs, reg.2.path.head? = some (byte '/') :=
    fun reg hreg => hslash reg.1 reg.2 (hregs.mem_iff.mpr hreg)
  have hmounted := mounted_filter_str (mounted_filter hregs.lists pfx)
  rw [htrim]
  constructor
  · intro method q hnonempty hroot
    exact matchRoute_mounted hE hplain hslashed (hmounted method) (hregs.fastRoutes hS)
      (hmount.fastRoutes hS) ⟨hnonempty, hroot⟩ now now'
  · rintro m ⟨handler, hhandler, hroot⟩
    obtain ⟨reg, hreg, rfl, hpath, hsubAnswer, hanswer⟩ :=
      matchRoute_mounted_root hplain hslashed (hmounted m.str) (hregs.fastRoutes hS)
        (hmount.fastRoutes hS) ⟨hregs.mem_iff.mp hhandler, hroot⟩ now now'
    exact ⟨reg.2, hregs.mem_iff.mpr hreg, hpath, hsubAnswer, hanswer⟩

/-! ## The engine of the segments -/

theorem parseSegments_plain {pfx : ByteString} (h : PlainText pfx) (rest : ByteString) :
    parseSegments 0 (pfx.flatMap escapedByte ++ rest)
      = (parseSegments 0 rest).map (pfx.map SegmentToken.lit ++ ·) := by
  induction pfx with
  | nil => exact (congrFun Option.map_id (parseSegments 0 rest)).symm
  | cons b pfx ih =>
      obtain ⟨-, hstar, hbackslash⟩ := h b (List.mem_cons_self ..)
      have hrest := ih (fun c hc => h c (List.mem_cons_of_mem _ hc))
      have hcons : (parseSegments 0 (pfx.flatMap escapedByte ++ rest)).map (SegmentToken.lit b :: ·)
          = (parseSegments 0 rest).map ((b :: pfx).map SegmentToken.lit ++ ·) := by
        rw [hrest, Option.map_map]
        rfl
      rw [List.flatMap_cons, List.append_assoc, ← hcons]
      by_cases hspecial : b ∈ specialChars
      · rw [escapedByte, if_pos hspecial]
        rfl
      · have hgroup : ¬ startsWith (b :: (pfx.flatMap escapedByte ++ rest)) (ascii "(?P<") = true := by
          intro hstart
          obtain ⟨after, hafter⟩ := startsWith_iff.mp hstart
          have hparen : byte '(' = b := (List.cons.inj hafter).1
          rw [← hparen] at hspecial
          exact hspecial (by decide)
        rw [escapedByte, if_neg hspecial, List.singleton_append, parseSegments, if_neg hbackslash,
          if_neg hgroup, if_neg (not_or.mpr ⟨hspecial, hstar⟩)]

theorem matchSegments_plain (pfx : ByteString) (ts : List SegmentToken) (s : ByteString) :
    matchSegments (pfx.map SegmentToken.lit ++ ts) (pfx ++ s) = matchSegments ts s := by
  induction pfx with
  | nil => rfl
  | cons b pfx ih =>
      rw [List.map_cons, List.cons_append, List.cons_append, matchSegments, if_pos rfl, ih]

theorem parseAnchored_plain {pfx rest : ByteString} (h : PlainText pfx)
    (hrest : rest.head? = some (byte '/')) :
    parseAnchored (ascii "^" ++ (pfx.flatMap escapedByte ++ rest))
      = (parseAnchored (ascii "^" ++ rest)).map (pfx.map SegmentToken.lit ++ ·) := by
  have hne : rest ≠ [] := by
    rintro rfl
    cases hrest
  have hbehind : pfx.flatMap escapedByte ++ rest ≠ [] := fun hnil => hne (List.append_eq_nil_iff.mp hnil).2
  have hsource : ∀ {body : ByteString}, body ≠ [] →
      parseAnchored (ascii "^" ++ body)
        = if body.getLast? = some (byte '$') then parseSegments 0 body.dropLast else none := by
    intro body hbody
    have hlast : (byte '^' :: body).getLast? = body.getLast? := List.getLast?_cons_of_ne_nil hbody
    show parseAnchored (byte '^' :: body) = _
    rw [parseAnchored, hlast, List.head?_cons, List.tail_cons]
    simp only [true_and]
  rw [hsource hbehind, hsource hne, List.getLast?_append_of_ne_nil _ hne,
    List.dropLast_append_of_ne_nil hne]
  split
  · exact parseSegments_plain h rest.dropLast
  · rfl

theorem segmentEngine_literalPrefix : segmentEngine.LiteralPrefix where
  compiles {pfx rest} hpfx hrest := by
    show (parseAnchored _).isSome = (parseAnchored _).isSome
    rw [parseAnchored_plain hpfx hrest, Option.isSome_map]
  matches_eq {pfx rest re re'} hpfx hrest hre hre' s := by
    change List SegmentToken at re re'
    have hparsed : parseAnchored (ascii "^" ++ rest) = some re := hre
    have hmounted : parseAnchored (ascii "^" ++ (pfx.flatMap escapedByte ++ rest)) = some re' := hre'
    rw [parseAnchored_plain hpfx hrest, hparsed] at hmounted
    rw [← Option.some.inj hmounted]
    show (matchSegments (pfx.map SegmentToken.lit ++ re) (pfx ++ s)).isSome = _
    rw [matchSegments_plain]
    rfl
  groups {pfx rest re re'} hpfx hrest hre hre' s name _ := by
    change List SegmentToken at re re'
    have hparsed : parseAnchored (ascii "^" ++ rest) = some re := hre
    have hmounted : parseAnchored (ascii "^" ++ (pfx.flatMap escapedByte ++ rest)) = some re' := hre'
    rw [parseAnchored_plain hpfx hrest, hparsed] at hmounted
    rw [← Option.some.inj hmounted]
    show ((matchSegments (pfx.map SegmentToken.lit ++ re) (pfx ++ s)).bind _).getD [] = _
    rw [matchSegments_plain]
    rfl

/-! ## One sub-app -/

/-- A user route and a root route. -/
def usersApp : Hono segmentEngine Nat Nat :=
  ((Hono.new 0).get .insertion (ascii "/users/:id") 1).get .insertion (ascii "/") 2

theorem plainText_api : PlainText (ascii "/api") := by
  have hall : ∀ b ∈ ascii "/api", b ≠ byte ':' ∧ b ≠ byte '*' ∧ b ≠ byte '\\' := by
    decide +kernel
  exact hall

theorem mount_transparent_users :
    ((((Hono.new 0 : Hono segmentEngine Nat Nat).route .insertion (ascii "/api")
        usersApp).fastRouter.matchRoute (ascii "GET") (ascii "/api" ++ ascii "/users/7") 0).1
      = (usersApp.fastRouter.matchRoute (ascii "GET") (ascii "/users/7") 0).1.map
          (mountedMatch (ascii "/api"))) := by
  have hsub : RoutingApp .insertion usersApp := .on .get _ _ (.on .get _ _ (.new 0))
  have hslash : SlashedRoutes usersApp := by
    intro m handler hmem
    cases m <;> revert handler hmem <;> decide
  exact (mount_transparent CompareSort.insertion_stable segmentEngine_literalPrefix (.new 0)
    (fun m => by cases m <;> rfl) hsub hslash plainText_api (by decide) 0 0).1
    (ascii "GET") (ascii "/users/7") (by decide) (by decide)

/-- An answer of the application, mounted under the prefix. -/
def answeredBehind (pfx : String) (sub : Hono segmentEngine Nat Nat) (path : String) : Bool :=
  (((Hono.new 0).route .insertion (ascii pfx) sub).fastRouter.matchRoute (ascii "GET")
    (ascii path) 0).1.isSome

def answered (sub : Hono segmentEngine Nat Nat) (path : String) : Bool :=
  (sub.fastRouter.matchRoute (ascii "GET") (ascii path) 0).1.isSome

/-- A route written without a slash gets one; the root route also answers where the rest of the path
    is empty; a prefix that ends in a slash is joined with that slash; and the mount registers in
    the application's fast router what the sub-app kept out of its own. -/
theorem mount_joins :
    (answeredBehind "/api" ((Hono.new 0).get .insertion (ascii "x") 1) "/api/x" = true ∧
      answered ((Hono.new 0).get .insertion (ascii "x") 1) "/x" = false) ∧
    (answeredBehind "/api" ((Hono.new 0).get .insertion (ascii "/") 1) "/api" = true ∧
      answered ((Hono.new 0).get .insertion (ascii "/") 1) "" = false) ∧
    (answeredBehind "/api/" ((Hono.new 0).get .insertion (ascii "/x") 1) "/api/x" = false ∧
      answered ((Hono.new 0).get .insertion (ascii "/x") 1) "/x" = true) ∧
    (answeredBehind "/api" (((Hono.new 0).setFastRouterEnabled false).get .insertion (ascii "/x") 1)
        "/api/x" = true ∧
      answered (((Hono.new 0).setFastRouterEnabled false).get .insertion (ascii "/x") 1) "/x"
        = false) := by
  decide +kernel

end VHono
