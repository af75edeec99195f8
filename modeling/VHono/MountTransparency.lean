import VHono.MountedRouting

/-! # Mounting is transparent to routing

    The answer of the mounting router behind the prefix is the answer of the
    sub-app's router, its handler and pattern prefixed.  Static answers
    correspond key by key; the dynamic routes of one method are sorted lists
    with the same routes of each complexity, the prefix adding the same to all. -/

namespace VHono

open ByteString FastRouter

variable {E : RegexEngine} {M F : Type} {S : CompareSort}

/-! ## What a fast router holds -/

def compiled (E : RegexEngine) (reg : Registration F) : Option (PrecompiledRoute E F) :=
  if isStaticFastPath reg.2.path then none
  else match precompileRoute reg.1.str reg.2 with
    | .ok route => some route
    | .error _ => none

def holdsKey (key : ByteString) (reg : Registration F) : Bool :=
  isStaticFastPath reg.2.path && decide (cacheKey reg.1.str reg.2.path = key)

structure FastRoutes (r : FastRouter E F) (regs : List (Registration F)) : Prop where
  sorting : r.sortEnabled = true
  cached : r.cacheEnabled = true ∧ r.useFastCache = true
  fresh : r.fastCache = FastRouteCache.new 10000
  static : ∀ key, r.staticRouteResults.get? key
    = (regs.reverse.find? (holdsKey key)).map (fun reg => staticResult reg.2)
  dynamic : ∀ k, r.precompiledRoutes.filter (fun route => route.complexity = k)
    = (regs.filterMap (compiled E)).filter (fun route => route.complexity = k)
  sorted : r.precompiledRoutes.Pairwise (fun a b => a.complexity ≤ b.complexity)

theorem fastRoutes_new (now : Int) : FastRoutes (FastRouter.new now : FastRouter E F) [] where
  sorting := rfl
  cached := ⟨rfl, rfl⟩
  fresh := rfl
  static _ := rfl
  dynamic _ := rfl
  sorted := .nil

theorem FastRoutes.missed {r : FastRouter E F} {regs : List (Registration F)}
    (h : FastRoutes r regs) (key : ByteString) (now : Int) : r.readCache key now = (none, r) := by
  rw [readCache, h.cached.1, h.cached.2, if_pos (by decide), h.fresh]
  rfl

theorem FastRoutes.keepRoute (hS : S.Stable) {r : FastRouter E F} {regs : List (Registration F)}
    (h : FastRoutes r regs) (reg : Registration F) :
    FastRoutes (keepRoute S r reg) (regs ++ [reg]) := by
  rw [VHono.keepRoute, FastRouter.addRoute]
  cases hst : isStaticFastPath reg.2.path with
  | true =>
      have hcompiled : compiled E reg = none := if_pos hst
      rw [if_pos rfl]
      refine ⟨h.sorting, h.cached, h.fresh, ?_, ?_, h.sorted⟩
      · intro key
        rw [List.reverse_append, List.reverse_singleton, List.singleton_append, List.find?_cons,
          holdsKey, hst, Bool.true_and]
        show (r.staticRouteResults.insert (cacheKey reg.1.str reg.2.path) _).get? key = _
        by_cases hkey : cacheKey reg.1.str reg.2.path = key
        · rw [hkey, InsertionMap.get?_insert_self, decide_eq_true rfl]
          rfl
        · rw [InsertionMap.get?_insert_ne _ _ (fun heq => hkey heq.symm), h.static,
            decide_eq_false hkey]
      · intro k
        rw [List.filterMap_append, List.filterMap_cons, hcompiled]
        exact (h.dynamic k).trans (by rw [List.filterMap_nil, List.append_nil])
  | false =>
      have hkey : ∀ key, holdsKey key reg = false := by
        intro key
        rw [holdsKey, hst, Bool.false_and]
      have hstatic : ∀ key, (regs ++ [reg]).reverse.find? (holdsKey key)
          = regs.reverse.find? (holdsKey key) := by
        intro key
        rw [List.reverse_append, List.reverse_singleton, List.singleton_append, List.find?_cons,
          hkey]
      rw [if_neg Bool.false_ne_true]
      cases hroute : (precompileRoute reg.1.str reg.2 :
          Except ByteString (PrecompiledRoute E F)) with
      | error err =>
          have hcompiled : compiled E reg = none := by
            rw [compiled, hst, if_neg Bool.false_ne_true, hroute]
          refine ⟨h.sorting, h.cached, h.fresh, fun key => by rw [hstatic]; exact h.static key, ?_,
            h.sorted⟩
          intro k
          rw [List.filterMap_append, List.filterMap_cons, hcompiled]
          exact (h.dynamic k).trans (by rw [List.filterMap_nil, List.append_nil])
      | ok route =>
          have hcompiled : compiled E reg = some route := by
            rw [compiled, hst, if_neg Bool.false_ne_true, hroute]
          have hroutes : r.routesWith S route
              = S.sortBy (·.complexity) (r.precompiledRoutes ++ [route]) := by
            rw [routesWith, if_pos h.sorting]
          refine ⟨h.sorting, h.cached, h.fresh, fun key => by rw [hstatic]; exact h.static key, ?_,
            ?_⟩
          · intro k
            show (r.routesWith S route).filter _ = _
            rw [hroutes, CompareSort.filter_sortBy_concat hS, h.dynamic k, List.filterMap_append,
              List.filter_append, List.filterMap_cons, hcompiled]
            rfl
          · show (r.routesWith S route).Pairwise _
            rw [hroutes]
            exact S.ordered _ _

theorem fastRoutes_foldl (hS : S.Stable) :
    ∀ (more : List (Registration F)) {r : FastRouter E F} {regs : List (Registration F)},
      FastRoutes r regs → FastRoutes (more.foldl (VHono.keepRoute S) r) (regs ++ more) := by
  intro more
  induction more with
  | nil => intro r regs h; rwa [List.append_nil]
  | cons reg more ih =>
      intro r regs h
      have hrest := ih (h.keepRoute hS reg)
      rwa [List.append_assoc] at hrest

theorem RoutesOf.fastRoutes (hS : S.Stable) {app : Hono E M F} {now : Int}
    {regs : List (Registration F)} (h : RoutesOf S app now regs) :
    FastRoutes app.fastRouter regs := by
  have hfold := fastRoutes_foldl hS regs (fastRoutes_new (E := E) (F := F) now)
  rw [h.fast]
  rwa [List.nil_append] at hfold

/-- A lookup in a router without cached answers. -/
theorem FastRoutes.matchRoute {r : FastRouter E F} {regs : List (Registration F)}
    (h : FastRoutes r regs) (method path : ByteString) (now : Int) :
    (r.matchRoute method path now).1
      = match (regs.reverse.find? (holdsKey (cacheKey method path))).map
          (fun reg => staticResult reg.2) with
        | some result => some result
        | none => (firstServing r.precompiledRoutes method path).map (·.result path) := by
  rewrite [matchRoute_missed (h.missed _ _), h.static]
  cases (regs.reverse.find? (holdsKey (cacheKey method path))).map (fun reg => staticResult reg.2) <;>
    rfl

/-! ## The registrations of a mount -/

def mountedRegistration (pfx : ByteString) (reg : Registration F) : Registration F :=
  (reg.1, Hono.prefixedHandler pfx reg.2)

theorem filter_flatMap_methods {f : RouteMethod → List (Registration F)}
    (hf : ∀ m, ∀ reg ∈ f m, reg.1 = m) (m : RouteMethod) :
    ∀ {methods : List RouteMethod}, methods.Nodup →
      (methods.flatMap f).filter (fun reg => reg.1 = m) = if m ∈ methods then f m else [] := by
  intro methods
  induction methods with
  | nil => intro _; rfl
  | cons m' methods ih =>
      intro hnodup
      obtain ⟨hnot, hnodup⟩ := List.nodup_cons.mp hnodup
      rw [List.flatMap_cons, List.filter_append, ih hnodup]
      by_cases hm : m = m'
      · subst hm
        rw [if_neg hnot, if_pos (List.mem_cons_self ..), List.append_nil]
        exact List.filter_eq_self.mpr (fun reg hreg => decide_eq_true (hf m reg hreg))
      · have hnone : (f m').filter (fun reg => reg.1 = m) = [] := by
          rw [List.filter_eq_nil_iff]
          intro reg hreg
          rw [decide_eq_true_eq, hf m' reg hreg]
          exact fun heq => hm heq.symm
        have hiff : m ∈ m' :: methods ↔ m ∈ methods := by rw [List.mem_cons, or_iff_right hm]
        rw [hnone, List.nil_append]
        simp only [hiff]

/-- Method by method, the registrations of a mount are those of the sub-app, prefixed. -/
theorem mounted_filter {regs : List (Registration F)} {lists : RouteMethod → List (IHandler F)}
    (h : ∀ m, lists m = (regs.filter (fun reg => reg.1 = m)).map Prod.snd) (pfx : ByteString)
    (m : RouteMethod) :
    (RouteMethod.mergeOrder.flatMap (fun m =>
        (lists m).map (fun h => (m, Hono.prefixedHandler pfx h)))).filter (fun reg => reg.1 = m)
      = (regs.filter (fun reg => reg.1 = m)).map (mountedRegistration pfx) := by
  have hmem : m ∈ RouteMethod.mergeOrder := by cases m <;> decide
  rw [filter_flatMap_methods (fun m reg hreg => ?_) m (by decide), if_pos hmem, h m, List.map_map]
  · refine List.map_congr_left ?_
    intro reg hreg
    have hm : reg.1 = m := of_decide_eq_true (List.mem_filter.mp hreg).2
    show (m, Hono.prefixedHandler pfx reg.2) = (reg.1, Hono.prefixedHandler pfx reg.2)
    rw [hm]
  · obtain ⟨handler, -, rfl⟩ := List.mem_map.mp hreg
    rfl

/-- The same by the name of the method, whatever name is asked for. -/
theorem mounted_filter_str {regs mounted : List (Registration F)} {pfx : ByteString}
    (h : ∀ m, mounted.filter (fun reg => reg.1 = m)
      = (regs.filter (fun reg => reg.1 = m)).map (mountedRegistration pfx)) (method : ByteString) :
    mounted.filter (fun reg => reg.1.str = method)
      = (regs.filter (fun reg => reg.1.str = method)).map (mountedRegistration pfx) := by
  by_cases hm : ∃ m : RouteMethod, m.str = method
  · obtain ⟨m, rfl⟩ := hm
    have hiff : ∀ reg : Registration F, reg.1.str = m.str ↔ reg.1 = m :=
      fun reg => ⟨RouteMethod.str_inj, congrArg RouteMethod.str⟩
    simp only [hiff]
    exact h m
  · have hnone : ∀ l : List (Registration F), l.filter (fun reg => reg.1.str = method) = [] := by
      intro l
      rw [List.filter_eq_nil_iff]
      intro reg _
      rw [decide_eq_true_eq]
      exact fun heq => hm ⟨reg.1, heq⟩
    rw [hnone, hnone]
    rfl

/-! ## Static answers -/

theorem colon_not_mem_str (m : RouteMethod) : byte ':' ∉ m.str := by cases m <;> decide

/-- A static key is that of one method and path only. -/
theorem holdsKey_iff {method path : ByteString} {reg : Registration F} :
    holdsKey (cacheKey method path) reg = true ↔
      isStaticFastPath reg.2.path = true ∧ reg.1.str = method ∧ reg.2.path = path := by
  rw [holdsKey, Bool.and_eq_true, decide_eq_true_eq]
  refine and_congr_right (fun hst => ⟨fun hkey => ?_, fun ⟨hm, hp⟩ => by rw [hm, hp]⟩)
  rw [isStaticFastPath, Bool.and_eq_true, decide_eq_true_eq] at hst
  have hmethod : byte ':' ∉ method := by
    intro hmem
    have hcount := congrArg (List.count (byte ':')) hkey
    rw [cacheKey, cacheKey, List.count_append, List.count_append, List.count_cons_self,
      List.count_cons_self, List.count_eq_zero.mpr hst.1,
      List.count_eq_zero.mpr (colon_not_mem_str reg.1)] at hcount
    have hpos := List.count_pos_iff.mpr hmem
    omega
  exact cacheKey_inj (colon_not_mem_str reg.1) hmethod hkey

/-- The answer behind a prefix. -/
def mountedMatch (pfx : ByteString) (result : ContextRouteMatch F) : ContextRouteMatch F where
  handler := Hono.prefixedHandler pfx result.handler
  params := result.params
  path := Hono.prefixedPath pfx result.path
  basePath := result.basePath

theorem find?_congr_of_mem {α : Type} {p q : α → Bool} {xs : List α} (h : ∀ a ∈ xs, p a = q a) :
    xs.find? p = xs.find? q := by
  induction xs with
  | nil => rfl
  | cons a xs ih =>
      rw [List.find?_cons, List.find?_cons, h a (List.mem_cons_self ..),
        ih (fun b hb => h b (List.mem_cons_of_mem _ hb))]

/-- A search for a key is one among the registrations of the method. -/
theorem find?_holdsKey (regs : List (Registration F)) (method path : ByteString) :
    regs.reverse.find? (holdsKey (cacheKey method path))
      = (regs.filter (fun reg => reg.1.str = method)).reverse.find?
          (holdsKey (cacheKey method path)) := by
  rw [← List.filter_reverse, List.find?_filter]
  refine find?_congr_of_mem (fun reg _ => ?_)
  cases hkey : holdsKey (cacheKey method path) reg with
  | false => exact (decide_eq_false (fun h => Bool.noConfusion h.2)).symm
  | true =>
      exact (decide_eq_true ⟨decide_eq_true (holdsKey_iff.mp hkey).2.1, rfl⟩).symm

section Mount

variable {pfx : ByteString} {regs mounted : List (Registration F)}

theorem prefixedPath_slash {path : ByteString} (h : path.head? = some (byte '/'))
    (hroot : path ≠ [byte '/']) : Hono.prefixedPath pfx path = pfx ++ path := by
  obtain ⟨rest, rfl⟩ := List.head?_eq_some_iff.mp h
  have hstart : startsWith (byte '/' :: rest) [byte '/'] = true := startsWith_append [byte '/'] rest
  have hnot : ¬(byte '/' :: rest = [byte '/'] ∨ byte '/' :: rest = []) := by
    rintro (hslash | hnil)
    · exact hroot hslash
    · cases hnil
  rw [Hono.prefixedPath, if_neg hnot, if_pos hstart]

theorem isStaticFastPath_prefixed (hpfx : PlainText pfx) {path : ByteString}
    (h : path.head? = some (byte '/')) :
    isStaticFastPath (Hono.prefixedPath pfx path) = isStaticFastPath path := by
  by_cases hroot : path = [byte '/']
  · rw [Hono.prefixedPath, if_pos (.inl hroot), hroot]
    have hplain := isStaticFastPath_plain hpfx []
    rw [List.append_nil] at hplain
    rw [hplain]
    decide
  · rw [prefixedPath_slash h hroot, isStaticFastPath_plain hpfx]

/-- Behind the prefix a path is that of the same registration. -/
theorem prefixedPath_eq_iff {path q : ByteString} (h : path.head? = some (byte '/'))
    (hq : q ≠ [] ∧ q ≠ [byte '/']) : Hono.prefixedPath pfx path = pfx ++ q ↔ path = q := by
  by_cases hroot : path = [byte '/']
  · rw [Hono.prefixedPath, if_pos (.inl hroot)]
    constructor
    · intro heq
      exact absurd (List.self_eq_append_right.mp heq) hq.1
    · rintro rfl
      exact absurd hroot hq.2
  · rw [prefixedPath_slash h hroot]
    exact List.append_right_inj pfx

theorem prefixedPath_eq_prefix {path : ByteString} (h : path.head? = some (byte '/')) :
    Hono.prefixedPath pfx path = pfx ↔ path = [byte '/'] := by
  by_cases hroot : path = [byte '/']
  · exact ⟨fun _ => hroot, fun _ => if_pos (.inl hroot)⟩
  · rw [prefixedPath_slash h hroot]
    refine ⟨fun heq => ?_, fun heq => absurd heq hroot⟩
    have hnil : path = [] := List.append_right_eq_self.mp heq
    rw [hnil] at h
    cases h

/-- Static answers correspond where the paths do. -/
theorem static_mounted (hpfx : PlainText pfx) (hslash : ∀ reg ∈ regs, reg.2.path.head? = some (byte '/'))
    {method path q : ByteString}
    (hmounted : mounted.filter (fun reg => reg.1.str = method)
      = (regs.filter (fun reg => reg.1.str = method)).map (mountedRegistration pfx))
    (hpath : ∀ reg ∈ regs, Hono.prefixedPath pfx reg.2.path = path ↔ reg.2.path = q) :
    (mounted.reverse.find? (holdsKey (cacheKey method path))).map (fun reg => staticResult reg.2)
      = ((regs.reverse.find? (holdsKey (cacheKey method q))).map
          (fun reg => staticResult reg.2)).map (mountedMatch pfx) := by
  rw [find?_holdsKey, hmounted, ← List.map_reverse, List.find?_map, find?_holdsKey regs,
    Option.map_map, Option.map_map]
  have hfind : (regs.filter (fun reg => reg.1.str = method)).reverse.find?
        (holdsKey (cacheKey method path) ∘ mountedRegistration pfx)
      = (regs.filter (fun reg => reg.1.str = method)).reverse.find?
        (holdsKey (cacheKey method q)) := by
    refine find?_congr_of_mem (fun reg hreg => ?_)
    have hmem : reg ∈ regs := (List.mem_filter.mp (List.mem_reverse.mp hreg)).1
    rw [Bool.eq_iff_iff, Function.comp, holdsKey_iff, holdsKey_iff]
    show isStaticFastPath (Hono.prefixedPath pfx reg.2.path) = true ∧ reg.1.str = method ∧
      Hono.prefixedPath pfx reg.2.path = path ↔ _
    rw [isStaticFastPath_prefixed hpfx (hslash reg hmem), hpath reg hmem]
  rw [hfind]
  rfl

/-! ## Dynamic answers -/

/-- A compiled route, prefixed. -/
def mountedRoute (pfx : ByteString) (route : PrecompiledRoute E F) : PrecompiledRoute E F where
  method := route.method
  pattern := pfx ++ route.pattern
  regex := (E.regexOpt (paramRegexSource (pfx ++ route.pattern))).getD route.regex
  paramNames := route.paramNames
  handler := Hono.prefixedHandler pfx route.handler
  complexity := route.complexity + prefixComplexity pfx

theorem mountedRoute_complexity (pfx : ByteString) (route : PrecompiledRoute E F) :
    (mountedRoute pfx route).complexity = route.complexity + prefixComplexity pfx := rfl

/-- What a compiled route is made of. -/
theorem compiled_eq_some {reg : Registration F} {route : PrecompiledRoute E F}
    (h : compiled E reg = some route) :
    isStaticFastPath reg.2.path = false ∧ route.method = reg.1.str ∧ route.pattern = reg.2.path ∧
      E.regexOpt (paramRegexSource reg.2.path) = some route.regex ∧
      route.paramNames = paramNames reg.2.path ∧ route.handler = reg.2 ∧
      route.complexity = calculateFastRouteComplexity reg.2.path := by
  rw [compiled] at h
  split at h
  · cases h
  · rename_i hst
    rw [precompileRoute] at h
    cases hre : E.regexOpt (paramRegexSource reg.2.path) with
    | none =>
        rw [hre] at h
        cases h
    | some re =>
        rw [hre] at h
        rw [← Option.some.inj h]
        exact ⟨Bool.eq_false_iff.mpr hst, rfl, rfl, rfl, rfl, rfl, rfl⟩

theorem compiled_mounted (hE : E.LiteralPrefix) (hpfx : PlainText pfx) {reg : Registration F}
    (hslash : reg.2.path.head? = some (byte '/')) :
    compiled E (mountedRegistration pfx reg) = (compiled E reg).map (mountedRoute pfx) := by
  have hstatic := isStaticFastPath_prefixed hpfx hslash
  have hmounted : (mountedRegistration pfx reg).2.path = Hono.prefixedPath pfx reg.2.path := rfl
  rw [compiled, compiled, hmounted, hstatic]
  cases hst : isStaticFastPath reg.2.path with
  | true => rfl
  | false =>
      have hroot : reg.2.path ≠ [byte '/'] := by
        intro heq
        rw [heq] at hst
        exact absurd hst (by decide)
      have hpath : Hono.prefixedPath pfx reg.2.path = pfx ++ reg.2.path :=
        prefixedPath_slash hslash hroot
      have hsource : paramRegexSource (mountedRegistration pfx reg).2.path
          = ascii "^" ++ (pfx.flatMap escapedByte ++ sourceBody reg.2.path) := by
        rw [hmounted, hpath, paramRegexSource_plain hpfx]
      have hcompiles := hE.compiles hpfx (sourceBody_head hslash)
      rw [← paramRegexSource_eq, ← hsource] at hcompiles
      rw [if_neg Bool.false_ne_true, if_neg Bool.false_ne_true, precompileRoute, precompileRoute]
      cases hre : E.regexOpt (paramRegexSource reg.2.path) with
      | none =>
          rw [hre] at hcompiles
          rw [Option.isSome_eq_false_iff.mp hcompiles |> Option.isNone_iff_eq_none.mp]
          rfl
      | some re =>
          rw [hre] at hcompiles
          obtain ⟨re', hre'⟩ := Option.isSome_iff_exists.mp hcompiles
          rw [hre']
          rw [hmounted, hpath] at hre'
          show some _ = some _
          rw [hmounted, hpath, mountedRoute, hre', complexity_append, paramNames_plain hpfx]
          rfl

/-- The compiled routes of one method, prefixed. -/
theorem compiled_filter (hE : E.LiteralPrefix) (hpfx : PlainText pfx)
    (hslash : ∀ reg ∈ regs, reg.2.path.head? = some (byte '/')) {method : ByteString}
    (hmounted : mounted.filter (fun reg => reg.1.str = method)
      = (regs.filter (fun reg => reg.1.str = method)).map (mountedRegistration pfx)) :
    (mounted.filterMap (compiled E)).filter (fun route => route.method = method)
      = ((regs.filterMap (compiled E)).filter (fun route => route.method = method)).map
          (mountedRoute pfx) := by
  have hmethod : ∀ l : List (Registration F),
      (l.filterMap (compiled E)).filter (fun route => route.method = method)
        = (l.filter (fun reg => reg.1.str = method)).filterMap (compiled E) := by
    intro l
    rw [List.filter_filterMap, List.filterMap_filter]
    refine List.filterMap_congr ?_
    intro reg _
    cases hc : compiled E reg with
    | none => rw [Option.filter_none, ite_self]
    | some route =>
        obtain ⟨-, hm, -⟩ := compiled_eq_some hc
        rw [Option.filter_some, hm]
  rw [hmethod, hmethod, hmounted, List.filterMap_map, List.map_filterMap]
  refine List.filterMap_congr ?_
  intro reg hreg
  exact compiled_mounted hE hpfx (hslash reg (List.mem_filter.mp hreg).1)

/-- Sorted, the dynamic routes of one method correspond one by one. -/
theorem dynamic_mounted (hE : E.LiteralPrefix) (hpfx : PlainText pfx)
    (hslash : ∀ reg ∈ regs, reg.2.path.head? = some (byte '/')) {method : ByteString}
    (hmounted : mounted.filter (fun reg => reg.1.str = method)
      = (regs.filter (fun reg => reg.1.str = method)).map (mountedRegistration pfx))
    {r r' : FastRouter E F} (h : FastRoutes r regs) (h' : FastRoutes r' mounted) :
    r'.precompiledRoutes.filter (fun route => route.method = method)
      = (r.precompiledRoutes.filter (fun route => route.method = method)).map
          (mountedRoute pfx) := by
  have hkey : ∀ {r : FastRouter E F} {regs : List (Registration F)}, FastRoutes r regs → ∀ k,
      (r.precompiledRoutes.filter (fun route => route.method = method)).filter
          (fun route => route.complexity = k)
        = ((regs.filterMap (compiled E)).filter (fun route => route.method = method)).filter
          (fun route => route.complexity = k) := by
    intro r regs h k
    rw [List.filter_comm, h.dynamic k, List.filter_comm]
  refine CompareSort.eq_of_filters (h'.sorted.sublist List.filter_sublist) ?_ (fun k => ?_)
  · refine List.pairwise_map.mpr ((h.sorted.sublist List.filter_sublist).imp ?_)
    intro a b hab
    exact Nat.add_le_add_right hab _
  · rw [hkey h', compiled_filter hE hpfx hslash hmounted, List.filter_map, List.filter_map]
    by_cases hk : ∃ j, j + prefixComplexity pfx = k
    · obtain ⟨j, hj⟩ := hk
      have hshift : ∀ route : PrecompiledRoute E F,
          ((fun route => decide (route.complexity = k)) ∘ mountedRoute pfx) route
            = decide (route.complexity = j) := by
        intro route
        rw [Function.comp_apply, mountedRoute_complexity, ← hj]
        exact decide_eq_decide.mpr Nat.add_right_cancel_iff
      rw [funext hshift, hkey h]
    · have hnone : ∀ route : PrecompiledRoute E F,
          ((fun route => decide (route.complexity = k)) ∘ mountedRoute pfx) route = false := by
        intro route
        rw [Function.comp_apply, mountedRoute_complexity]
        exact decide_eq_false (fun heq => hk ⟨route.complexity, heq⟩)
      rw [funext hnone, List.filter_false, List.filter_false]

end Mount

end VHono
