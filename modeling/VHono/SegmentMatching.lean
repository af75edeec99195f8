import VHono.SegmentRoutes

/-! # The fast router of segment patterns

    A router filled with segment patterns, without a cache.  What it holds
    after any registrations is said once: the last static route of every method
    and path, and every dynamic route, sorted by complexity.  A lookup is read
    off from this: the static route of the path, else a matching dynamic route
    that no other matching one undercuts. -/

namespace VHono

open ByteString PathExpressions PathSegments FastRouter

variable {E : RegexEngine} {F : Type}

/-- A registration. -/
structure SegmentRoute (F : Type) where
  method  : ByteString
  pattern : SegmentPattern
  handle  : F

namespace SegmentRoute

def handler (r : SegmentRoute F) : IHandler F := { path := r.pattern.text, handle := r.handle }

def isStatic (r : SegmentRoute F) : Bool := isStaticFastPath r.pattern.text

/-- The route is one of the method, and its pattern matches the path. -/
def Matches (r : SegmentRoute F) (method path : ByteString) : Prop :=
  r.method = method ∧ ∃ caps, r.pattern.bindings path = some caps

def complexity (r : SegmentRoute F) : Nat := calculateFastRouteComplexity r.pattern.text

end SegmentRoute

/-- An empty router with the cache off. -/
def uncachedRouter (fast lru now : Int) : FastRouter E F :=
  (newWithCacheCapacities fast lru now).setCacheEnabled false now

def addRoutes (S : CompareSort) (r : FastRouter E F) (routes : List (SegmentRoute F)) :
    Except ByteString (FastRouter E F) :=
  routes.foldlM (fun r route => r.addRoute S route.method route.handler []) r

/-! ## Static and dynamic patterns -/

theorem unite_literals {segs : List PatternSegment}
    (h : segs.filterMap PatternSegment.paramName = []) :
    ∀ path, bindSegments segs path = some [] ↔ path = segs.map PatternSegment.text := by
  induction segs with
  | nil =>
      intro path
      cases path with
      | nil => exact ⟨fun _ => rfl, fun _ => rfl⟩
      | cons s path => exact ⟨by rintro ⟨⟩, by rintro ⟨⟩⟩
  | cons seg segs ih =>
      intro path
      cases seg with
      | param name => cases h
      | literal text =>
          cases path with
          | nil => exact ⟨by rintro ⟨⟩, by rintro ⟨⟩⟩
          | cons s path =>
              rw [bindSegments_cons, List.map_cons, List.cons.injEq, ← ih h path]
              constructor
              · rintro ⟨c, d, hc, hd, hcd⟩
                obtain ⟨rfl, rfl⟩ := List.append_eq_nil_iff.mp hcd.symm
                rw [PatternSegment.bind] at hc
                split at hc
                · exact ⟨‹s = text›, hd⟩
                · cases hc
              · rintro ⟨hs, hpath⟩
                exact ⟨[], [], if_pos hs, hpath, rfl⟩

/-- The colons of a text are the parameters'. -/
theorem isStatic_iff (p : SegmentPattern) :
    isStaticFastPath p.text = true ↔ p.segments.filterMap PatternSegment.paramName = [] := by
  rw [isStaticFastPath, Bool.and_eq_true, decide_eq_true_eq, decide_eq_true_eq,
    List.filterMap_eq_nil_iff]
  constructor
  · rintro ⟨hcolon, -⟩ seg hseg
    cases seg with
    | literal text => rfl
    | param name =>
        exact absurd ((mem_unite (by decide)).mpr
          ⟨_, List.mem_map_of_mem hseg, List.mem_cons_self ..⟩) hcolon
  · intro h
    have hnone : ∀ b, b = byte ':' ∨ b = byte '*' → b ∉ p.text := by
      intro b hb hmem
      have hslash : b ≠ byte '/' := by rcases hb with rfl | rfl <;> decide
      obtain ⟨text, htext, hmem⟩ := (mem_unite hslash).mp hmem
      obtain ⟨seg, hseg, rfl⟩ := List.mem_map.mp htext
      cases seg with
      | param name => cases h _ hseg
      | literal text =>
          obtain ⟨hcolon, hstar, -, -⟩ := isLiteralByte_spec (p.proper _ hseg b hmem)
          exact hb.elim hcolon hstar
    exact ⟨hnone _ (.inl rfl), hnone _ (.inr rfl)⟩

theorem segment_text_noSlash {seg : PatternSegment} (h : seg.Proper) : byte '/' ∉ seg.text := by
  intro hmem
  cases seg with
  | literal text => exact (isLiteralByte_spec (h _ hmem)).2.2.1 rfl
  | param name =>
      rcases List.mem_cons.mp hmem with hmem | hmem
      · exact absurd hmem (by decide)
      · exact (isParamPart_spec ((identifier_part h.1 h.2).2 _ hmem)).2.2.1 rfl

theorem segments_text (p : SegmentPattern) :
    PathSegments.segments p.text = p.segments.map PatternSegment.text := by
  refine segments_unite (fun h => p.nonempty (List.map_eq_nil_iff.mp h)) ?_
  intro text htext
  obtain ⟨seg, hseg, rfl⟩ := List.mem_map.mp htext
  exact segment_text_noSlash (p.proper seg hseg)

/-- A static pattern matches its own text and binds nothing. -/
theorem bindings_static {p : SegmentPattern} (h : isStaticFastPath p.text = true)
    {path : ByteString} {caps : Captures} :
    p.bindings path = some caps ↔ path = p.text ∧ caps = [] := by
  have hnames := (isStatic_iff p).mp h
  constructor
  · intro hbind
    have hcaps : caps = [] := by
      have hfst := bindSegments_names hbind
      rw [hnames] at hfst
      exact List.map_eq_nil_iff.mp hfst
    rw [hcaps] at hbind
    have hpath := (unite_literals hnames _).mp hbind
    rw [← segments_text] at hpath
    exact ⟨by rw [← unite_segments path, hpath, unite_segments], hcaps⟩
  · rintro ⟨rfl, rfl⟩
    exact (unite_literals hnames _).mpr (segments_text p)

/-! ## Compiled routes -/

/-- A dynamic route as the router compiles it. -/
structure CompiledFrom (route : PrecompiledRoute E F) (r : SegmentRoute F) : Prop where
  method : route.method = r.method
  regex : E.regexOpt (paramRegexSource r.pattern.text) = some route.regex
  names : route.paramNames = paramNames r.pattern.text
  handler : route.handler = r.handler
  complexity : route.complexity = r.complexity

theorem precompileRoute_compiles (hE : E.ReadsAnchored) (r : SegmentRoute F) :
    ∃ route : PrecompiledRoute E F,
      precompileRoute r.method r.handler = .ok route ∧ CompiledFrom route r := by
  obtain ⟨re, hre⟩ := hE.compiles (readAnchored_text r.pattern)
    (star_not_mem_source (not_mem_text r.pattern).1)
  refine ⟨⟨r.method, r.pattern.text, re, paramNames r.pattern.text, r.handler, r.complexity⟩, ?_,
    rfl, hre, rfl, rfl, rfl⟩
  have hcompiled : E.regexOpt (paramRegexSource r.handler.path) = some re := hre
  rw [precompileRoute, hcompiled]
  rfl

theorem CompiledFrom.serves_iff (hE : E.ReadsAnchored) {route : PrecompiledRoute E F}
    {r : SegmentRoute F} (h : CompiledFrom route r) (method path : ByteString) :
    route.serves method path = true ↔ r.Matches method path := by
  rw [PrecompiledRoute.serves, Bool.and_eq_true, decide_eq_true_eq, h.method,
    hE.matches_iff (readAnchored_text r.pattern) h.regex]
  exact and_congr_right' (exists_congr (fun _ => r.pattern.reads_iff))

theorem paramNames_text (p : SegmentPattern) :
    paramNames p.text = p.segments.filterMap PatternSegment.paramName := by
  have hitems : ∀ segs : List PatternSegment,
      ((segmentItems segs).map Mark.item).filterMap Mark.groupName
        = segs.filterMap PatternSegment.paramName := by
    have hseg : ∀ seg : PatternSegment, (seg.items.map Mark.item).filterMap Mark.groupName
        = seg.paramName.toList := by
      intro seg
      cases seg with
      | literal text =>
          rw [PatternSegment.items, List.map_map, List.filterMap_map]
          exact List.filterMap_eq_nil_iff.mpr (fun _ _ => rfl)
      | param name => rfl
    intro segs
    induction segs with
    | nil => rfl
    | cons seg segs ih =>
        have hcons : (seg :: segs).filterMap PatternSegment.paramName
            = seg.paramName.toList ++ segs.filterMap PatternSegment.paramName := by
          cases seg <;> rfl
        cases segs with
        | nil => rw [hcons, segmentItems, hseg]; exact (List.append_nil _).symm
        | cons seg' segs =>
            rw [hcons, ← ih, segmentItems, List.map_append, List.filterMap_append, hseg]
            rfl
  rw [paramNames_eq, SegmentPattern.text, pathMarks_unite p.proper, hitems]

/-- The parameters of a match are the bindings of the pattern. -/
theorem CompiledFrom.params (hE : E.ReadsAnchored) {route : PrecompiledRoute E F}
    {r : SegmentRoute F} (h : CompiledFrom route r) {path : ByteString} {caps : Captures}
    (hbind : r.pattern.bindings path = some caps) (name : ByteString) :
    (extractParams E route.regex route.paramNames path).get? name = caps.lookup name := by
  have hnames : caps.map Prod.fst = route.paramNames := by
    rw [h.names, paramNames_text, bindSegments_names hbind]
  have hnodup : (caps.map Prod.fst).Nodup := by
    rw [bindSegments_names hbind]
    exact r.pattern.distinct
  have hgroup : ∀ cap ∈ caps, E.getGroupByName route.regex path cap.1 = cap.2 := by
    intro cap hcap
    refine hE.groups (readAnchored_text r.pattern) h.regex (r.pattern.reads_iff.mpr hbind) ?_
      hnodup hcap
    intro caps' hcaps'
    exact Option.some.inj ((r.pattern.reads_iff.mp hcaps').symm.trans hbind)
  rw [← hnames, extractParams]
  have hfold : ∀ (cs : Captures) (m : InsertionMap ByteString ByteString),
      (∀ cap ∈ cs, E.getGroupByName route.regex path cap.1 = cap.2) → (cs.map Prod.fst).Nodup →
      ((cs.map Prod.fst).foldl
          (fun m name => m.insert name (E.getGroupByName route.regex path name)) m).get? name
        = (cs.lookup name).or (m.get? name) := by
    intro cs
    induction cs with
    | nil => intro m _ _; rfl
    | cons cap cs ih =>
        intro m hvalues hnodup
        obtain ⟨hnot, hnodup⟩ := List.nodup_cons.mp hnodup
        rw [List.map_cons, List.foldl_cons,
          ih _ (fun c hc => hvalues c (List.mem_cons_of_mem _ hc)) hnodup,
          hvalues cap (List.mem_cons_self ..), List.lookup_cons]
        by_cases hname : name = cap.1
        · have hnone : cs.lookup name = none := by
            rw [List.lookup_eq_none_iff]
            intro c hc
            have hne : name ≠ c.1 := by
              intro heq
              rw [← hname, heq] at hnot
              exact hnot (List.mem_map_of_mem hc)
            exact bne_iff_ne.mpr hne
          rw [hnone, hname, InsertionMap.get?_insert_self, beq_self_eq_true]
          rfl
        · rw [InsertionMap.get?_insert_ne _ _ hname, beq_eq_false_iff_ne.mpr hname]
  rw [hfold caps .empty hgroup hnodup]
  exact Option.or_none ..

/-! ## What a router holds -/

/-- The router holds the registrations: for a static path the last one, and every dynamic one,
    sorted by complexity. -/
structure HoldsRoutes (r : FastRouter E F) (routes : List (SegmentRoute F)) : Prop where
  uncached : r.cacheEnabled = false
  sorting : r.sortEnabled = true
  static : ∀ m p, byte ':' ∉ m → r.staticRouteResults.get? (cacheKey m p)
    = (routes.reverse.find? (fun s => s.isStatic && decide (s.method = m ∧ s.pattern.text = p))).map
        (fun s => staticResult s.handler)
  sound : ∀ route ∈ r.precompiledRoutes,
    ∃ s ∈ routes, s.isStatic = false ∧ CompiledFrom route s
  complete : ∀ s ∈ routes, s.isStatic = false →
    ∃ route ∈ r.precompiledRoutes, CompiledFrom route s
  sorted : r.precompiledRoutes.Pairwise (fun a b => a.complexity ≤ b.complexity)

theorem holdsRoutes_uncached (fast lru now : Int) :
    HoldsRoutes (uncachedRouter fast lru now : FastRouter E F) [] where
  uncached := rfl
  sorting := rfl
  static _ _ _ := rfl
  sound _ hroute := absurd hroute List.not_mem_nil
  complete _ hs := absurd hs List.not_mem_nil
  sorted := .nil

/-- One more registration is held too. -/
theorem HoldsRoutes.addRoute (hE : E.ReadsAnchored) (S : CompareSort) {r : FastRouter E F}
    {routes : List (SegmentRoute F)} (h : HoldsRoutes r routes) {s : SegmentRoute F}
    (hcolon : byte ':' ∉ s.method) :
    ∃ r', r.addRoute S s.method s.handler [] = .ok r' ∧ HoldsRoutes r' (routes ++ [s]) := by
  cases hst : s.isStatic with
  | true =>
      refine ⟨r.addStaticRoute s.method s.handler, if_pos hst, ?_⟩
      refine { uncached := h.uncached, sorting := h.sorting, static := ?_, sound := ?_,
               complete := ?_, sorted := h.sorted }
      · intro m p hm
        rw [List.reverse_append, List.reverse_singleton, List.singleton_append, List.find?_cons, hst,
          Bool.true_and]
        show (r.staticRouteResults.insert (cacheKey s.method s.pattern.text) _).get? _ = _
        by_cases heq : s.method = m ∧ s.pattern.text = p
        · rw [heq.1, heq.2, InsertionMap.get?_insert_self, decide_eq_true ⟨rfl, rfl⟩]
          rfl
        · rw [InsertionMap.get?_insert_ne _ _ (fun hkey => heq
            ((cacheKey_inj hm hcolon hkey).imp Eq.symm Eq.symm)), h.static m p hm,
            decide_eq_false heq]
      · intro route hroute
        obtain ⟨t, ht, hdynamic, hcompiled⟩ := h.sound route hroute
        exact ⟨t, List.mem_append_left _ ht, hdynamic, hcompiled⟩
      · intro t ht hdynamic
        rcases List.mem_append.mp ht with ht | ht
        · exact h.complete t ht hdynamic
        · rw [List.mem_singleton.mp ht, hst] at hdynamic
          exact Bool.noConfusion hdynamic
  | false =>
      obtain ⟨route, hroute, hcompiled⟩ := precompileRoute_compiles hE s
      have hnot : ¬isStaticFastPath s.handler.path = true := Bool.eq_false_iff.mp hst
      refine ⟨{ r with precompiledRoutes := r.routesWith S route }, ?_, ?_⟩
      · rw [FastRouter.addRoute, if_neg hnot, hroute]
      refine { uncached := h.uncached, sorting := h.sorting, static := ?_, sound := ?_,
               complete := ?_, sorted := ?_ }
      · intro m p hm
        rw [List.reverse_append, List.reverse_singleton, List.singleton_append, List.find?_cons, hst,
          Bool.false_and]
        exact h.static m p hm
      · intro route' hroute'
        rcases (mem_routesWith S).mp hroute' with hold | rfl
        · obtain ⟨t, ht, hdynamic, hcompiled'⟩ := h.sound route' hold
          exact ⟨t, List.mem_append_left _ ht, hdynamic, hcompiled'⟩
        · exact ⟨s, List.mem_append_right _ (List.mem_cons_self ..), hst, hcompiled⟩
      · intro t ht hdynamic
        rcases List.mem_append.mp ht with ht | ht
        · obtain ⟨route', hroute', hcompiled'⟩ := h.complete t ht hdynamic
          exact ⟨route', (mem_routesWith S).mpr (.inl hroute'), hcompiled'⟩
        · rw [List.mem_singleton.mp ht]
          exact ⟨route, (mem_routesWith S).mpr (.inr rfl), hcompiled⟩
      · show (r.routesWith S route).Pairwise _
        rw [routesWith, if_pos h.sorting]
        exact S.ordered _ _

theorem HoldsRoutes.addRoutes (hE : E.ReadsAnchored) (S : CompareSort) :
    ∀ (more : List (SegmentRoute F)) {r : FastRouter E F} {routes : List (SegmentRoute F)},
      HoldsRoutes r routes → (∀ s ∈ more, byte ':' ∉ s.method) →
      ∃ r', addRoutes S r more = .ok r' ∧ HoldsRoutes r' (routes ++ more) := by
  intro more
  induction more with
  | nil =>
      intro r routes h _
      exact ⟨r, rfl, by rwa [List.append_nil]⟩
  | cons s more ih =>
      intro r routes h hcolon
      obtain ⟨r', hadd, h'⟩ := h.addRoute hE S (hcolon s (List.mem_cons_self ..))
      obtain ⟨r'', hmore, h''⟩ := ih h' (fun t ht => hcolon t (List.mem_cons_of_mem _ ht))
      refine ⟨r'', ?_, ?_⟩
      · rw [VHono.addRoutes, List.foldlM_cons, hadd]
        exact hmore
      · rwa [List.append_assoc] at h''

/-! ## Lookups -/

/-- What a lookup is to answer with: a route that matches, its bindings, a static route before a
    dynamic one, and a simplest one among these. -/
structure AnsweredBy (routes : List (SegmentRoute F)) (method path : ByteString)
    (result : ContextRouteMatch F) (r : SegmentRoute F) : Prop where
  registered : r ∈ routes
  handler : result.handler = r.handler
  matched : r.Matches method path
  params : ∀ caps, r.pattern.bindings path = some caps →
    ∀ name, result.params.get? name = caps.lookup name
  staticFirst : (∃ s ∈ routes, s.isStatic = true ∧ s.Matches method path) → r.isStatic = true
  simplest : r.isStatic = false → ∀ s ∈ routes, s.Matches method path → r.complexity ≤ s.complexity

theorem matches_static {r : SegmentRoute F} (h : r.isStatic = true) (method path : ByteString) :
    r.Matches method path ↔ r.method = method ∧ r.pattern.text = path := by
  refine and_congr_right' ⟨?_, ?_⟩
  · rintro ⟨caps, hcaps⟩
    exact ((bindings_static h).mp hcaps).1.symm
  · rintro rfl
    exact ⟨[], (bindings_static h).mpr ⟨rfl, rfl⟩⟩

/-- A static result found is that of a matching static route. -/
theorem HoldsRoutes.answers_static {r : FastRouter E F} {routes : List (SegmentRoute F)}
    (h : HoldsRoutes r routes) {method path : ByteString} (hm : byte ':' ∉ method)
    {result : ContextRouteMatch F}
    (hresult : r.staticRouteResults.get? (cacheKey method path) = some result) :
    ∃ s, AnsweredBy routes method path result s := by
  rw [h.static method path hm] at hresult
  obtain ⟨s, hfind, rfl⟩ := Option.map_eq_some_iff.mp hresult
  have htest := List.find?_some hfind
  rw [Bool.and_eq_true, decide_eq_true_eq] at htest
  refine ⟨s, {
    registered := List.mem_reverse.mp (List.mem_of_find?_eq_some hfind)
    handler := rfl
    matched := (matches_static htest.1 method path).mpr htest.2
    params := ?_
    staticFirst := fun _ => htest.1
    simplest := fun hdynamic => ?_ }⟩
  · intro caps hcaps name
    rw [((bindings_static htest.1).mp hcaps).2]
    rfl
  · rw [htest.1] at hdynamic
    exact Bool.noConfusion hdynamic

theorem HoldsRoutes.no_static {r : FastRouter E F} {routes : List (SegmentRoute F)}
    (h : HoldsRoutes r routes) {method path : ByteString} (hm : byte ':' ∉ method)
    (hnone : r.staticRouteResults.get? (cacheKey method path) = none) :
    ∀ s ∈ routes, s.isStatic = true → ¬s.Matches method path := by
  intro s hs hst hmatches
  rw [h.static method path hm, Option.map_eq_none_iff, List.find?_eq_none] at hnone
  have htest := hnone s (List.mem_reverse.mpr hs)
  rw [hst, Bool.true_and, decide_eq_true_eq] at htest
  exact htest ((matches_static hst method path).mp hmatches)

/-- The first serving route of the sorted list is a simplest one. -/
theorem HoldsRoutes.answers_dynamic (hE : E.ReadsAnchored) {r : FastRouter E F}
    {routes : List (SegmentRoute F)} (h : HoldsRoutes r routes) {method path : ByteString}
    (hstatic : ∀ s ∈ routes, s.isStatic = true → ¬s.Matches method path)
    {route : PrecompiledRoute E F}
    (hfirst : firstServing r.precompiledRoutes method path = some route) :
    ∃ s, AnsweredBy routes method path (route.result path) s := by
  obtain ⟨s, hs, hdynamic, hcompiled⟩ := h.sound route (List.mem_of_find?_eq_some hfirst)
  have hserves := List.find?_some hfirst
  have hmatched := (hcompiled.serves_iff hE method path).mp hserves
  refine ⟨s, {
    registered := hs
    handler := hcompiled.handler
    matched := hmatched
    params := fun caps hcaps name => hcompiled.params hE hcaps name
    staticFirst := fun ⟨t, ht, hst, hmatches⟩ => absurd hmatches (hstatic t ht hst)
    simplest := ?_ }⟩
  intro _ t ht hmatches
  cases hst : t.isStatic with
  | true => exact absurd hmatches (hstatic t ht hst)
  | false =>
      obtain ⟨route', hroute', hcompiled'⟩ := h.complete t ht hst
      have hserves' := (hcompiled'.serves_iff hE method path).mpr hmatches
      obtain ⟨-, before, after, hsplit, hbefore⟩ := List.find?_eq_some_iff_append.mp hfirst
      rw [← hcompiled.complexity, ← hcompiled'.complexity]
      have hsorted := h.sorted
      rw [hsplit] at hroute' hsorted
      rcases List.mem_append.mp hroute' with hin | hin
      · have hno := hbefore route' hin
        rw [hserves'] at hno
        exact absurd hno (by decide)
      · rcases List.mem_cons.mp hin with rfl | hin
        · exact Nat.le_refl _
        · exact (List.pairwise_cons.mp (List.pairwise_append.mp hsorted).2.1).1 route' hin

theorem readCache_uncached {r : FastRouter E F} (h : r.cacheEnabled = false) (key : ByteString)
    (now : Int) : r.readCache key now = (none, r) := by
  rw [readCache, h]
  rfl

/-- **THE MATCHING.**  Segment patterns registered in any order, whatever their methods: a lookup
    succeeds exactly if a pattern matches, and what it answers with is a matching route, its
    bindings, the static route where there is one, and one of the simplest otherwise. -/
theorem matchRoute_segments (hE : E.ReadsAnchored) (S : CompareSort) (fast lru now : Int)
    (routes : List (SegmentRoute F)) (hcolon : ∀ s ∈ routes, byte ':' ∉ s.method) :
    ∃ r : FastRouter E F, addRoutes S (uncachedRouter fast lru now) routes = .ok r ∧
      ∀ (method path : ByteString) (time : Int), byte ':' ∉ method →
        (((r.matchRoute method path time).1.isSome = true ↔
            ∃ s ∈ routes, s.Matches method path) ∧
          ∀ result, (r.matchRoute method path time).1 = some result →
            ∃ s, AnsweredBy routes method path result s) := by
  obtain ⟨r, hadd, h⟩ := (holdsRoutes_uncached (E := E) (F := F) fast lru now).addRoutes hE S routes
    hcolon
  rw [List.nil_append] at h
  refine ⟨r, hadd, ?_⟩
  intro method path time hm
  rw [matchRoute_missed (readCache_uncached h.uncached _ _)]
  cases hst : r.staticRouteResults.get? (cacheKey method path) with
  | some result =>
      obtain ⟨s, hs⟩ := h.answers_static hm hst
      refine ⟨⟨fun _ => ⟨s, hs.registered, hs.matched⟩, fun _ => rfl⟩, ?_⟩
      intro result' hresult'
      rw [← Option.some.inj hresult']
      exact ⟨s, hs⟩
  | none =>
      have hstatic := h.no_static hm hst
      dsimp only
      cases hfirst : firstServing r.precompiledRoutes method path with
      | some route =>
          obtain ⟨s, hs⟩ := h.answers_dynamic hE hstatic hfirst
          refine ⟨⟨fun _ => ⟨s, hs.registered, hs.matched⟩, fun _ => rfl⟩, ?_⟩
          intro result' hresult'
          rw [← Option.some.inj hresult']
          exact ⟨s, hs⟩
      | none =>
          refine ⟨⟨nofun, ?_⟩, nofun⟩
          rintro ⟨s, hs, hmatches⟩
          cases hdyn : s.isStatic with
          | true => exact absurd hmatches (hstatic s hs hdyn)
          | false =>
              obtain ⟨route, hroute, hcompiled⟩ := h.complete s hs hdyn
              exact absurd ((hcompiled.serves_iff hE method path).mpr hmatches)
                (List.find?_eq_none.mp hfirst route hroute)

/-- The routes `/users/:id` and `/users/me`. -/
def usersRoutes : List (SegmentRoute Nat) :=
  let users := PatternSegment.literal (ascii "users")
  [{ method := ascii "GET"
     pattern := ⟨[.literal [], users, .param (ascii "id")], List.cons_ne_nil _ _, by decide, by decide⟩
     handle := 0 },
   { method := ascii "GET"
     pattern := ⟨[.literal [], users, .literal (ascii "me")], List.cons_ne_nil _ _, by decide, by decide⟩
     handle := 1 }]

theorem matchRoute_segments_users :
    ∃ r : FastRouter pathEngine Nat,
      addRoutes .insertion (uncachedRouter 10 10 0) usersRoutes = .ok r ∧
      ((r.matchRoute (ascii "GET") (ascii "/users/7") 0).1.isSome = true ↔
        ∃ s ∈ usersRoutes, s.Matches (ascii "GET") (ascii "/users/7")) := by
  obtain ⟨r, hadd, hlookup⟩ := matchRoute_segments pathEngine_readsAnchored .insertion 10 10 0
    usersRoutes (by decide)
  exact ⟨r, hadd, (hlookup (ascii "GET") (ascii "/users/7") 0 (by decide)).1⟩

end VHono
