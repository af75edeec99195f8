import VHono.OpenApiPaths

/-! # What the generated paths say of the routes

    The document describes a route as the router has it exactly if every
    segment that begins with a colon is one name, no other segment has a name
    behind a colon or a pair of braces, and no name is replaced as the beginning
    of a longer one.  Where all routes are so, none is lost: distinct paths
    stay distinct. -/

namespace VHono

open ByteString PathExpressions PathSegments PathTemplates

/-! ## Lists of parts -/

namespace RouteDescriptions

theorem eq_of_flatMap {α β : Type} {f g : α → List β} {l : List α}
    (hsub : ∀ a ∈ l, List.Sublist (f a) (g a)) (h : l.flatMap f = l.flatMap g) :
    ∀ a ∈ l, f a = g a := by
  induction l with
  | nil => exact fun _ ha => (by cases ha)
  | cons a l ih =>
      have hhead := hsub a (List.mem_cons_self ..)
      have htail : ∀ b ∈ l, List.Sublist (f b) (g b) :=
        fun b hb => hsub b (List.mem_cons_of_mem _ hb)
      have hrest : (l.flatMap f).length ≤ (l.flatMap g).length := by
        rw [List.length_flatMap, List.length_flatMap]
        exact List.sum_le_sum (fun b hb => (htail b hb).length_le)
      rw [List.flatMap_cons, List.flatMap_cons] at h
      -- no list can make up in one place what it lacks in another
      have hlen := congrArg List.length h
      rw [List.length_append, List.length_append] at hlen
      have hsame : f a = g a := hhead.eq_of_length (by have := hhead.length_le; omega)
      rw [hsame] at h
      intro b hb
      rcases List.mem_cons.mp hb with rfl | hb
      · exact hsame
      · exact ih htail (List.append_cancel_left h) b hb

theorem eq_of_map {α β : Type} {f : α → β} {l l' : List α}
    (hinj : ∀ a ∈ l, ∀ b ∈ l', f a = f b → a = b) (h : l.map f = l'.map f) : l = l' := by
  induction l generalizing l' with
  | nil => exact (List.map_eq_nil_iff.mp h.symm).symm
  | cons a l ih =>
      cases l' with
      | nil => cases h
      | cons b l' =>
          obtain ⟨hhead, htail⟩ := List.cons.inj h
          rw [hinj a (List.mem_cons_self ..) b (List.mem_cons_self ..) hhead,
            ih (fun c hc d hd => hinj c (List.mem_cons_of_mem _ hc) d (List.mem_cons_of_mem _ hd))
              htail]

/-! ## One path -/

/-- What a path must be for the document to describe it. -/
structure Describable (path : ByteString) : Prop where
  names : ∀ s ∈ segments path, isParamSegment s = true → identifier (s.drop 1) = s.drop 1
  plain : ∀ s ∈ segments path, isParamSegment s = false → NamesNothing s ∧ HoldsNoBraces s
  first : ∀ name ∈ extractPathParams path,
    (extractPathParams path).find? (startsWith name) = some name

/-- The router and the document agree on a path. -/
structure PathDescribed (path : ByteString) : Prop where
  bound     : extractPathParams path = paramNames path
  converted : convertPathToOpenapiFormat path = unite ((segments path).map brace)
  declared  : extractPathParams path = placeholders (convertPathToOpenapiFormat path)

/-- The name of a segment, if it is a parameter. -/
def ownName (segment : ByteString) : List ByteString :=
  if isParamSegment segment = true then [segment.drop 1] else []

theorem extractPathParams_eq (path : ByteString) :
    extractPathParams path = (segments path).flatMap ownName := by
  rw [extractPathParams]
  induction segments path with
  | nil => rfl
  | cons s parts ih =>
      rw [List.flatMap_cons, ← ih, ownName, List.filter_cons]
      split <;> rfl

section
variable {path : ByteString}

theorem param_parts {s : ByteString} (hs : isParamSegment s = true)
    (hname : identifier (s.drop 1) = s.drop 1) :
    ∃ name, s = byte ':' :: name ∧ name ≠ [] ∧ identifier name = name ∧
      byte ':' ∉ name ∧ byte '\x7d' ∉ name ∧ byte '/' ∉ name := by
  obtain ⟨name, hne, rfl⟩ := isParamSegment_iff.mp hs
  have hpart := (identifier_part hne hname).2
  exact ⟨name, rfl, hne, hname, fun h => absurd (hpart _ h) (by decide),
    fun h => absurd (hpart _ h) (by decide), fun h => absurd (hpart _ h) (by decide)⟩

/-- The extractor and the router agree exactly if parameters are names and nothing else is. -/
theorem bound_iff : extractPathParams path = paramNames path ↔
    (∀ s ∈ segments path, isParamSegment s = true → identifier (s.drop 1) = s.drop 1) ∧
      ∀ s ∈ segments path, isParamSegment s = false → NamesNothing s := by
  have hparam : ∀ s, isParamSegment s = true → identifier (s.drop 1) = s.drop 1 →
      ownName s = paramNames s := by
    intro s hs hname
    obtain ⟨name, rfl, hne, hname, -⟩ := param_parts hs hname
    rw [ownName, if_pos hs, paramNames_param hne hname]
    rfl
  rw [extractPathParams_eq, paramNames_segments]
  constructor
  · intro h
    have hnames : ∀ s ∈ segments path, isParamSegment s = true →
        identifier (s.drop 1) = s.drop 1 := by
      intro s hs hseg
      have hmem : s.drop 1 ∈ (segments path).flatMap ownName := by
        refine List.mem_flatMap.mpr ⟨s, hs, ?_⟩
        rw [ownName, if_pos hseg]
        exact List.mem_singleton.mpr rfl
      rw [h] at hmem
      obtain ⟨t, -, ht⟩ := List.mem_flatMap.mp hmem
      exact (mem_paramNames ht).2
    refine ⟨hnames, fun s hs hseg => (namesNothing_iff s).mp ?_⟩
    -- the router names at least what the segments name, so both lists are equal piece by piece
    have hsub : ∀ t ∈ segments path, List.Sublist (ownName t) (paramNames t) := by
      intro t ht
      by_cases htseg : isParamSegment t = true
      · rw [hparam t htseg (hnames t ht htseg)]
      · rw [ownName, if_neg htseg]
        exact List.nil_sublist _
    rw [← eq_of_flatMap hsub h s hs, ownName, if_neg (by rw [hseg]; decide)]
  · rintro ⟨hnames, hplain⟩
    refine List.flatMap_congr (fun s hs => ?_)
    by_cases hseg : isParamSegment s = true
    · exact hparam s hseg (hnames s hs hseg)
    · rw [ownName, if_neg hseg,
        (namesNothing_iff s).mpr (hplain s hs (Bool.eq_false_iff.mpr hseg))]

theorem brace_noSlash {s : ByteString} (hs : byte '/' ∉ s) : byte '/' ∉ brace s := by
  rw [brace]
  split
  · intro hmem
    rcases List.mem_cons.mp hmem with heq | hmem
    · exact absurd heq (by decide)
    · rcases List.mem_append.mp hmem with hname | hclose
      · exact hs (List.mem_of_mem_drop hname)
      · exact absurd (List.mem_singleton.mp hclose) (by decide)
  · exact hs

theorem segments_braced (path : ByteString) :
    segments (unite ((segments path).map brace)) = (segments path).map brace := by
  refine segments_unite (fun hnil => segments_ne_nil path (List.map_eq_nil_iff.mp hnil)) ?_
  intro t ht
  obtain ⟨s, hs, rfl⟩ := List.mem_map.mp ht
  exact brace_noSlash (not_slash_of_mem_segments s hs)

/-- The first of the names that a name begins with is the name itself, or it is replaced by
    another. -/
theorem braced_iff {names : List ByteString} {name : ByteString}
    (hmem : name ∈ names) (hclose : byte '\x7d' ∉ name) :
    (match names.find? (startsWith name) with
      | some other => inBraces other ++ name.drop other.length
      | none => byte ':' :: name) = inBraces name ↔ names.find? (startsWith name) = some name := by
  cases hfind : names.find? (startsWith name) with
  | none =>
      have hself := List.find?_eq_none.mp hfind name hmem
      rw [startsWith_iff] at hself
      exact absurd (List.prefix_refl name) hself
  | some other =>
      obtain ⟨rest, hrest⟩ := startsWith_iff.mp (List.find?_some hfind)
      have hdrop : name.drop other.length = rest := by
        rw [← hrest, List.drop_left]
      show inBraces other ++ name.drop other.length = inBraces name ↔ some other = some name
      rw [hdrop]
      constructor
      · -- a rest behind the shorter name would begin with the closing brace
        intro h
        rw [← hrest] at h ⊢
        have htail : (other ++ [byte '\x7d']) ++ rest = (other ++ rest) ++ [byte '\x7d'] :=
          (List.cons.inj h).2
        rw [List.append_assoc, List.append_assoc] at htail
        have hmove : byte '\x7d' :: rest = rest ++ [byte '\x7d'] := List.append_cancel_left htail
        cases rest with
        | nil => rw [List.append_nil]
        | cons b rest =>
            obtain ⟨rfl, -⟩ := List.cons.inj hmove
            rw [← hrest] at hclose
            exact absurd (List.mem_append_right _ (List.mem_cons_self ..)) hclose
      · intro h
        obtain rfl := Option.some.inj h
        obtain rfl : rest = [] :=
          List.append_cancel_left (hrest.trans (List.append_nil _).symm)
        exact List.append_nil _

theorem foldl_noSlash {names : List ByteString} (hnames : ∀ name ∈ names, byte '/' ∉ name)
    {s : ByteString} (hs : byte '/' ∉ s) : byte '/' ∉ names.foldl bracedName s := by
  induction names generalizing s with
  | nil => exact hs
  | cons name names ih =>
      refine ih (fun other hother => hnames other (List.mem_cons_of_mem _ hother)) (fun hmem => ?_)
      rcases mem_replaceFrom hmem with hold | hnew
      · exact hs hold
      · rcases List.mem_cons.mp hnew with heq | hnew
        · exact absurd heq (by decide)
        · rcases List.mem_append.mp hnew with hname | hclose
          · exact hnames name (List.mem_cons_self ..) hname
          · exact absurd (List.mem_singleton.mp hclose) (by decide)

theorem name_facts
    (hnames : ∀ s ∈ segments path, isParamSegment s = true → identifier (s.drop 1) = s.drop 1)
    {name : ByteString} (hname : name ∈ extractPathParams path) :
    name ≠ [] ∧ identifier name = name ∧
      byte ':' ∉ name ∧ byte '\x7d' ∉ name ∧ byte '/' ∉ name := by
  obtain ⟨s, hs, rfl⟩ := List.mem_map.mp hname
  obtain ⟨hmem, hseg⟩ := List.mem_filter.mp hs
  obtain ⟨name, rfl, hfacts⟩ := param_parts hseg (hnames s hmem hseg)
  exact hfacts

theorem mem_extractPathParams {s : ByteString} (hs : s ∈ segments path)
    (hseg : isParamSegment s = true) : s.drop 1 ∈ extractPathParams path :=
  List.mem_map.mpr ⟨s, List.mem_filter.mpr ⟨hs, hseg⟩, rfl⟩

/-- A segment is converted as it should be, if it is no parameter or its name is not replaced as the
    beginning of a longer one. -/
theorem segment_converted_iff
    (hnames : ∀ s ∈ segments path, isParamSegment s = true → identifier (s.drop 1) = s.drop 1)
    (hplain : ∀ s ∈ segments path, isParamSegment s = false → NamesNothing s)
    {s : ByteString} (hs : s ∈ segments path) :
    (extractPathParams path).foldl bracedName s = brace s ↔
      (isParamSegment s = true →
        (extractPathParams path).find? (startsWith (s.drop 1)) = some (s.drop 1)) := by
  by_cases hseg : isParamSegment s = true
  · rw [brace, if_pos hseg]
    obtain ⟨name, -, rfl⟩ := isParamSegment_iff.mp hseg
    have hmem : name ∈ extractPathParams path := mem_extractPathParams hs hseg
    obtain ⟨-, -, hcolon, hclose, -⟩ := name_facts hnames hmem
    rw [foldl_bracedName_param hcolon (fun other hother => (name_facts hnames hother).2.2.1)]
    exact (braced_iff hmem hclose).trans ⟨fun h _ => h, fun h => h hseg⟩
  · have hfree := foldl_bracedName_literal (hplain s hs (Bool.eq_false_iff.mpr hseg))
      (fun other hother => ⟨(name_facts hnames hother).1, (name_facts hnames hother).2.1⟩)
    rw [brace, if_neg hseg, hfree]
    exact iff_of_true rfl (fun h => absurd h hseg)

/-- Once parameters are names and nothing else is, the conversion is right exactly if no name is
    replaced as the beginning of a longer one. -/
theorem converted_iff
    (hnames : ∀ s ∈ segments path, isParamSegment s = true → identifier (s.drop 1) = s.drop 1)
    (hplain : ∀ s ∈ segments path, isParamSegment s = false → NamesNothing s) :
    convertPathToOpenapiFormat path = unite ((segments path).map brace) ↔
      ∀ name ∈ extractPathParams path,
        (extractPathParams path).find? (startsWith name) = some name := by
  -- no slash is put in, so the two paths are equal segment by segment
  have hlists : convertPathToOpenapiFormat path = unite ((segments path).map brace) ↔
      ∀ s ∈ segments path, (extractPathParams path).foldl bracedName s = brace s := by
    rw [← List.map_inj_left, convert_eq]
    refine ⟨fun h => ?_, fun h => by rw [h]⟩
    have hslash : ∀ t ∈ (segments path).map ((extractPathParams path).foldl bracedName),
        byte '/' ∉ t := by
      intro t ht
      obtain ⟨s, hs, rfl⟩ := List.mem_map.mp ht
      exact foldl_noSlash (fun other hother => (name_facts hnames hother).2.2.2.2)
        (not_slash_of_mem_segments s hs)
    have hne : (segments path).map ((extractPathParams path).foldl bracedName) ≠ [] :=
      fun hnil => segments_ne_nil path (List.map_eq_nil_iff.mp hnil)
    rw [← segments_unite hne hslash, h, segments_braced]
  rw [hlists]
  constructor
  · intro h name hname
    obtain ⟨s, hs, rfl⟩ := List.mem_map.mp hname
    obtain ⟨hmem, hseg⟩ := List.mem_filter.mp hs
    exact (segment_converted_iff hnames hplain hmem).mp (h s hmem) hseg
  · intro h s hs
    exact (segment_converted_iff hnames hplain hs).mpr
      (fun hseg => h _ (mem_extractPathParams hs hseg))

/-- Once the conversion is right, the placeholders are the parameters exactly if no other segment
    holds braces. -/
theorem declared_iff
    (hnames : ∀ s ∈ segments path, isParamSegment s = true → identifier (s.drop 1) = s.drop 1)
    (hconverted : convertPathToOpenapiFormat path = unite ((segments path).map brace)) :
    extractPathParams path = placeholders (convertPathToOpenapiFormat path) ↔
      ∀ s ∈ segments path, isParamSegment s = false → HoldsNoBraces s := by
  have hparam : ∀ s ∈ segments path, isParamSegment s = true →
      ownName s = segmentPlaceholders (brace s) := by
    intro s hs hseg
    obtain ⟨name, rfl, -, -, -, hclose, -⟩ := param_parts hseg (hnames s hs hseg)
    rw [ownName, if_pos hseg, brace, if_pos hseg]
    exact (segmentPlaceholders_inBraces hclose).symm
  rw [hconverted, placeholders, segments_braced, List.flatMap_map, extractPathParams_eq]
  constructor
  · intro h s hs hseg
    have hsub : ∀ t ∈ segments path,
        List.Sublist (ownName t) (segmentPlaceholders (brace t)) := by
      intro t ht
      by_cases htseg : isParamSegment t = true
      · rw [hparam t ht htseg]
      · rw [ownName, if_neg htseg]
        exact List.nil_sublist _
    have hsame := eq_of_flatMap hsub h s hs
    have hno : ¬isParamSegment s = true := by rw [hseg]; decide
    rw [ownName, if_neg hno, brace, if_neg hno] at hsame
    exact (holdsNoBraces_iff s).mp hsame.symm
  · intro h
    refine List.flatMap_congr (fun s hs => ?_)
    by_cases hseg : isParamSegment s = true
    · exact hparam s hs hseg
    · have hnone := (holdsNoBraces_iff s).mpr (h s hs (Bool.eq_false_iff.mpr hseg))
      rw [ownName, if_neg hseg, brace, if_neg hseg, hnone]

/-- **ONE PATH** is described exactly if it is of the form that all three extractors read alike. -/
theorem pathDescribed_iff : PathDescribed path ↔ Describable path := by
  constructor
  · intro h
    obtain ⟨hnames, hnothing⟩ := bound_iff.mp h.bound
    have hbraces := (declared_iff hnames h.converted).mp h.declared
    exact ⟨hnames, fun s hs hseg => ⟨hnothing s hs hseg, hbraces s hs hseg⟩,
      (converted_iff hnames hnothing).mp h.converted⟩
  · intro h
    have hnothing : ∀ s ∈ segments path, isParamSegment s = false → NamesNothing s :=
      fun s hs hseg => (h.plain s hs hseg).1
    have hconverted := (converted_iff h.names hnothing).mpr h.first
    exact ⟨bound_iff.mpr ⟨h.names, hnothing⟩, hconverted,
      (declared_iff h.names hconverted).mpr (fun s hs hseg => (h.plain s hs hseg).2)⟩

/-- Described paths stay distinct. -/
theorem Describable.injective {path path' : ByteString} (h : Describable path)
    (h' : Describable path')
    (hsame : convertPathToOpenapiFormat path = convertPathToOpenapiFormat path') :
    path = path' := by
  rw [(pathDescribed_iff.mpr h).converted, (pathDescribed_iff.mpr h').converted] at hsame
  have hmaps := congrArg segments hsame
  rw [segments_braced, segments_braced] at hmaps
  -- a literal segment is no name in braces
  have hliteral : ∀ {s name : ByteString}, HoldsNoBraces s → s ≠ inBraces name := by
    rintro _ name hs rfl
    exact hs [] (name ++ [byte '\x7d']) rfl (List.mem_append_right _ (List.mem_singleton.mpr rfl))
  have hinj : ∀ s ∈ segments path, ∀ s' ∈ segments path', brace s = brace s' → s = s' := by
    intro s hs s' hs' hbrace
    rw [brace, brace] at hbrace
    by_cases hseg : isParamSegment s = true
    · rw [if_pos hseg] at hbrace
      by_cases hseg' : isParamSegment s' = true
      · rw [if_pos hseg'] at hbrace
        obtain ⟨name, -, rfl⟩ := isParamSegment_iff.mp hseg
        obtain ⟨name', -, rfl⟩ := isParamSegment_iff.mp hseg'
        have hnames : name = name' := List.append_cancel_right (List.cons.inj hbrace).2
        rw [hnames]
      · rw [if_neg hseg'] at hbrace
        exact absurd hbrace.symm (hliteral (h'.plain s' hs' (Bool.eq_false_iff.mpr hseg')).2)
    · rw [if_neg hseg] at hbrace
      by_cases hseg' : isParamSegment s' = true
      · rw [if_pos hseg'] at hbrace
        exact absurd hbrace (hliteral (h.plain s hs (Bool.eq_false_iff.mpr hseg)).2)
      · rw [if_neg hseg'] at hbrace
        exact hbrace
  have hsegments := eq_of_map hinj hmaps
  rw [← unite_segments path, hsegments, unite_segments]

end

/-! ## The document -/

section
variable {V F : Type} [Zero V]

/-- The operation of a method. -/
def operation (item : OpenAPIPathItem V) : RouteMethod → OpenAPIOperation V
  | .get => item.get
  | .post => item.post
  | .put => item.put
  | .delete => item.delete
  | .patch => item.patch
  | .head => item.head
  | .options => item.options

/-- The names of the path parameters that an operation declares. -/
def declaredParams (operation : OpenAPIOperation V) : List ByteString :=
  (operation.parameters.filter (fun p => decide (p.inLocation = ascii "path"))).map (·.name)

theorem operation_setOperation (item : OpenAPIPathItem V) (method m : RouteMethod)
    (op : OpenAPIOperation V) : operation (item.setOperation method.str op) m
      = if m = method then op else operation item m := by
  cases method <;> cases m <;> rfl

theorem declaredParams_operationOf (route : RouteInfo F) :
    declaredParams (operationOf (V := V) route) = route.pathParams := by
  rw [declaredParams, operationOf]
  induction route.pathParams with
  | nil => rfl
  | cons name names ih => exact congrArg (name :: ·) ih

/-- What the items hold after some routes: an operation for each of them, made of it or of one that
    came later for the same item and method, and no others. -/
structure HoldsRoutes (routes : List (RouteInfo F))
    (paths : InsertionMap ByteString (OpenAPIPathItem V)) : Prop where
  held : ∀ r ∈ routes, ∃ item, paths.get? (convertPathToOpenapiFormat r.path) = some item ∧
    ∀ m : RouteMethod, r.method = m.str → ∃ r' ∈ routes,
      convertPathToOpenapiFormat r'.path = convertPathToOpenapiFormat r.path ∧
      r'.method = r.method ∧ operation item m = operationOf r'
  only : ∀ (path : ByteString) (item : OpenAPIPathItem V) (m : RouteMethod),
    paths.get? path = some item → operation item m = {} ∨ ∃ r ∈ routes,
      convertPathToOpenapiFormat r.path = path ∧ r.method = m.str ∧ operation item m = operationOf r

theorem get?_addRouteOperation (paths : InsertionMap ByteString (OpenAPIPathItem V))
    (route : RouteInfo F) (path : ByteString) : (addRouteOperation paths route).get? path
      = if path = convertPathToOpenapiFormat route.path
        then some (((paths.get? path).getD {}).setOperation route.method (operationOf route))
        else paths.get? path := by
  rw [addRouteOperation, InsertionMap.get?_insert]
  split
  · rename_i hpath
    rw [hpath]
  · rfl

section
variable {routes : List (RouteInfo F)} {paths : InsertionMap ByteString (OpenAPIPathItem V)}
  {route : RouteInfo F} {method : RouteMethod}

/-- The new route has its operation; an older one keeps its own unless the new one has its item and
    method. -/
theorem held_add (h : HoldsRoutes routes paths) (hmethod : route.method = method.str)
    {r : RouteInfo F} (hr : r ∈ routes ++ [route]) :
    ∃ item, (addRouteOperation paths route).get? (convertPathToOpenapiFormat r.path) = some item ∧
      ∀ m : RouteMethod, r.method = m.str → ∃ r' ∈ routes ++ [route],
        convertPathToOpenapiFormat r'.path = convertPathToOpenapiFormat r.path ∧
        r'.method = r.method ∧ operation item m = operationOf r' := by
  have hlast : route ∈ routes ++ [route] := List.mem_append_right _ (List.mem_singleton.mpr rfl)
  rw [get?_addRouteOperation, hmethod]
  by_cases hpath : convertPathToOpenapiFormat r.path = convertPathToOpenapiFormat route.path
  · rw [if_pos hpath]
    refine ⟨_, rfl, fun m hm => ?_⟩
    rw [operation_setOperation]
    by_cases hsame : m = method
    · rw [if_pos hsame]
      exact ⟨route, hlast, hpath.symm, by rw [hm, hmethod, hsame], rfl⟩
    · rw [if_neg hsame]
      rcases List.mem_append.mp hr with hold | hnew
      · obtain ⟨item, hitem, hops⟩ := h.held r hold
        obtain ⟨r', hr', hsame'⟩ := hops m hm
        rw [hitem]
        exact ⟨r', List.mem_append_left _ hr', hsame'⟩
      · obtain rfl := List.mem_singleton.mp hnew
        exact absurd (RouteMethod.str_inj (hm.symm.trans hmethod)) hsame
  · rw [if_neg hpath]
    rcases List.mem_append.mp hr with hold | hnew
    · obtain ⟨item, hitem, hops⟩ := h.held r hold
      refine ⟨item, hitem, fun m hm => ?_⟩
      obtain ⟨r', hr', hsame'⟩ := hops m hm
      exact ⟨r', List.mem_append_left _ hr', hsame'⟩
    · obtain rfl := List.mem_singleton.mp hnew
      exact absurd rfl hpath

/-- An operation of an item is one it had, or the new one. -/
theorem only_add (h : HoldsRoutes routes paths) (hmethod : route.method = method.str)
    {path : ByteString} {item : OpenAPIPathItem V} (m : RouteMethod)
    (hitem : (addRouteOperation paths route).get? path = some item) :
    operation item m = {} ∨ ∃ r ∈ routes ++ [route],
      convertPathToOpenapiFormat r.path = path ∧ r.method = m.str ∧
        operation item m = operationOf r := by
  have hbefore : ∀ item', paths.get? path = some item' → operation item' m = {} ∨
      ∃ r ∈ routes ++ [route], convertPathToOpenapiFormat r.path = path ∧ r.method = m.str ∧
        operation item' m = operationOf r := by
    intro item' hitem'
    rcases h.only path item' m hitem' with hnone | ⟨r, hr, hfacts⟩
    · exact .inl hnone
    · exact .inr ⟨r, List.mem_append_left _ hr, hfacts⟩
  rw [get?_addRouteOperation, hmethod] at hitem
  by_cases hpath : path = convertPathToOpenapiFormat route.path
  · rw [if_pos hpath] at hitem
    rw [← Option.some.inj hitem, operation_setOperation]
    by_cases hsame : m = method
    · rw [if_pos hsame]
      exact .inr ⟨route, List.mem_append_right _ (List.mem_singleton.mpr rfl), hpath.symm,
        by rw [hmethod, hsame], rfl⟩
    · rw [if_neg hsame]
      cases hold : paths.get? path with
      | none =>
          -- the item is new, and its other operations are not set
          refine .inl ?_
          cases m <;> rfl
      | some item' => exact hbefore item' hold
  · rw [if_neg hpath] at hitem
    exact hbefore item hitem

end

/-- **EVERY ROUTE** has its operation after the whole loop. -/
theorem holdsRoutes_generate (routes : List (RouteInfo F))
    (h : ∀ r ∈ routes, ∃ m : RouteMethod, r.method = m.str) :
    HoldsRoutes routes (generateOpenapiPaths (V := V) routes) := by
  induction routes using List.reverseRecOn with
  | nil =>
      constructor
      · exact fun _ hr => (by cases hr)
      · intro path item m hitem
        rw [generateOpenapiPaths, List.foldl_nil, InsertionMap.get?_empty] at hitem
        cases hitem
  | append_singleton routes route ih =>
      obtain ⟨method, hmethod⟩ := h route (List.mem_append_right _ (List.mem_singleton.mpr rfl))
      have hbefore := ih (fun r hr => h r (List.mem_append_left _ hr))
      rw [generateOpenapiPaths, List.foldl_append]
      exact ⟨fun r hr => held_add hbefore hmethod hr,
        fun path item m hitem => only_add hbefore hmethod m hitem⟩

/-- The document describes the routes as the router has them. -/
structure Describes (V : Type) [Zero V] (routes : List (RouteInfo F)) : Prop where
  bound     : ∀ r ∈ routes, r.pathParams = paramNames r.path
  converted : ∀ r ∈ routes,
    convertPathToOpenapiFormat r.path = unite ((segments r.path).map brace)
  declared  : ∀ (path : ByteString) (item : OpenAPIPathItem V) (m : RouteMethod),
    (generateOpenapiPaths routes).get? path = some item →
      (operation item m).responses.entries ≠ [] →
        declaredParams (operation item m) = placeholders path
  kept      : ∀ r ∈ routes, ∃ item : OpenAPIPathItem V,
    (generateOpenapiPaths routes).get? (convertPathToOpenapiFormat r.path) = some item ∧
      ∀ m : RouteMethod, r.method = m.str → operation item m = operationOf r
  apart     : ∀ r ∈ routes, ∀ r' ∈ routes, r.method = r'.method →
    convertPathToOpenapiFormat r.path = convertPathToOpenapiFormat r'.path → r.path = r'.path

end

/-! ## The routes of an application -/

section
variable {E : RegexEngine} {M F : Type}

theorem mem_getRoutes {app : Hono E M F} {r : RouteInfo F} : r ∈ app.getRoutes ↔
    ∃ m : RouteMethod, ∃ handler ∈ app.handlers m, r =
      { path := handler.path, method := m.str
        pathParams := extractPathParams handler.path, handler := handler } := by
  have hlist : ∀ m : RouteMethod, r ∈ routesOf m (app.handlers m) ↔
      ∃ handler ∈ app.handlers m, r =
        { path := handler.path, method := m.str
          pathParams := extractPathParams handler.path, handler := handler } := by
    intro m
    rw [routesOf, List.mem_map]
    exact exists_congr (fun handler => and_congr_right (fun _ => eq_comm))
  constructor
  · intro hr
    simp only [Hono.getRoutes, List.mem_append] at hr
    rcases hr with (((((hr | hr) | hr) | hr) | hr) | hr) | hr
    · exact ⟨.get, (hlist .get).mp hr⟩
    · exact ⟨.post, (hlist .post).mp hr⟩
    · exact ⟨.put, (hlist .put).mp hr⟩
    · exact ⟨.delete, (hlist .delete).mp hr⟩
    · exact ⟨.patch, (hlist .patch).mp hr⟩
    · exact ⟨.head, (hlist .head).mp hr⟩
    · exact ⟨.options, (hlist .options).mp hr⟩
  · rintro ⟨m, hm⟩
    have hr := (hlist m).mpr hm
    simp only [Hono.getRoutes, List.mem_append]
    cases m with
    | get => exact .inl (.inl (.inl (.inl (.inl (.inl hr)))))
    | post => exact .inl (.inl (.inl (.inl (.inl (.inr hr)))))
    | put => exact .inl (.inl (.inl (.inl (.inr hr))))
    | delete => exact .inl (.inl (.inl (.inr hr)))
    | patch => exact .inl (.inl (.inr hr))
    | head => exact .inl (.inr hr)
    | options => exact .inr hr

theorem mem_register (app : Hono E M F) (S : CompareSort) (m : RouteMethod)
    (base path : ByteString) (handler : F) :
    (⟨path, handler⟩ : IHandler F) ∈ (app.register S m base path handler).handlers m := by
  simp only [Hono.register, Hono.pushHandler, Function.update_self]
  exact List.mem_append_right _ (List.mem_singleton.mpr rfl)

/-- **THE DOCUMENT DESCRIBES THE ROUTER** exactly if the path of every handler is of the form that
    all three extractors read alike. -/
theorem describes_iff (V : Type) [Zero V] (app : Hono E M F) :
    Describes V app.getRoutes ↔
      ∀ (m : RouteMethod), ∀ handler ∈ app.handlers m, Describable handler.path := by
  have hmethods : ∀ r ∈ app.getRoutes, ∃ m : RouteMethod, r.method = m.str := by
    intro r hr
    obtain ⟨m, handler, -, rfl⟩ := mem_getRoutes.mp hr
    exact ⟨m, rfl⟩
  have hparams : ∀ r ∈ app.getRoutes, r.pathParams = extractPathParams r.path := by
    intro r hr
    obtain ⟨m, handler, -, rfl⟩ := mem_getRoutes.mp hr
    rfl
  have hholds := holdsRoutes_generate (V := V) app.getRoutes hmethods
  constructor
  · intro h m handler hhandler
    have hr := mem_getRoutes.mpr ⟨m, handler, hhandler, rfl⟩
    obtain ⟨item, hitem, hops⟩ := h.kept _ hr
    have hop := hops m rfl
    have hdeclared := h.declared _ item m hitem (by rw [hop]; exact List.cons_ne_nil _ _)
    rw [hop, declaredParams_operationOf] at hdeclared
    exact pathDescribed_iff.mp ⟨h.bound _ hr, h.converted _ hr, hdeclared⟩
  · intro h
    have hpath : ∀ r ∈ app.getRoutes, Describable r.path := by
      intro r hr
      obtain ⟨m, handler, hhandler, rfl⟩ := mem_getRoutes.mp hr
      exact h m handler hhandler
    have hdescribed := fun r hr => pathDescribed_iff.mpr (hpath r hr)
    refine ⟨fun r hr => ?_, fun r hr => (hdescribed r hr).converted, ?_, ?_, ?_⟩
    · rw [hparams r hr]
      exact (hdescribed r hr).bound
    · -- an operation with responses was made of a route with this very path
      intro path item m hitem hset
      rcases hholds.only path item m hitem with hnone | ⟨r, hr, hconvert, -, hop⟩
      · rw [hnone] at hset
        exact absurd rfl hset
      · rw [hop, declaredParams_operationOf, hparams r hr, ← hconvert]
        exact (hdescribed r hr).declared
    · intro r hr
      obtain ⟨item, hitem, hops⟩ := hholds.held r hr
      refine ⟨item, hitem, fun m hm => ?_⟩
      obtain ⟨r', hr', hconvert, -, hop⟩ := hops m hm
      have hsame : r'.path = r.path := (hpath r' hr').injective (hpath r hr) hconvert
      have hnames : r'.pathParams = r.pathParams := by rw [hparams r' hr', hparams r hr, hsame]
      rw [hop, operationOf, operationOf, hnames]
    · exact fun r hr r' hr' _ hconvert => (hpath r hr).injective (hpath r' hr') hconvert

/-- The router binds `name` of `/files/:name.txt`, the route list says `name.txt`. -/
theorem extension_listed : ¬∀ app : Hono pathEngine Unit Unit, Describes Int app.getRoutes := by
  intro h
  have hhandler := mem_register (Hono.new 0 : Hono pathEngine Unit Unit) .insertion .get []
    (ascii "/files/:name.txt") ()
  have hr := mem_getRoutes.mpr ⟨.get, _, hhandler, rfl⟩
  have hbound := (h _).bound _ hr
  exact absurd hbound (by decide)

end

end RouteDescriptions

end VHono
