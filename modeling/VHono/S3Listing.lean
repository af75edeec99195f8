import VHono.S3Document

/-! # Listings of the storage

    The parser returns the objects, the prefixes, the flag and the token as
    they stand in the document of a listing.  It resolves no entities: the
    listing itself comes back exactly if no key, tag, prefix or token had to be
    escaped. -/

namespace VHono

open ByteString NumberTexts CheckedSlices Markup XmlExtraction

namespace S3Listing

/-! ## An object -/

/-- Names of elements of which no tag of one is a tag of the other. -/
def Distinct (name other : ByteString) : Prop :=
  name ≠ other ∧ name ≠ byte '/' :: other ∧ byte '/' :: name ≠ other

instance distinctDecidable (name other : ByteString) : Decidable (Distinct name other) :=
  inferInstanceAs (Decidable (_ ∧ _))

/-- An element of another name is passed over. -/
theorem inside_leaf_append {name other content : ByteString} (hname : Clean name)
    (hother : Distinct name other) {behind : List Piece}
    (hsound : Sound (leaf other content ++ behind)) :
    inside name (render (leaf other content ++ behind)) = inside name (render behind) :=
  inside_append hname hsound (tag_not_mem_leaf hother.1 hother.2.1)
    (tag_not_mem_leaf hother.2.2 (fun heq => hother.1 (List.cons.inj heq).2))

/-- Other elements are passed over. -/
theorem inside_foreign_append {tags : List ByteString} {name : ByteString} (hname : Clean name)
    (hopen : name ∈ tags) (hclose : byte '/' :: name ∈ tags) {pieces behind : List Piece}
    (hpieces : Foreign tags pieces) (hsound : Sound (pieces ++ behind)) :
    inside name (render (pieces ++ behind)) = inside name (render behind) :=
  inside_append hname hsound (hpieces.other _ hopen) (hpieces.other _ hclose)

theorem lt_not_mem_decimal (n : Nat) : byte '<' ∉ decimal n := by
  intro h
  exact absurd (isDigitByte_of_mem_decimal h) (by decide)

theorem sound_element {name : ByteString} (hname : Clean name) {inner : List Piece}
    (hinner : Sound inner) : Sound (element name inner) :=
  sound_cons.mpr ⟨hname, sound_append.mpr
    ⟨hinner, sound_cons.mpr ⟨hname.close, List.forall_mem_nil _⟩⟩⟩

namespace ListedObject

variable (o : ListedObject)

theorem sound_inner : Sound o.inner := by
  have hkey : Sound (leaf (ascii "Key") (escape o.key)) :=
    sound_leaf (by decide) (lt_not_mem_escape o.key)
  have hmodified : Sound (leaf (ascii "LastModified") (escape o.lastModified)) :=
    sound_leaf (by decide) (lt_not_mem_escape o.lastModified)
  have hetag : Sound (leaf (ascii "ETag") (escape o.etag)) :=
    sound_leaf (by decide) (lt_not_mem_escape o.etag)
  have hsize : Sound (leaf (ascii "Size") (decimal o.size)) :=
    sound_leaf (by decide) (lt_not_mem_decimal o.size)
  rw [inner]
  simp only [sound_append]
  exact ⟨hkey, hmodified, hetag, o.checksums_ok.sound, hsize, o.others_ok.sound⟩

/-- What the parser makes of an object. -/
def asRead (now : Int) : ObjectInfo where
  key := escape o.key
  size := o.size
  etag := escape o.etag
  contentType := inferContentType (escape o.key)
  lastModified := parseIso8601Date now (escape o.lastModified)

/-- The text of an object, part by part. -/
theorem pieces_eq : element (ascii "Contents") o.inner =
    [.tag (ascii "Contents")] ++ (leaf (ascii "Key") (escape o.key) ++
      (leaf (ascii "LastModified") (escape o.lastModified) ++
        (leaf (ascii "ETag") (escape o.etag) ++ (o.checksums ++
          (leaf (ascii "Size") (decimal o.size) ++
            (o.others ++ [.tag (byte '/' :: ascii "Contents")])))))) := by
  simp only [element, inner, List.append_assoc, List.singleton_append]

theorem parseObjectFromXml_inner (now : Int) :
    parseObjectFromXml now (render (element (ascii "Contents") o.inner)) = some (o.asRead now) := by
  have hall : Sound (element (ascii "Contents") o.inner) :=
    sound_element (by decide) o.sound_inner
  rw [pieces_eq] at hall
  have hkey := (sound_append.mp hall).2
  have hmodified := (sound_append.mp hkey).2
  have hetag := (sound_append.mp hmodified).2
  have hchecksums := (sound_append.mp hetag).2
  have hsize := (sound_append.mp hchecksums).2
  have hothers := (sound_append.mp hsize).2
  -- each element is found behind the ones before it, none of which has its tags
  have hopened : ∀ name, Clean name → Distinct name (ascii "Contents") →
      inside name (render (element (ascii "Contents") o.inner)) = inside name (render
        (leaf (ascii "Key") (escape o.key) ++ (leaf (ascii "LastModified") (escape o.lastModified) ++
          (leaf (ascii "ETag") (escape o.etag) ++ (o.checksums ++
            (leaf (ascii "Size") (decimal o.size) ++
              (o.others ++ [.tag (byte '/' :: ascii "Contents")]))))))) := by
    intro name hname hdistinct
    rw [pieces_eq]
    refine inside_append hname hall ?_ ?_
    · rw [List.mem_singleton]
      exact fun heq => hdistinct.1 (Piece.tag.inj heq)
    · rw [List.mem_singleton]
      exact fun heq => hdistinct.2.2 (Piece.tag.inj heq)
  have hreadKey : inside (ascii "Key") (render (element (ascii "Contents") o.inner))
      = some (some (escape o.key)) := by
    rw [hopened _ (by decide) (by decide)]
    exact inside_leaf (by decide) (lt_not_mem_escape _) hmodified
  have hreadModified : inside (ascii "LastModified") (render (element (ascii "Contents") o.inner))
      = some (some (escape o.lastModified)) := by
    rw [hopened _ (by decide) (by decide),
      inside_leaf_append (by decide) (by decide) hkey]
    exact inside_leaf (by decide) (lt_not_mem_escape _) hetag
  have hreadEtag : inside (ascii "ETag") (render (element (ascii "Contents") o.inner))
      = some (some (escape o.etag)) := by
    rw [hopened _ (by decide) (by decide),
      inside_leaf_append (by decide) (by decide) hkey,
      inside_leaf_append (by decide) (by decide) hmodified]
    exact inside_leaf (by decide) (lt_not_mem_escape _) hchecksums
  have hreadSize : inside (ascii "Size") (render (element (ascii "Contents") o.inner))
      = some (some (decimal o.size)) := by
    rw [hopened _ (by decide) (by decide),
      inside_leaf_append (by decide) (by decide) hkey,
      inside_leaf_append (by decide) (by decide) hmodified,
      inside_leaf_append (by decide) (by decide) hetag,
      inside_foreign_append (by decide) (by decide) (by decide)
        o.checksums_ok hchecksums]
    exact inside_leaf (by decide) (lt_not_mem_decimal _) hothers
  have hnumber : i64 (decimal o.size) = o.size := by
    have hrange := o.size_range
    rw [i64_digits (fun b hb => isDigitByte_of_mem_decimal hb), value_decimal]
    omega
  have hread : ∀ {opening closing : ByteString} {skip : Nat} {name text : ByteString},
      opening = tagText name → closing = tagText (byte '/' :: name) → skip = opening.length →
      inside name (render (element (ascii "Contents") o.inner)) = some (some text) →
      between opening skip closing (render (element (ascii "Contents") o.inner))
        = some (some text) := by
    rintro _ _ _ name text rfl rfl rfl h
    exact h
  rw [parseObjectFromXml, hread (by decide) (by decide) (by decide) hreadKey,
    hread (by decide) (by decide) (by decide) hreadSize,
    hread (by decide) (by decide) (by decide) hreadEtag,
    hread (by decide) (by decide) (by decide) hreadModified]
  show some _ = _
  rw [asRead, ← hnumber]
  rfl

end ListedObject

/-! ## The elements of a listing -/

/-- Tags of different elements are different. -/
theorem names_differ : ∀ name ∈ topNames, ∀ other ∈ topNames ++ ascii "Prefix" :: fieldNames,
    name ≠ other → ∀ tag ∈ [name, byte '/' :: name], tag ≠ other ∧ tag ≠ byte '/' :: other := by
  decide

theorem mem_tagsOf {names : List ByteString} {name : ByteString} (hname : name ∈ names) :
    ∀ tag ∈ [name, byte '/' :: name], tag ∈ tagsOf names :=
  fun _ htag => List.mem_flatMap.mpr ⟨name, hname, htag⟩

theorem tag_not_mem_element {tag name : ByteString} {inner : List Piece} (h : tag ≠ name)
    (hclose : tag ≠ byte '/' :: name) (hinner : Piece.tag tag ∉ inner) :
    Piece.tag tag ∉ element name inner := by
  rw [element, List.mem_cons, List.mem_append, List.mem_singleton, not_or, not_or]
  exact ⟨fun heq => h (Piece.tag.inj heq), hinner, fun heq => hclose (Piece.tag.inj heq)⟩

/-- No tag of the listing's own elements stands within an object. -/
theorem ListedObject.inner_free (o : ListedObject) {name : ByteString} (hname : name ∈ topNames) :
    ∀ tag ∈ [name, byte '/' :: name], Piece.tag tag ∉ o.inner := by
  have hfields : ∀ field ∈ fieldNames, field ∉ topNames := by decide
  intro tag htag
  have hleaf : ∀ field ∈ fieldNames, ∀ content, Piece.tag tag ∉ leaf field content := by
    intro field hfield content
    have hother : name ≠ field := fun heq => hfields field hfield (heq ▸ hname)
    obtain ⟨hopen, hclose⟩ := names_differ name hname field
      (List.mem_append_right _ (List.mem_cons_of_mem _ hfield)) hother tag htag
    exact tag_not_mem_leaf hopen hclose
  have hown : tag ∈ tagsOf (topNames ++ fieldNames) :=
    mem_tagsOf (List.mem_append_left _ hname) tag htag
  rw [inner]
  simp only [List.mem_append, not_or]
  exact ⟨hleaf _ (by decide) _, hleaf _ (by decide) _, hleaf _ (by decide) _,
    o.checksums_ok.other _ hown, hleaf _ (by decide) _, o.others_ok.other _ hown⟩

namespace Child

/-- The name of a child's element. -/
def name? : Child → Option ByteString
  | object _ => some (ascii "Contents")
  | commonPrefix _ => some (ascii "CommonPrefixes")
  | truncated _ => some (ascii "IsTruncated")
  | token _ => some (ascii "NextContinuationToken")
  | other _ _ => none

theorem name_ne_of {c : Child} {own name : ByteString} (hc : c.name? = some own)
    (hne : own ≠ name) : c.name? ≠ some name := by
  rw [hc]
  exact fun heq => hne (Option.some.inj heq)

theorem sound_pieces (c : Child) : Sound c.pieces := by
  cases c with
  | object o => exact sound_element (by decide) o.sound_inner
  | commonPrefix p =>
      exact sound_element (by decide)
        (sound_leaf (by decide) (lt_not_mem_escape p))
  | truncated flag => exact sound_leaf (by decide) (by cases flag <;> decide)
  | token t => exact sound_leaf (by decide) (lt_not_mem_escape t)
  | other pieces h => exact h.sound

/-- The tags of an element stand in no other element. -/
theorem tag_not_mem_pieces {name : ByteString} (hname : name ∈ topNames) (c : Child)
    (hc : c.name? ≠ some name) : ∀ tag ∈ [name, byte '/' :: name], Piece.tag tag ∉ c.pieces := by
  intro tag htag
  have hdiffer : ∀ other ∈ topNames ++ ascii "Prefix" :: fieldNames, name ≠ other →
      tag ≠ other ∧ tag ≠ byte '/' :: other :=
    fun other hother hne => names_differ name hname other hother hne tag htag
  have hne : ∀ other, c.name? = some other → name ≠ other :=
    fun other hother heq => hc (heq ▸ hother)
  cases c with
  | object o =>
      obtain ⟨hopen, hclose⟩ := hdiffer (ascii "Contents") (by decide) (hne _ rfl)
      exact tag_not_mem_element hopen hclose (o.inner_free hname tag htag)
  | commonPrefix p =>
      have hprefix : name ≠ ascii "Prefix" := by
        rintro rfl
        exact absurd hname (by decide)
      obtain ⟨hopen, hclose⟩ := hdiffer (ascii "CommonPrefixes") (by decide) (hne _ rfl)
      obtain ⟨hopen', hclose'⟩ := hdiffer (ascii "Prefix") (by decide) hprefix
      exact tag_not_mem_element hopen hclose (tag_not_mem_leaf hopen' hclose')
  | truncated flag =>
      obtain ⟨hopen, hclose⟩ := hdiffer (ascii "IsTruncated") (by decide) (hne _ rfl)
      exact tag_not_mem_leaf hopen hclose
  | token t =>
      obtain ⟨hopen, hclose⟩ :=
        hdiffer (ascii "NextContinuationToken") (by decide) (hne _ rfl)
      exact tag_not_mem_leaf hopen hclose
  | other pieces h => exact h.other tag (mem_tagsOf hname tag htag)

theorem name_of_flag {c : Child} (h : c.flag? = none) : c.name? ≠ some (ascii "IsTruncated") := by
  cases c with
  | truncated flag => cases h
  | object o => exact name_ne_of rfl (by decide)
  | commonPrefix p => exact name_ne_of rfl (by decide)
  | token t => exact name_ne_of rfl (by decide)
  | other pieces hother => exact (Option.some_ne_none _).symm

theorem name_of_token {c : Child} (h : c.token? = none) :
    c.name? ≠ some (ascii "NextContinuationToken") := by
  cases c with
  | token t => cases h
  | object o => exact name_ne_of rfl (by decide)
  | commonPrefix p => exact name_ne_of rfl (by decide)
  | truncated flag => exact name_ne_of rfl (by decide)
  | other pieces hother => exact (Option.some_ne_none _).symm

/-- The loop over the objects reads the objects, and passes over the other elements. -/
theorem handles_object (now : Int) (c : Child) :
    Handles (ascii "Contents") (fun xml => (parseObjectFromXml now xml).map ([·])) c.pieces
      (c.object?.toList.map (fun o => o.asRead now)) := by
  have hpass : ∀ d : Child, d.name? ≠ some (ascii "Contents") →
      Piece.tag (ascii "Contents") ∉ d.pieces := fun d hd =>
    d.tag_not_mem_pieces (by decide) hd _ (List.mem_cons_self ..)
  cases c with
  | object o =>
      refine .inr ⟨o.inner, rfl, ?_, ?_⟩
      · exact @ListedObject.inner_free o (ascii "Contents") (by decide) _ (by simp)
      · show (parseObjectFromXml now (render (element (ascii "Contents") o.inner))).map ([·]) = _
        rw [o.parseObjectFromXml_inner now]
        rfl
  | commonPrefix p => exact .inl ⟨hpass _ (name_ne_of rfl (by decide)), rfl⟩
  | truncated flag => exact .inl ⟨hpass _ (name_ne_of rfl (by decide)), rfl⟩
  | token t => exact .inl ⟨hpass _ (name_ne_of rfl (by decide)), rfl⟩
  | other pieces h => exact .inl ⟨hpass _ (Option.some_ne_none _).symm, rfl⟩

/-- The prefix of an element is read. -/
theorem parsePrefix_element (p : ByteString) :
    parsePrefix (render (element (ascii "CommonPrefixes") (leaf (ascii "Prefix") (escape p))))
      = some [escape p] := by
  have hsound := sound_pieces (commonPrefix p)
  have hsplit : element (ascii "CommonPrefixes") (leaf (ascii "Prefix") (escape p))
      = [.tag (ascii "CommonPrefixes")] ++ (leaf (ascii "Prefix") (escape p) ++
          [.tag (byte '/' :: ascii "CommonPrefixes")]) := rfl
  rw [show (commonPrefix p).pieces = _ from hsplit] at hsound
  have hread : inside (ascii "Prefix")
      (render (element (ascii "CommonPrefixes") (leaf (ascii "Prefix") (escape p))))
        = some (some (escape p)) := by
    rw [hsplit, inside_append (by decide) hsound (by decide) (by decide)]
    exact inside_leaf (by decide) (lt_not_mem_escape p)
      (sound_append.mp (sound_append.mp hsound).2).2
  have hbetween : between (ascii "<Prefix>") 8 (ascii "</Prefix>")
      (render (element (ascii "CommonPrefixes") (leaf (ascii "Prefix") (escape p))))
        = some (some (escape p)) := hread
  rw [parsePrefix, hbetween]
  rfl

theorem handles_commonPrefix (c : Child) :
    Handles (ascii "CommonPrefixes") parsePrefix c.pieces (c.commonPrefix?.toList.map escape) := by
  have hpass : ∀ d : Child, d.name? ≠ some (ascii "CommonPrefixes") →
      Piece.tag (ascii "CommonPrefixes") ∉ d.pieces := fun d hd =>
    d.tag_not_mem_pieces (by decide) hd _ (List.mem_cons_self ..)
  cases c with
  | commonPrefix p =>
      refine .inr ⟨_, rfl, tag_not_mem_leaf (by decide) (by decide), ?_⟩
      exact parsePrefix_element p
  | object o => exact .inl ⟨hpass _ (name_ne_of rfl (by decide)), rfl⟩
  | truncated flag => exact .inl ⟨hpass _ (name_ne_of rfl (by decide)), rfl⟩
  | token t => exact .inl ⟨hpass _ (name_ne_of rfl (by decide)), rfl⟩
  | other pieces h => exact .inl ⟨hpass _ (Option.some_ne_none _).symm, rfl⟩

end Child

/-! ## A listing -/

namespace Listing

variable (L : Listing)

theorem sound_children (children : List Child) : Sound (children.flatMap Child.pieces) := by
  intro p hp
  obtain ⟨c, -, hc⟩ := List.mem_flatMap.mp hp
  exact c.sound_pieces p hc

/-- The text of an element among the children, if none before it has its name. -/
theorem inside_children {name content : ByteString} (hname : name ∈ topNames) (hclean : Clean name)
    {before behind : List Child} {c : Child} (hbefore : ∀ d ∈ before, d.name? ≠ some name)
    (hc : c.pieces = leaf name content) (hcontent : byte '<' ∉ content) :
    inside name (render ((before ++ c :: behind).flatMap Child.pieces)) = some (some content) := by
  have hfree : ∀ tag ∈ [name, byte '/' :: name],
      Piece.tag tag ∉ before.flatMap Child.pieces := by
    intro tag htag hmem
    obtain ⟨d, hd, hpiece⟩ := List.mem_flatMap.mp hmem
    exact d.tag_not_mem_pieces hname (hbefore d hd) tag htag hpiece
  have hsound := sound_children (before ++ c :: behind)
  rw [List.flatMap_append] at hsound ⊢
  rw [inside_append hclean hsound (hfree _ (by simp)) (hfree _ (by simp)), List.flatMap_cons, hc]
  exact inside_leaf hclean hcontent (sound_children behind)

/-- The flag is the text of its one element. -/
theorem inside_isTruncated : inside (ascii "IsTruncated") L.document
    = some (some (if L.isTruncated then ascii "true" else ascii "false")) := by
  obtain ⟨before, c, behind, hchildren, hbefore, hc, -⟩ :=
    List.filterMap_eq_cons_iff.mp L.truncated_once
  have hname : ∀ d ∈ before, d.name? ≠ some (ascii "IsTruncated") :=
    fun d hd => Child.name_of_flag (hbefore d hd)
  cases c with
  | truncated flag =>
      obtain rfl : flag = L.isTruncated := Option.some.inj hc
      rw [document, hchildren]
      exact inside_children (by decide) (by decide) hname rfl
        (by cases L.isTruncated <;> decide)
  | object o => cases hc
  | commonPrefix p => cases hc
  | token t => cases hc
  | other pieces h => cases hc

/-- The token is the text of its element, if there is one. -/
theorem inside_token :
    inside (ascii "NextContinuationToken") L.document = some (L.token.map escape) := by
  have honce := L.token_once
  cases htoken : L.token with
  | none =>
      rw [htoken] at honce
      have hname : ∀ d ∈ L.children, d.name? ≠ some (ascii "NextContinuationToken") :=
        fun d hd => Child.name_of_token (List.filterMap_eq_nil_iff.mp honce d hd)
      refine inside_absent (by decide) (sound_children _) (fun hmem => ?_)
      obtain ⟨d, hd, hpiece⟩ := List.mem_flatMap.mp hmem
      exact d.tag_not_mem_pieces (by decide) (hname d hd) _ (List.mem_cons_self ..) hpiece
  | some t =>
      rw [htoken] at honce
      obtain ⟨before, c, behind, hchildren, hbefore, hc, -⟩ := List.filterMap_eq_cons_iff.mp honce
      have hname : ∀ d ∈ before, d.name? ≠ some (ascii "NextContinuationToken") :=
        fun d hd => Child.name_of_token (hbefore d hd)
      cases c with
      | token t' =>
          obtain rfl : t' = t := Option.some.inj hc
          rw [document, hchildren]
          exact inside_children (by decide) (by decide) hname rfl
            (lt_not_mem_escape t')
      | object o => cases hc
      | commonPrefix p => cases hc
      | truncated flag => cases hc
      | other pieces h => cases hc

theorem parseContents_document (now : Int) {passes : Nat} (h : L.document.length < passes) :
    parseContents now L.document passes = some (some (L.objects.map (fun o => o.asRead now))) := by
  have hloop := @elementLoop_children ObjectInfo
    (fun xml => (parseObjectFromXml now xml).map ([·])) (ascii "Contents") Child (by decide)
    Child.pieces (fun c => c.object?.toList.map (fun o => o.asRead now)) L.document L.children 0
    passes [] (fun c _ => c.handles_object now) (sound_children L.children) rfl h
  rw [List.nil_append, ← List.map_flatMap, ← List.filterMap_eq_flatMap_toList] at hloop
  exact hloop

theorem parseCommonPrefixes_document {passes : Nat} (h : L.document.length < passes) :
    parseCommonPrefixes L.document passes = some (some (L.commonPrefixes.map escape)) := by
  have hloop := @elementLoop_children ByteString parsePrefix (ascii "CommonPrefixes") Child
    (by decide) Child.pieces (fun c => c.commonPrefix?.toList.map escape) L.document
    L.children 0 passes [] (fun c _ => c.handles_commonPrefix) (sound_children L.children) rfl h
  rw [List.nil_append, ← List.map_flatMap, ← List.filterMap_eq_flatMap_toList] at hloop
  exact hloop

/-- What the parser returns: the listing as it stands in the document, escaped. -/
theorem parseListObjectsResponse_document (now : Int) {passes : Nat}
    (h : L.document.length < passes) :
    parseListObjectsResponse now L.document passes = some (some {
      objects := L.objects.map (fun o => o.asRead now)
      commonPrefixes := L.commonPrefixes.map escape
      isTruncated := L.isTruncated
      nextMarker := (L.token.map escape).getD [] }) := by
  have hflag : between (ascii "<IsTruncated>") 13 (ascii "</IsTruncated>") L.document = _ :=
    L.inside_isTruncated
  have htoken : between (ascii "<NextContinuationToken>") 23 (ascii "</NextContinuationToken>")
      L.document = _ := L.inside_token
  have hequal : (some (if L.isTruncated then ascii "true" else ascii "false")
      == some (ascii "true")) = L.isTruncated := by
    cases L.isTruncated <;> decide
  rw [parseListObjectsResponse, hflag, htoken]
  simp only [L.parseContents_document now h, L.parseCommonPrefixes_document h, Option.map_some,
    hequal]

/-- No key, tag, prefix or token has a character that is written as an entity. -/
structure AllPlain : Prop where
  objects  : ∀ o ∈ L.objects, Plain o.key ∧ Plain o.etag
  prefixes : ∀ p ∈ L.commonPrefixes, Plain p
  token    : ∀ t ∈ L.token, Plain t

theorem map_escape_eq_self {texts : List ByteString} :
    texts.map escape = texts ↔ ∀ t ∈ texts, Plain t := by
  induction texts with
  | nil => exact iff_of_true rfl (List.forall_mem_nil _)
  | cons t texts ih => rw [List.map_cons, List.cons.injEq, escape_eq_self, ih, List.forall_mem_cons]

/-- The listing is returned exactly if it had nothing to escape. -/
theorem decoded_iff : L.Decoded ↔ L.AllPlain := by
  have hobjects : ∀ now, (L.objects.map (fun o => o.asRead now)).map (fun o => (o.key, o.size, o.etag))
      = L.objects.map (fun o => (o.key, (o.size : Int), o.etag)) ↔
        ∀ o ∈ L.objects, Plain o.key ∧ Plain o.etag := by
    intro now
    rw [List.map_map, List.map_inj_left]
    refine forall₂_congr (fun o _ => ?_)
    rw [← escape_eq_self, ← escape_eq_self]
    show (escape o.key, (o.size : Int), escape o.etag) = _ ↔ _
    rw [Prod.mk.injEq, Prod.mk.injEq]
    exact and_congr Iff.rfl (and_iff_right rfl)
  have htoken : (L.token.map escape).getD [] = L.token.getD [] ↔ ∀ t ∈ L.token, Plain t := by
    cases L.token with
    | none => exact iff_of_true rfl (fun t ht => absurd ht (Option.not_mem_none t))
    | some t =>
        rw [Option.map_some, Option.getD_some, Option.getD_some, escape_eq_self]
        exact ⟨fun h u hu => Option.some.inj hu ▸ h, fun h => h t rfl⟩
  constructor
  · intro h
    obtain ⟨result, hresult, hkeys, hprefixes, -, hmarker⟩ := h 0 _ (Nat.lt_succ_self _)
    rw [L.parseListObjectsResponse_document 0 (Nat.lt_succ_self _)] at hresult
    obtain rfl := Option.some.inj (Option.some.inj hresult)
    exact ⟨(hobjects 0).mp hkeys, map_escape_eq_self.mp hprefixes, htoken.mp hmarker⟩
  · intro h now passes hpasses
    exact ⟨_, L.parseListObjectsResponse_document now hpasses, (hobjects now).mpr h.objects,
      map_escape_eq_self.mpr h.prefixes, rfl, htoken.mpr h.token⟩

/-! ## A key with an ampersand -/

/-- The object `a&b.txt` of five bytes. -/
def ampersandObject : ListedObject where
  key := ascii "a&b.txt"
  lastModified := ascii "2024-01-01T00:00:00.000Z"
  etag := ascii "5d41402abc4b2a76b9719d911017c592"
  size := 5
  checksums := []
  others := [.tag (ascii "StorageClass"), .text (ascii "STANDARD"), .tag (ascii "/StorageClass")]
  size_range := by decide
  checksums_ok := by decide
  others_ok := by decide

/-- The listing of that object alone. -/
def ampersandListing : Listing where
  children :=
    [.other [.tag (ascii "ListBucketResult")] (by decide), .truncated false,
      .object ampersandObject, .other [.tag (ascii "/ListBucketResult")] (by decide)]
  isTruncated := false
  token := none
  truncated_once := rfl
  token_once := rfl

/-- Its key is returned as `a&amp;b.txt`. -/
theorem ampersand_escaped : ¬ ampersandListing.Decoded := by
  intro h
  obtain ⟨result, hresult, hkeys, -⟩ := h 0 _ (Nat.lt_succ_self _)
  rw [parseListObjectsResponse_document _ 0 (Nat.lt_succ_self _)] at hresult
  obtain rfl := Option.some.inj (Option.some.inj hresult)
  have hkey : escape (ascii "a&b.txt") = ascii "a&b.txt" := (Prod.mk.inj (List.cons.inj hkeys).1).1
  exact absurd hkey (by decide)

end Listing

end S3Listing

end VHono
