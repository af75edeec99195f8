import VHono.Markup
import VHono.XmlExtraction

/-! # The document of a listing

    The answer to a listing is a document of elements: objects, common
    prefixes, the flag and the token for the next page, in any order and with
    other elements between them.  Texts stand in it with the five characters
    that have a meaning escaped, so no text holds a tag: the parser finds every
    element where it stands, and cuts out its text. -/

namespace VHono

open ByteString NumberTexts CheckedSlices Markup XmlExtraction

namespace S3Listing

/-! ## The document of a listing -/

/-- The characters that are written as entities, with these. -/
def entities : List (UInt8 × ByteString) :=
  [(38, ascii "&amp;"), (60, ascii "&lt;"), (62, ascii "&gt;"), (34, ascii "&quot;"),
    (39, ascii "&apos;")]

def escapeByte (b : UInt8) : ByteString := (entities.lookup b).getD [b]

/-- A text as it stands in a document. -/
def escape (s : ByteString) : ByteString := s.flatMap escapeByte

/-- An element with one text in it. -/
def leaf (name content : ByteString) : List Piece :=
  [.tag name, .text content, .tag (byte '/' :: name)]

def element (name : ByteString) (inner : List Piece) : List Piece :=
  .tag name :: (inner ++ [.tag (byte '/' :: name)])

/-- Opening and closing tags of elements. -/
def tagsOf (names : List ByteString) : List ByteString :=
  names.flatMap (fun name => [name, byte '/' :: name])

/-- The elements that a listing consists of, and those of its objects. -/
def topNames : List ByteString :=
  [ascii "Contents", ascii "CommonPrefixes", ascii "IsTruncated", ascii "NextContinuationToken"]

def fieldNames : List ByteString :=
  [ascii "Key", ascii "LastModified", ascii "ETag", ascii "Size"]

/-- Other elements: none of their tags is one of these. -/
structure Foreign (tags : List ByteString) (pieces : List Piece) : Prop where
  sound : Sound pieces
  other : ∀ inner ∈ tags, Piece.tag inner ∉ pieces

instance foreignDecidable (tags : List ByteString) (pieces : List Piece) :
    Decidable (Foreign tags pieces) :=
  decidable_of_iff ((∀ p ∈ pieces, p.Sound) ∧ ∀ inner ∈ tags, Piece.tag inner ∉ pieces)
    ⟨fun h => ⟨h.1, h.2⟩, fun h => ⟨h.sound, h.other⟩⟩

/-- An object, with the other elements behind its tag and behind its size. -/
structure ListedObject where
  key          : ByteString
  lastModified : ByteString
  etag         : ByteString
  size         : Nat
  checksums    : List Piece
  others       : List Piece
  size_range   : size < 2 ^ 63
  checksums_ok : Foreign (tagsOf (topNames ++ fieldNames)) checksums
  others_ok    : Foreign (tagsOf (topNames ++ fieldNames)) others

/-- What stands between the tags of an object. -/
def ListedObject.inner (o : ListedObject) : List Piece :=
  leaf (ascii "Key") (escape o.key) ++ (leaf (ascii "LastModified") (escape o.lastModified) ++
    (leaf (ascii "ETag") (escape o.etag) ++ (o.checksums ++
      (leaf (ascii "Size") (decimal o.size) ++ o.others))))

/-- An element of a listing. -/
inductive Child
  | object (o : ListedObject)
  | commonPrefix (p : ByteString)
  | truncated (flag : Bool)
  | token (t : ByteString)
  | other (pieces : List Piece) (h : Foreign (tagsOf topNames) pieces)

namespace Child

def pieces : Child → List Piece
  | object o => element (ascii "Contents") o.inner
  | commonPrefix p => element (ascii "CommonPrefixes") (leaf (ascii "Prefix") (escape p))
  | truncated flag => leaf (ascii "IsTruncated") (if flag then ascii "true" else ascii "false")
  | token t => leaf (ascii "NextContinuationToken") (escape t)
  | other pieces _ => pieces

def object? : Child → Option ListedObject
  | object o => some o
  | _ => none

def commonPrefix? : Child → Option ByteString
  | commonPrefix p => some p
  | _ => none

def flag? : Child → Option Bool
  | truncated flag => some flag
  | _ => none

def token? : Child → Option ByteString
  | token t => some t
  | _ => none

end Child

/-- A listing: its elements, with one flag and at most one token among them. -/
structure Listing where
  children       : List Child
  isTruncated    : Bool
  token          : Option ByteString
  truncated_once : children.filterMap Child.flag? = [isTruncated]
  token_once     : children.filterMap Child.token? = token.toList

namespace Listing

variable (L : Listing)

def objects : List ListedObject := L.children.filterMap Child.object?

def commonPrefixes : List ByteString := L.children.filterMap Child.commonPrefix?

def document : ByteString := render (L.children.flatMap Child.pieces)

/-- The parser returns the listing: keys, sizes and tags in order, the prefixes in order, the
    flag and the token. -/
def Decoded : Prop :=
  ∀ (now : Int) (passes : Nat), L.document.length < passes → ∃ result,
    parseListObjectsResponse now L.document passes = some (some result) ∧
    result.objects.map (fun o => (o.key, o.size, o.etag))
      = L.objects.map (fun o => (o.key, (o.size : Int), o.etag)) ∧
    result.commonPrefixes = L.commonPrefixes ∧
    result.isTruncated = L.isTruncated ∧
    result.nextMarker = L.token.getD []

end Listing

/-! ## Escaped texts -/

/-- A text without a character that is written as an entity. -/
def Plain (s : ByteString) : Prop := ∀ b ∈ s, (entities.lookup b).isNone = true

theorem escape_cons (b : UInt8) (s : ByteString) : escape (b :: s) = escapeByte b ++ escape s :=
  rfl

/-- A byte is written as itself, or as the entity that stands for it. -/
theorem escapeByte_cases (b : UInt8) :
    (entities.lookup b = none ∧ escapeByte b = [b]) ∨
      ∃ entity ∈ entities, entities.lookup b = some entity.2 ∧ escapeByte b = entity.2 := by
  rw [escapeByte]
  cases hlookup : entities.lookup b with
  | none => exact .inl ⟨rfl, rfl⟩
  | some text =>
      obtain ⟨l, l', hentities, -⟩ := List.lookup_eq_some_iff.mp hlookup
      refine .inr ⟨(b, text), ?_, rfl, rfl⟩
      rw [hentities]
      exact List.mem_append_right _ (List.mem_cons_self ..)

theorem entities_spec : ∀ entity ∈ entities, 1 < entity.2.length ∧ byte '<' ∉ entity.2 := by
  decide +kernel

theorem length_le_escape (s : ByteString) : s.length ≤ (escape s).length := by
  induction s with
  | nil => exact Nat.le_refl _
  | cons b s ih =>
      rw [escape_cons, List.length_append, List.length_cons]
      rcases escapeByte_cases b with ⟨-, hb⟩ | ⟨entity, hmem, -, hb⟩
      · rw [hb, List.length_singleton]
        omega
      · have hlength := (entities_spec entity hmem).1
        rw [hb]
        omega

/-- A text is written as it is exactly if it has nothing to escape. -/
theorem escape_eq_self {s : ByteString} : escape s = s ↔ Plain s := by
  induction s with
  | nil => exact iff_of_true rfl (fun b hb => absurd hb List.not_mem_nil)
  | cons b s ih =>
      rw [escape_cons, Plain, List.forall_mem_cons]
      rcases escapeByte_cases b with ⟨hnone, hb⟩ | ⟨entity, hmem, hsome, hb⟩
      · rw [hb, hnone, List.singleton_append, List.cons.injEq, ih]
        simp only [true_and, Option.isNone_none, Plain]
      · -- an entity is longer than its character, and no text gets shorter
        refine iff_of_false (fun heq => ?_) (fun h => ?_)
        · have hlong := (entities_spec entity hmem).1
          have hrest := length_le_escape s
          have hlength := congrArg List.length heq
          rw [hb, List.length_append, List.length_cons] at hlength
          omega
        · rw [hsome] at h
          exact Bool.noConfusion h.1

theorem lt_not_mem_escape (s : ByteString) : byte '<' ∉ escape s := by
  rw [escape, List.mem_flatMap]
  rintro ⟨b, -, hb⟩
  rcases escapeByte_cases b with ⟨hnone, hself⟩ | ⟨entity, hmem, -, htext⟩
  · rw [hself, List.mem_singleton] at hb
    rw [← hb] at hnone
    exact absurd hnone (by decide +kernel)
  · rw [htext] at hb
    exact (entities_spec entity hmem).2 hb

/-! ## What stands between two tags -/

/-- A name that can stand in a tag. -/
def Clean (name : ByteString) : Prop := byte '<' ∉ name ∧ byte '>' ∉ name

instance cleanDecidable (name : ByteString) : Decidable (Clean name) :=
  inferInstanceAs (Decidable (_ ∧ _))

theorem Clean.close {name : ByteString} (h : Clean name) : Clean (byte '/' :: name) := by
  rw [Clean, List.mem_cons, List.mem_cons, not_or, not_or]
  exact ⟨⟨by decide, h.1⟩, by decide, h.2⟩

theorem sound_leaf {name content : ByteString} (h : Clean name) (hcontent : byte '<' ∉ content) :
    Sound (leaf name content) :=
  sound_cons.mpr ⟨h, sound_cons.mpr ⟨hcontent, sound_cons.mpr ⟨h.close,
    List.forall_mem_nil _⟩⟩⟩

theorem tag_not_mem_leaf {inner name content : ByteString} (h : inner ≠ name)
    (hclose : inner ≠ byte '/' :: name) : Piece.tag inner ∉ leaf name content := by
  rw [leaf, List.mem_cons, List.mem_pair, not_or, not_or]
  exact ⟨fun heq => h (Piece.tag.inj heq), fun heq => Piece.noConfusion heq,
    fun heq => hclose (Piece.tag.inj heq)⟩

theorem cut_append (a s : ByteString) (i e : Nat) :
    cut (a ++ s) (a.length + i) (a.length + e) = cut s i e := by
  have hbounds : (a.length + i ≤ a.length + e ∧ a.length + e ≤ (a ++ s).length) ↔
      i ≤ e ∧ e ≤ s.length := by
    rw [List.length_append]
    omega
  have hslice : ByteString.slice (a ++ s) (a.length + i) (a.length + e) = ByteString.slice s i e := by
    rw [slice_drop, List.drop_left]
  rw [cut, cut]
  simp only [hbounds]
  exact congrArg (fun part => if i ≤ e ∧ e ≤ s.length then some part else none) hslice

/-- What stands between the tags of an element. -/
def inside (name text : ByteString) : Option (Option ByteString) :=
  between (tagText name) (tagText name).length (tagText (byte '/' :: name)) text

theorem inside_append {name : ByteString} (hname : Clean name) {before behind : List Piece}
    (hsound : Sound (before ++ behind)) (hopen : Piece.tag name ∉ before)
    (hclose : Piece.tag (byte '/' :: name) ∉ before) :
    inside name (render (before ++ behind)) = inside name (render behind) := by
  have hbehind := (sound_append.mp hsound).2
  rw [inside, inside, between, between, indexOf_render hname hsound, position_append hopen,
    indexOf_render hname.close hsound, position_append hclose, indexOf_render hname hbehind,
    indexOf_render hname.close hbehind]
  cases position name behind with
  | none => rfl
  | some i =>
      cases position (byte '/' :: name) behind with
      | none => rfl
      | some j =>
          simp only [Option.map_some, render_append]
          rw [show i + (render before).length + (tagText name).length
            = (render before).length + (i + (tagText name).length) by omega,
            Nat.add_comm j, cut_append]

theorem inside_leaf {name content : ByteString} (hname : Clean name)
    (hcontent : byte '<' ∉ content) {behind : List Piece} (hbehind : Sound behind) :
    inside name (render (leaf name content ++ behind)) = some (some content) := by
  have hsound : Sound (leaf name content ++ behind) :=
    sound_append.mpr ⟨sound_leaf hname hcontent, hbehind⟩
  have hother : Piece.tag (byte '/' :: name) ∉ [Piece.tag name, .text content] := by
    rw [List.mem_pair, not_or]
    refine ⟨fun heq => ?_, fun heq => Piece.noConfusion heq⟩
    have hlength := congrArg List.length (Piece.tag.inj heq)
    rw [List.length_cons] at hlength
    omega
  have hopen : position name (leaf name content ++ behind) = some 0 := if_pos rfl
  have hclose : position (byte '/' :: name) (leaf name content ++ behind)
      = some (tagText name ++ content).length := by
    have hfound := position_found hother behind
    rwa [render_cons, render_cons, render_nil, List.append_nil] at hfound
  rw [inside, between, indexOf_render hname hsound, hopen, indexOf_render hname.close hsound, hclose]
  have htext : render (leaf name content ++ behind)
      = tagText name ++ (content ++ (tagText (byte '/' :: name) ++ render behind)) := by
    rw [render_append]
    show tagText name ++ (content ++ (tagText (byte '/' :: name) ++ [])) ++ render behind = _
    simp only [List.append_assoc, List.append_nil]
  have hcut : cut (render (leaf name content ++ behind)) (0 + (tagText name).length)
      (tagText name ++ content).length = some content := by
    rw [cut_within (by rw [List.length_append]; omega)
      (by rw [htext]; simp only [List.length_append]; omega), htext]
    exact congrArg some (slice_eq rfl (Nat.zero_add _) (by rw [List.length_append, Nat.zero_add]))
  simp only [hcut, Option.map_some]

theorem inside_absent {name : ByteString} (hname : Clean name) {pieces : List Piece}
    (hsound : Sound pieces) (h : Piece.tag name ∉ pieces) :
    inside name (render pieces) = some none := by
  rw [inside, between, indexOf_render hname hsound, position_eq_none h]

/-! ## The loop over the elements -/

section
variable {α : Type} {item : ByteString → Option (List α)} {name : ByteString}

/-- What the loop does with the pieces of a child: it passes over them, or they are an element and
    it reads this. -/
def Handles (name : ByteString) (item : ByteString → Option (List α)) (pieces : List Piece)
    (found : List α) : Prop :=
  (Piece.tag name ∉ pieces ∧ found = []) ∨
    ∃ inner, pieces = element name inner ∧ Piece.tag (byte '/' :: name) ∉ inner ∧
      item (render pieces) = some found

/-- Pieces without an opening tag are passed over. -/
theorem elementLoop_pass (hname : Clean name) {body : ByteString} {searchPos : Nat}
    {before behind : List Piece} (hbody : body.drop searchPos = render (before ++ behind))
    (hsound : Sound (before ++ behind)) (hfree : Piece.tag name ∉ before) (closing : ByteString)
    (passes : Nat) (found : List α) :
    elementLoop (tagText name) closing closing.length item body (passes + 1) searchPos found
      = elementLoop (tagText name) closing closing.length item body (passes + 1)
          (searchPos + (render before).length) found := by
  have hbehind : body.drop (searchPos + (render before).length) = render behind := by
    rw [← List.drop_drop, hbody, render_append, List.drop_left]
  have hindex : indexFrom (tagText name) body searchPos
      = indexFrom (tagText name) body (searchPos + (render before).length) := by
    rw [indexFrom, indexFrom, hbody, hbehind, indexOf_render hname hsound, position_append hfree,
      indexOf_render hname (sound_append.mp hsound).2, Option.map_map]
    congr 1
    funext k
    show k + (render before).length + searchPos = _
    omega
  rw [elementLoop, elementLoop, hindex]

/-- An element is read, and the loop goes on behind it. -/
theorem elementLoop_read (hname : Clean name) {body : ByteString} {searchPos : Nat}
    {inner behind : List Piece}
    (hbody : body.drop searchPos = render (element name inner ++ behind))
    (hsound : Sound (element name inner ++ behind))
    (hfree : Piece.tag (byte '/' :: name) ∉ inner) {items : List α}
    (hitem : item (render (element name inner)) = some items) (passes : Nat) (found : List α) :
    elementLoop (tagText name) (tagText (byte '/' :: name)) (tagText (byte '/' :: name)).length item
        body (passes + 1) searchPos found
      = elementLoop (tagText name) (tagText (byte '/' :: name)) (tagText (byte '/' :: name)).length
          item body passes (searchPos + (render (element name inner)).length) (found ++ items) := by
  have hopen : indexOf (tagText name) (body.drop searchPos) = some 0 := by
    rw [hbody, indexOf_render hname hsound]
    exact if_pos rfl
  have hfree' : Piece.tag (byte '/' :: name) ∉ .tag name :: inner := by
    rw [List.mem_cons, not_or]
    refine ⟨fun heq => ?_, hfree⟩
    have hlength := congrArg List.length (Piece.tag.inj heq)
    rw [List.length_cons] at hlength
    omega
  have hpieces : element name inner ++ behind
      = (.tag name :: inner) ++ .tag (byte '/' :: name) :: behind := by
    rw [element, ← List.cons_append, List.append_assoc, List.singleton_append]
  have hclose : indexFrom (tagText (byte '/' :: name)) (body.drop searchPos) 0
      = some (render (.tag name :: inner)).length := by
    rw [indexFrom, List.drop_zero, hbody, indexOf_render hname.close hsound, hpieces,
      position_found hfree']
    rfl
  have hlength : (render (element name inner)).length
      = (render (.tag name :: inner)).length + (tagText (byte '/' :: name)).length := by
    rw [element, ← List.cons_append, render_append, render_singleton, List.length_append]
    rfl
  have hslice : ByteString.slice (body.drop searchPos) 0
      ((render (.tag name :: inner)).length + (tagText (byte '/' :: name)).length)
        = render (element name inner) := by
    rw [hbody, ← hlength, ByteString.slice, List.drop_zero, render_append, List.take_left]
  rw [elementLoop_some (tagText_ne_nil _) hopen hclose, hslice, hitem, hlength, Nat.add_assoc]

/-- The loop returns what it reads of each child, in order. -/
theorem elementLoop_children {β : Type} (hname : Clean name) {pieces : β → List Piece}
    {read : β → List α} {body : ByteString} : ∀ (children : List β) (searchPos passes : Nat)
    (found : List α), (∀ c ∈ children, Handles name item (pieces c) (read c)) →
      Sound (children.flatMap pieces) → body.drop searchPos = render (children.flatMap pieces) →
      body.length - searchPos < passes →
      elementLoop (tagText name) (tagText (byte '/' :: name)) (tagText (byte '/' :: name)).length
        item body passes searchPos found = some (some (found ++ children.flatMap read)) := by
  intro children
  induction children with
  | nil =>
      intro searchPos passes found _ _ hbody hpasses
      obtain ⟨passes, rfl⟩ : ∃ k, passes = k + 1 := ⟨passes - 1, by omega⟩
      rw [List.flatMap_nil, List.append_nil]
      refine elementLoop_none (fun i hi => ?_) passes found
      rw [hbody] at hi
      cases hi
  | cons c children ih =>
      intro searchPos passes found hchildren hsound hbody hpasses
      obtain ⟨passes, rfl⟩ : ∃ k, passes = k + 1 := ⟨passes - 1, by omega⟩
      obtain ⟨hc, hrest⟩ := List.forall_mem_cons.mp hchildren
      rw [List.flatMap_cons] at hsound hbody
      have hbehind : body.drop (searchPos + (render (pieces c)).length)
          = render (children.flatMap pieces) := by
        rw [← List.drop_drop, hbody, render_append, List.drop_left]
      have hsoundRest := (sound_append.mp hsound).2
      rw [List.flatMap_cons]
      rcases hc with ⟨hfree, hread⟩ | ⟨inner, hpieces, hfree, hitem⟩
      · rw [elementLoop_pass hname hbody hsound hfree, hread, List.nil_append]
        exact ih _ _ found hrest hsoundRest hbehind (by omega)
      · rw [hpieces] at hbody hsound hitem hbehind
        have hpos : 0 < (render (element name inner)).length := Nat.succ_pos _
        rw [elementLoop_read hname hbody hsound hfree hitem, ← List.append_assoc]
        refine ih _ _ _ hrest hsoundRest hbehind ?_
        have hlength := congrArg List.length hbody
        rw [List.length_drop, render_append, List.length_append] at hlength
        omega

end

end S3Listing

end VHono
