import VHono.FastRouter
import VHono.PathTexts
import VHono.PatternExpressions

/-! # Routes matched segment by segment

    A pattern of literal segments and parameters says what it matches without
    an expression: as many segments as it has, the literals equal, a parameter
    for any segment but the empty one.  Its expression reads a path in exactly
    this way, so a router of such patterns, cached or not, is a search among
    patterns. -/

namespace VHono

open ByteString PathExpressions PathSegments

inductive PatternSegment
  | literal (text : ByteString)
  | param (name : ByteString)
  deriving DecidableEq

def isLiteralByte (b : UInt8) : Bool :=
  isParamPart b || b == byte '-' || b == byte '.'

/-- The texts and names a pattern is made of. -/
def PatternSegment.Proper : PatternSegment → Prop
  | .literal text => ∀ b ∈ text, isLiteralByte b = true
  | .param name => name ≠ [] ∧ identifier name = name

instance : DecidablePred PatternSegment.Proper
  | .literal text => inferInstanceAs (Decidable (∀ b ∈ text, isLiteralByte b = true))
  | .param name => inferInstanceAs (Decidable (name ≠ [] ∧ identifier name = name))

def PatternSegment.text : PatternSegment → ByteString
  | .literal text => text
  | .param name => byte ':' :: name

def PatternSegment.paramName : PatternSegment → Option ByteString
  | .literal _ => none
  | .param name => some name

/-- A pattern of segments, its parameters under distinct names. -/
structure SegmentPattern where
  segments : List PatternSegment
  nonempty : segments ≠ []
  proper   : ∀ s ∈ segments, s.Proper
  distinct : (segments.filterMap PatternSegment.paramName).Nodup

def SegmentPattern.text (p : SegmentPattern) : ByteString :=
  unite (p.segments.map PatternSegment.text)

/-! ## What a pattern matches -/

def PatternSegment.bind : PatternSegment → ByteString → Option Captures
  | .literal text, s => if s = text then some [] else none
  | .param name, s => if s = [] then none else some [(name, s)]

/-- Segment against segment, as many of one as of the other. -/
def bindSegments : List PatternSegment → List ByteString → Option Captures
  | [], [] => some []
  | seg :: segs, s :: path =>
    (seg.bind s).bind (fun caps => (bindSegments segs path).map (caps ++ ·))
  | _, _ => none

/-- The segments of a path bound to the parameters, if the pattern matches it. -/
def SegmentPattern.bindings (p : SegmentPattern) (path : ByteString) : Option Captures :=
  bindSegments p.segments (PathSegments.segments path)

theorem bindSegments_cons {seg : PatternSegment} {segs : List PatternSegment} {s : ByteString}
    {path : List ByteString} {caps : Captures} :
    bindSegments (seg :: segs) (s :: path) = some caps ↔
      ∃ c d, seg.bind s = some c ∧ bindSegments segs path = some d ∧ caps = c ++ d := by
  rw [bindSegments, Option.bind_eq_some_iff]
  constructor
  · rintro ⟨c, hc, hrest⟩
    obtain ⟨d, hd, rfl⟩ := Option.map_eq_some_iff.mp hrest
    exact ⟨c, d, hc, hd, rfl⟩
  · rintro ⟨c, d, hc, hd, rfl⟩
    exact ⟨c, hc, by rw [hd]; rfl⟩

/-- The parameters bound are those of the pattern. -/
theorem bindSegments_names {segs : List PatternSegment} {path : List ByteString} {caps : Captures}
    (h : bindSegments segs path = some caps) :
    caps.map Prod.fst = segs.filterMap PatternSegment.paramName := by
  induction segs generalizing path caps with
  | nil =>
      cases path with
      | nil =>
          rw [← Option.some.inj h]
          rfl
      | cons s path => cases h
  | cons seg segs ih =>
      cases path with
      | nil => cases h
      | cons s path =>
          obtain ⟨c, d, hc, hd, rfl⟩ := bindSegments_cons.mp h
          rw [List.map_append, ih hd]
          cases seg with
          | literal text =>
              rw [PatternSegment.bind] at hc
              split at hc
              · rw [← Option.some.inj hc]
                rfl
              · cases hc
          | param name =>
              rw [PatternSegment.bind] at hc
              split at hc
              · cases hc
              · rw [← Option.some.inj hc]
                rfl

/-! ## The expression of a pattern -/

def PatternSegment.items : PatternSegment → List Item
  | .literal text => text.map .lit
  | .param name => [.group name]

/-- The items of the segments, with slashes between them. -/
def segmentItems : List PatternSegment → List Item
  | [] => []
  | [s] => s.items
  | s :: t :: segs => s.items ++ .lit (byte '/') :: segmentItems (t :: segs)

theorem isLiteralByte_spec {b : UInt8} (h : isLiteralByte b = true) :
    b ≠ byte ':' ∧ b ≠ byte '*' ∧ b ≠ byte '/' ∧ b ≠ byte '\\' := by
  refine ⟨?_, ?_, ?_, ?_⟩ <;> (rintro rfl; exact absurd h (by decide))

theorem isParamPart_spec {b : UInt8} (h : isParamPart b = true) :
    b ≠ byte ':' ∧ b ≠ byte '*' ∧ b ≠ byte '/' ∧ b ≠ byte '\\' := by
  refine ⟨?_, ?_, ?_, ?_⟩ <;> (rintro rfl; exact absurd h (by decide))

theorem pathMarks_cons_text {b : UInt8} (hcolon : b ≠ byte ':') (hstar : b ≠ byte '*')
    (s : ByteString) : pathMarks (b :: s) = .item (.lit b) :: pathMarks s := by
  rw [pathMarks, scanParams_text (fun h => hcolon h.1), List.map_cons, pieceMark, if_neg hstar]
  rfl

theorem pathMarks_literal {text : ByteString} (h : ∀ b ∈ text, isLiteralByte b = true)
    (s : ByteString) :
    pathMarks (text ++ s) = (text.map Item.lit).map .item ++ pathMarks s := by
  induction text with
  | nil => rfl
  | cons b text ih =>
      obtain ⟨hcolon, hstar, -, -⟩ := isLiteralByte_spec (h b (List.mem_cons_self ..))
      rw [List.cons_append, pathMarks_cons_text hcolon hstar,
        ih (fun c hc => h c (List.mem_cons_of_mem _ hc))]
      rfl

theorem identifier_part {name : ByteString} (hne : name ≠ []) (h : identifier name = name) :
    (name.head?.map isParamStart).getD false = true ∧ ∀ b ∈ name, isParamPart b = true := by
  rw [identifier] at h
  split at h
  · rename_i hstart
    exact ⟨hstart, List.takeWhile_eq_self_iff.mp h⟩
  · exact absurd h.symm hne

/-- A name ends where something else follows. -/
theorem identifier_append {name : ByteString} (hne : name ≠ []) (h : identifier name = name)
    {s : ByteString} (hs : ∀ b, s.head? = some b → isParamPart b = false) :
    identifier (name ++ s) = name := by
  obtain ⟨hstart, hpart⟩ := identifier_part hne h
  have htail : s.takeWhile isParamPart = [] := by
    cases s with
    | nil => rfl
    | cons b s => exact List.takeWhile_cons_of_neg (by rw [hs b rfl]; decide)
  have hhead : (name ++ s).head? = name.head? := by
    cases name with
    | nil => exact absurd rfl hne
    | cons b name => rfl
  rw [identifier, hhead, if_pos hstart, takeWhile_append_all hpart, htail, List.append_nil]

theorem pathMarks_param {name : ByteString} (hne : name ≠ []) (h : identifier name = name)
    {s : ByteString} (hs : ∀ b, s.head? = some b → isParamPart b = false) :
    pathMarks (byte ':' :: (name ++ s)) = .item (.group name) :: pathMarks s := by
  have hname := identifier_append hne h hs
  rw [pathMarks, scanParams_param (by rw [hname]; exact hne), hname, List.drop_left]
  rfl

theorem pathMarks_segment {seg : PatternSegment} (h : seg.Proper) {s : ByteString}
    (hs : ∀ b, s.head? = some b → isParamPart b = false) :
    pathMarks (seg.text ++ s) = seg.items.map .item ++ pathMarks s := by
  cases seg with
  | literal text => exact pathMarks_literal h s
  | param name => exact pathMarks_param h.1 h.2 hs

/-- The marks of a pattern are its items. -/
theorem pathMarks_unite {segs : List PatternSegment} (h : ∀ s ∈ segs, s.Proper) :
    pathMarks (unite (segs.map PatternSegment.text)) = (segmentItems segs).map .item := by
  induction segs with
  | nil => rfl
  | cons seg segs ih =>
      have hseg := h seg (List.mem_cons_self ..)
      have hrest := ih (fun s hs => h s (List.mem_cons_of_mem _ hs))
      cases segs with
      | nil =>
          have htext := pathMarks_segment hseg (s := []) nofun
          rw [List.append_nil] at htext
          rw [List.map_cons, List.map_nil, unite, List.intercalate_singleton, htext]
          exact List.append_nil _
      | cons seg' segs =>
          have hunite : unite ((seg :: seg' :: segs).map PatternSegment.text)
              = seg.text ++ byte '/' :: unite ((seg' :: segs).map PatternSegment.text) := by
            rw [unite, unite, List.map_cons, List.map_cons, List.intercalate_cons_cons]
            exact List.append_assoc _ _ _
          rw [hunite, pathMarks_segment hseg (fun b hb => by
            rw [← Option.some.inj hb]
            decide), pathMarks_cons_text (by decide) (by decide), hrest, segmentItems,
            List.map_append, List.map_cons]

/-- A text has neither star nor backslash. -/
theorem not_mem_text (p : SegmentPattern) : byte '*' ∉ p.text ∧ byte '\\' ∉ p.text := by
  have hproper : ∀ b, b ≠ byte '/' → b ≠ byte ':' → b ∈ p.text →
      isLiteralByte b = true ∨ isParamPart b = true := by
    intro b hslash hcolon hb
    obtain ⟨text, htext, hb⟩ := (mem_unite hslash).mp hb
    obtain ⟨seg, hseg, rfl⟩ := List.mem_map.mp htext
    have hproper := p.proper seg hseg
    cases seg with
    | literal text => exact .inl (hproper _ hb)
    | param name =>
        exact .inr ((identifier_part hproper.1 hproper.2).2 _
          ((List.mem_cons.mp hb).resolve_left hcolon))
  refine ⟨fun h => ?_, fun h => ?_⟩
  · exact absurd (hproper _ (by decide) (by decide) h) (by decide)
  · exact absurd (hproper _ (by decide) (by decide) h) (by decide)

/-- The tokens of a pattern's expression. -/
def SegmentPattern.tokens (p : SegmentPattern) : List Token :=
  (segmentItems p.segments).map (⟨·, false⟩)

theorem readAnchored_text (p : SegmentPattern) :
    readAnchored (paramRegexSource p.text) = some p.tokens := by
  rw [readAnchored_paramRegexSource (not_mem_text p).2, SegmentPattern.text,
    pathMarks_unite p.proper, tokensOf_items]
  rfl

/-- A segment's items read a text without a slash as the segment binds it. -/
theorem reads_segment {seg : PatternSegment} (h : seg.Proper) {s : ByteString} {caps : Captures} :
    Reads (seg.items.map (⟨·, false⟩)) s caps ↔ byte '/' ∉ s ∧ seg.bind s = some caps := by
  cases seg with
  | literal text =>
      rw [PatternSegment.items, List.map_map, PatternSegment.bind]
      refine (@reads_lits text s caps).trans ?_
      constructor
      · rintro ⟨rfl, rfl⟩
        exact ⟨fun hslash => (isLiteralByte_spec (h _ hslash)).2.2.1 rfl, if_pos rfl⟩
      · rintro ⟨-, hbind⟩
        split at hbind
        · exact ⟨‹s = text›, (Option.some.inj hbind).symm⟩
        · cases hbind
  | param name =>
      rw [PatternSegment.bind]
      refine (@reads_group name s caps).trans ?_
      constructor
      · rintro ⟨⟨hne, hslash⟩, rfl⟩
        exact ⟨hslash, if_neg hne⟩
      · rintro ⟨hslash, hbind⟩
        split at hbind
        · cases hbind
        · exact ⟨⟨‹¬s = []›, hslash⟩, (Option.some.inj hbind).symm⟩

theorem reads_slash {s : ByteString} {caps : Captures} :
    Reads [⟨.lit (byte '/'), false⟩] s caps ↔ s = [byte '/'] ∧ caps = [] :=
  @reads_lits [byte '/'] s caps

/-- The items of segments read what the segments bind, slashes in between. -/
theorem reads_segments {segs : List PatternSegment} (hne : segs ≠ []) (h : ∀ s ∈ segs, s.Proper)
    {s : ByteString} {caps : Captures} :
    Reads ((segmentItems segs).map (⟨·, false⟩)) s caps ↔
      ∃ path, path ≠ [] ∧ (∀ t ∈ path, byte '/' ∉ t) ∧ s = unite path ∧
        bindSegments segs path = some caps := by
  induction segs generalizing s caps with
  | nil => exact absurd rfl hne
  | cons seg segs ih =>
      have hseg := h seg (List.mem_cons_self ..)
      cases segs with
      | nil =>
          refine (reads_segment hseg).trans ?_
          constructor
          · rintro ⟨hslash, hbind⟩
            exact ⟨[s], List.cons_ne_nil _ _, fun t ht => List.mem_singleton.mp ht ▸ hslash,
              List.intercalate_singleton.symm, bindSegments_cons.mpr
                ⟨caps, [], hbind, rfl, (List.append_nil caps).symm⟩⟩
          · rintro ⟨path, -, hslash, rfl, hbind⟩
            cases path with
            | nil => cases hbind
            | cons first rest =>
                obtain ⟨c, d, hc, hd, rfl⟩ := bindSegments_cons.mp hbind
                cases rest with
                | cons second rest => cases hd
                | nil =>
                    obtain rfl := Option.some.inj hd
                    rw [unite, List.intercalate_singleton, List.append_nil]
                    exact ⟨hslash first (List.mem_cons_self ..), hc⟩
      | cons seg' segs =>
          have hrest := @ih (List.cons_ne_nil _ _) (fun t ht => h t (List.mem_cons_of_mem _ ht))
          have hitems : (segmentItems (seg :: seg' :: segs)).map (⟨·, false⟩ : Item → Token)
              = seg.items.map (⟨·, false⟩) ++ ([⟨.lit (byte '/'), false⟩] ++
                (segmentItems (seg' :: segs)).map (⟨·, false⟩)) := by
            rw [segmentItems, List.map_append]
            rfl
          rw [hitems, reads_append]
          constructor
          · rintro ⟨a, b, c, d, rfl, rfl, ha, hb⟩
            obtain ⟨hslash, hbind⟩ := (reads_segment hseg).mp ha
            obtain ⟨x, y, e, f, rfl, rfl, hx, hy⟩ := reads_append.mp hb
            obtain ⟨rfl, rfl⟩ := reads_slash.mp hx
            obtain ⟨path, hpath, hslashes, rfl, hbinds⟩ := hrest.mp hy
            refine ⟨a :: path, List.cons_ne_nil _ _, ?_, ?_, bindSegments_cons.mpr
              ⟨c, f, hbind, hbinds, rfl⟩⟩
            · intro t ht
              rcases List.mem_cons.mp ht with rfl | ht
              · exact hslash
              · exact hslashes t ht
            · cases path with
              | nil => exact absurd rfl hpath
              | cons first rest =>
                  rw [unite, unite, List.intercalate_cons_cons, List.append_assoc]
          · rintro ⟨path, -, hslash, rfl, hbind⟩
            cases path with
            | nil => cases hbind
            | cons first rest =>
                obtain ⟨c, d, hc, hd, rfl⟩ := bindSegments_cons.mp hbind
                cases rest with
                | nil => cases hd
                | cons second rest =>
                    refine ⟨first, byte '/' :: unite (second :: rest), c, d, ?_, rfl,
                      (reads_segment hseg).mpr ⟨hslash first (List.mem_cons_self ..), hc⟩, ?_⟩
                    · rw [unite, unite, List.intercalate_cons_cons, List.append_assoc]
                      rfl
                    · exact reads_append.mpr ⟨[byte '/'], unite (second :: rest), [], d, rfl, rfl,
                        reads_slash.mpr ⟨rfl, rfl⟩, hrest.mpr ⟨second :: rest,
                          List.cons_ne_nil _ _,
                          fun t ht => hslash t (List.mem_cons_of_mem _ ht), rfl, hd⟩⟩

/-- **THE READING.**  The expression of a pattern reads a path in one way at most, which is what
    the pattern binds. -/
theorem SegmentPattern.reads_iff (p : SegmentPattern) {path : ByteString} {caps : Captures} :
    Reads p.tokens path caps ↔ p.bindings path = some caps := by
  rw [SegmentPattern.tokens, reads_segments p.nonempty p.proper]
  constructor
  · rintro ⟨pieces, hne, hslash, rfl, hbind⟩
    rw [SegmentPattern.bindings, segments_unite hne hslash]
    exact hbind
  · intro h
    exact ⟨PathSegments.segments path, segments_ne_nil path, not_slash_of_mem_segments,
      (unite_segments path).symm, h⟩

end VHono
