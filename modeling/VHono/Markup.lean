import VHono.CheckedSlices

/-! # Texts with tags

    A document as the row of its pieces: tags, with what stands between their
    angle brackets, and the texts between tags, which hold no opening bracket.
    The search for a tag in the document's text finds the first piece that is
    this tag. -/

namespace Markup

open ByteString

/-- A tag or a text between tags. -/
inductive Piece
  | tag (inner : ByteString)
  | text (t : ByteString)
  deriving DecidableEq

def tagText (inner : ByteString) : ByteString := byte '<' :: (inner ++ [byte '>'])

def Piece.render : Piece → ByteString
  | .tag inner => tagText inner
  | .text t => t

/-- The brackets stand around tags alone. -/
def Piece.Sound : Piece → Prop
  | .tag inner => byte '<' ∉ inner ∧ byte '>' ∉ inner
  | .text t => byte '<' ∉ t

instance soundDecidable : (p : Piece) → Decidable p.Sound
  | .tag _ => inferInstanceAs (Decidable (_ ∧ _))
  | .text _ => inferInstanceAs (Decidable (_ ∉ _))

def render (pieces : List Piece) : ByteString := pieces.flatMap Piece.render

def Sound (pieces : List Piece) : Prop := ∀ p ∈ pieces, p.Sound

@[simp] theorem render_nil : render [] = [] := rfl

@[simp] theorem render_cons (p : Piece) (pieces : List Piece) :
    render (p :: pieces) = p.render ++ render pieces := rfl

@[simp] theorem render_singleton (p : Piece) : render [p] = p.render := List.append_nil _

theorem tagText_ne_nil (inner : ByteString) : tagText inner ≠ [] := List.cons_ne_nil _ _

@[simp] theorem render_append (pieces pieces' : List Piece) :
    render (pieces ++ pieces') = render pieces ++ render pieces' :=
  List.flatMap_append

theorem sound_cons {p : Piece} {pieces : List Piece} :
    Sound (p :: pieces) ↔ p.Sound ∧ Sound pieces :=
  List.forall_mem_cons

theorem sound_append {pieces pieces' : List Piece} :
    Sound (pieces ++ pieces') ↔ Sound pieces ∧ Sound pieces' :=
  List.forall_mem_append

/-- Where a tag begins in the document's text. -/
def position (inner : ByteString) : List Piece → Option Nat
  | [] => none
  | p :: pieces =>
    if p = .tag inner then some 0 else (position inner pieces).map (· + p.render.length)

theorem position_eq_none {inner : ByteString} {pieces : List Piece}
    (h : Piece.tag inner ∉ pieces) : position inner pieces = none := by
  induction pieces with
  | nil => rfl
  | cons p pieces ih =>
      obtain ⟨hp, hrest⟩ := not_or.mp (fun hor => h (List.mem_cons.mpr hor))
      rw [position, if_neg (fun heq => hp heq.symm), ih hrest]
      rfl

theorem position_append {inner : ByteString} {before : List Piece}
    (h : Piece.tag inner ∉ before) (behind : List Piece) :
    position inner (before ++ behind)
      = (position inner behind).map (· + (render before).length) := by
  induction before with
  | nil => simp
  | cons p before ih =>
      obtain ⟨hp, hrest⟩ := not_or.mp (fun hor => h (List.mem_cons.mpr hor))
      rw [List.cons_append, position, if_neg (fun heq => hp heq.symm), ih hrest, Option.map_map,
        render_cons, List.length_append]
      congr 1
      funext k
      show k + (render before).length + p.render.length = _
      omega

theorem position_found {inner : ByteString} {before : List Piece}
    (h : Piece.tag inner ∉ before) (behind : List Piece) :
    position inner (before ++ .tag inner :: behind) = some (render before).length := by
  rw [position_append h, position, if_pos rfl, Option.map_some, Nat.zero_add]

/-- One tag begins with another only if they are the same. -/
theorem startsWith_tagText {inner other : ByteString} (hinner : byte '>' ∉ inner)
    (hother : byte '>' ∉ other) (s : ByteString) :
    startsWith (tagText other ++ s) (tagText inner) = decide (other = inner) := by
  rw [Bool.eq_iff_iff, decide_eq_true_eq, startsWith_iff]
  constructor
  · rintro ⟨rest, hrest⟩
    simp only [tagText, List.cons_append, List.append_assoc, List.nil_append] at hrest
    exact (append_sep_inj hinner hother (List.cons.inj hrest).2).1.symm
  · rintro rfl
    exact List.prefix_append _ _

/-- The search for a tag finds the first piece that is this tag. -/
theorem indexOf_render {inner : ByteString} (hinner : byte '<' ∉ inner ∧ byte '>' ∉ inner)
    {pieces : List Piece} (h : Sound pieces) :
    indexOf (tagText inner) (render pieces) = position inner pieces := by
  induction pieces with
  | nil => rfl
  | cons p pieces ih =>
      obtain ⟨hp, hrest⟩ := sound_cons.mp h
      rw [render_cons, position]
      cases p with
      | text t =>
          have hskip : indexOf (tagText inner) (t ++ render pieces)
              = (indexOf (tagText inner) (render pieces)).map (· + t.length) := indexOf_append hp
          rw [if_neg (fun heq => Piece.noConfusion heq)]
          show indexOf (tagText inner) (t ++ render pieces) = _
          rw [hskip, ih hrest]
          rfl
      | tag other =>
          have hstart := startsWith_tagText hinner.2 hp.2 (render pieces)
          show indexOf (tagText inner) (tagText other ++ render pieces) = _
          by_cases hsame : other = inner
          · subst hsame
            rw [if_pos rfl, indexOf_here (startsWith_append _ _)]
          · rw [decide_eq_false hsame] at hstart
            have hfree : byte '<' ∉ other ++ [byte '>'] := by
              rw [List.mem_append, List.mem_singleton, not_or]
              exact ⟨hp.1, by decide⟩
            have hskip : indexOf (tagText inner) (tagText other ++ render pieces)
                = (indexOf (tagText inner) (other ++ [byte '>'] ++ render pieces)).map (· + 1) :=
              indexOf_skip hstart
            have hmove : indexOf (tagText inner) (other ++ [byte '>'] ++ render pieces)
                = (indexOf (tagText inner) (render pieces)).map
                    (· + (other ++ [byte '>']).length) := indexOf_append hfree
            rw [if_neg (fun heq => hsame (Piece.tag.inj heq)), hskip, hmove, ih hrest,
              Option.map_map]
            rfl

end Markup
