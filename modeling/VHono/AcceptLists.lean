import VHono.ByteCompare
import VHono.ByteDecimals
import VHono.HttpGrammar

/-! # Lists of accepted codings

    The value of a field that lists what its sender accepts: elements with commas
    between them, each a coding and a weight from 0 to 1, either of which may be
    left out.  A coding of weight 0 is refused; a star stands for every coding
    that is not listed.  A text without the bytes around the codings occurs in the
    value exactly if it occurs in a coding. -/

namespace HttpGrammar

open ByteString

/-- `;q=0.5`, with blanks around the semicolon. -/
structure Weight where
  before       : ByteString
  after        : ByteString
  letter       : UInt8
  whole        : Bool
  fraction     : Option ByteString
  before_blank : ∀ b ∈ before, isBlank b = true
  after_blank  : ∀ b ∈ after, isBlank b = true
  letter_q     : letter = byte 'q' ∨ letter = byte 'Q'
  digits       : ∀ ds ∈ fraction, ds.length ≤ 3 ∧ ∀ b ∈ ds, isDigitByte b = true
  at_most_one  : whole = true → ∀ ds ∈ fraction, ∀ b ∈ ds, b = byte '0'

namespace Weight

def text (w : Weight) : ByteString :=
  w.before ++ byte ';' :: (w.after ++ w.letter :: byte '=' ::
    (if w.whole = true then byte '1' else byte '0') :: (w.fraction.elim [] (byte '.' :: ·)))

/-- The weight is more than 0. -/
def Positive (w : Weight) : Prop :=
  w.whole = true ∨ ∃ ds ∈ w.fraction, ∃ b ∈ ds, b ≠ byte '0'

end Weight

/-- A coding and its weight. -/
structure Preference where
  coding       : ByteString
  weight       : Option Weight
  coding_ne    : coding ≠ []
  coding_token : ∀ b ∈ coding, isTokenByte b = true

namespace Preference

def text (p : Preference) : ByteString := p.coding ++ p.weight.elim [] Weight.text

/-- The weight is 1 where none is written. -/
def Positive (p : Preference) : Prop := ∀ w ∈ p.weight, w.Positive

end Preference

/-- An element of the list, with the blanks around it.  An element may be empty. -/
structure AcceptElement where
  before       : ByteString
  after        : ByteString
  preference   : Option Preference
  before_blank : ∀ b ∈ before, isBlank b = true
  after_blank  : ∀ b ∈ after, isBlank b = true

def AcceptElement.text (e : AcceptElement) : ByteString :=
  e.before ++ (e.preference.elim [] Preference.text ++ e.after)

/-- The value of the field. -/
def acceptText (elements : List AcceptElement) : ByteString :=
  [byte ','].intercalate (elements.map AcceptElement.text)

def preferences (elements : List AcceptElement) : List Preference :=
  elements.filterMap AcceptElement.preference

/-- A coding, given by its names, is accepted: by name, or by a star where no name of it is
    listed. -/
def Accepts (elements : List AcceptElement) (named : ByteString → Bool) : Prop :=
  (∃ p ∈ preferences elements, named p.coding = true ∧ p.Positive) ∨
  ((∀ p ∈ preferences elements, named p.coding = false) ∧
    ∃ p ∈ preferences elements, p.coding = ascii "*" ∧ p.Positive)

/-! ## What occurs in the value -/

/-- The bytes of the value that are not those of a coding. -/
def isFrameByte (b : UInt8) : Bool :=
  isBlank b || isDigitByte b || (ascii ",;=.qQ").contains b

/-- No byte of the text is one of these. -/
def Unframed (pat : ByteString) : Prop := pat ≠ [] ∧ ∀ b ∈ pat, isFrameByte b = false

theorem Unframed.free {pat : ByteString} (h : Unframed pat) {t : ByteString}
    (ht : ∀ b ∈ t, isFrameByte b = true) : ∀ b ∈ t, b ∉ pat := by
  intro b hb hmem
  have hframe := ht b hb
  rw [h.2 b hmem] at hframe
  cases hframe

theorem isFrameByte_of_isBlank {b : UInt8} (h : isBlank b = true) : isFrameByte b = true := by
  rw [isFrameByte, h, Bool.true_or, Bool.true_or]

theorem isFrameByte_of_isDigitByte {b : UInt8} (h : isDigitByte b = true) :
    isFrameByte b = true := by
  rw [isFrameByte, h, Bool.or_true, Bool.true_or]

theorem Weight.isFrameByte_text (w : Weight) : ∀ b ∈ w.text, isFrameByte b = true := by
  intro b hb
  rw [Weight.text] at hb
  simp only [List.mem_append, List.mem_cons] at hb
  rcases hb with hb | rfl | hb | rfl | rfl | rfl | hb
  · exact isFrameByte_of_isBlank (w.before_blank b hb)
  · decide
  · exact isFrameByte_of_isBlank (w.after_blank b hb)
  · rcases w.letter_q with h | h
    · rw [h]
      decide
    · rw [h]
      decide
  · decide
  · split
    · decide
    · decide
  · cases hfraction : w.fraction with
    | none =>
        rw [hfraction] at hb
        cases hb
    | some ds =>
        rw [hfraction] at hb
        rcases List.mem_cons.mp hb with rfl | hb
        · decide
        · exact isFrameByte_of_isDigitByte ((w.digits ds hfraction).2 b hb)

theorem Preference.containsStr_text (p : Preference) {pat : ByteString} (h : Unframed pat) :
    containsStr p.text pat = containsStr p.coding pat := by
  rw [Preference.text]
  cases hweight : p.weight with
  | none =>
      show containsStr (p.coding ++ []) pat = _
      rw [List.append_nil]
  | some w => exact containsStr_append_free h.1 _ (h.free w.isFrameByte_text)

theorem AcceptElement.containsStr_text (e : AcceptElement) {pat : ByteString} (h : Unframed pat) :
    containsStr e.text pat = e.preference.any (fun p => containsStr p.coding pat) := by
  have hbefore := h.free (fun b hb => isFrameByte_of_isBlank (e.before_blank b hb))
  have hafter := h.free (fun b hb => isFrameByte_of_isBlank (e.after_blank b hb))
  rw [AcceptElement.text, containsStr_free_append h.1 _ hbefore,
    containsStr_append_free h.1 _ hafter]
  cases e.preference with
  | none => exact containsStr_nil h.1
  | some p => exact p.containsStr_text h

/-- **WHERE A TEXT OCCURS.**  It occurs in the value exactly if it occurs in a coding. -/
theorem containsStr_acceptText {pat : ByteString} (h : Unframed pat)
    (elements : List AcceptElement) :
    containsStr (acceptText elements) pat = true ↔
      ∃ p ∈ preferences elements, containsStr p.coding pat = true := by
  have hcomma : byte ',' ∉ pat :=
    h.free (fun b hb => by rw [List.mem_singleton.mp hb]; decide) _ (List.mem_singleton.mpr rfl)
  rw [acceptText, containsStr_intercalate hcomma h.1, List.any_map, List.any_eq_true]
  constructor
  · rintro ⟨e, he, hcontains⟩
    have hcoding : e.preference.any (fun p => containsStr p.coding pat) = true :=
      (e.containsStr_text h).symm.trans hcontains
    cases hpreference : e.preference with
    | none =>
        rw [hpreference] at hcoding
        cases hcoding
    | some p =>
        rw [hpreference] at hcoding
        exact ⟨p, List.mem_filterMap.mpr ⟨e, he, hpreference⟩, hcoding⟩
  · rintro ⟨p, hp, hpat⟩
    obtain ⟨e, he, hpreference⟩ := List.mem_filterMap.mp hp
    refine ⟨e, he, ?_⟩
    show containsStr e.text pat = true
    rw [e.containsStr_text h, hpreference]
    exact hpat

end HttpGrammar
