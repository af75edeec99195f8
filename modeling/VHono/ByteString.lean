import Mathlib.Tactic

/-! # Byte strings

    Strings as lists of bytes, the view in which a systems language indexes,
    slices and compares them.  Literals are written as ASCII text through
    `ascii`, which kernel reduction evaluates, so closed facts about concrete
    strings are decidable by computation. -/

/-- A string as the list of its bytes. -/
abbrev ByteString := List UInt8

namespace ByteString

instance lawfulBEq : LawfulBEq ByteString := inferInstance

/-- A property of the members of a list is decided along the list, not over all values of the type. -/
instance (priority := 5000) decidableForallMem {α : Type*} (s : List α) (p : α → Prop)
    [DecidablePred p] : Decidable (∀ a ∈ s, p a) := List.decidableBAll p s

instance (priority := 5000) decidableExistsMem {α : Type*} (s : List α) (p : α → Prop)
    [DecidablePred p] : Decidable (∃ a ∈ s, p a) := List.decidableBEx p s

/-- The bytes of an ASCII literal. -/
def ascii (s : String) : ByteString := s.toList.map (fun c => c.toNat.toUInt8)

/-- The byte of an ASCII character. -/
def byte (c : Char) : UInt8 := c.toNat.toUInt8

/-- `s.starts_with(p)` -/
def startsWith (s p : ByteString) : Bool := p.isPrefixOf s

theorem startsWith_iff {s p : ByteString} : startsWith s p = true ↔ p <+: s :=
  List.isPrefixOf_iff_prefix

@[simp] theorem startsWith_nil (s : ByteString) : startsWith s [] = true := by
  simp [startsWith]

theorem startsWith_append (p s : ByteString) : startsWith (p ++ s) p = true :=
  startsWith_iff.mpr (List.prefix_append p s)

/-- `s.contains(pat)` -/
def containsStr (s pat : ByteString) : Bool := s.tails.any (startsWith · pat)

/-- `s.replace(pat, rep)` from the left, without overlaps; the counter skips
    the bytes of a match already replaced. -/
def replaceFrom (pat rep : ByteString) : Nat → ByteString → ByteString
  | _, [] => []
  | skip + 1, _ :: s => replaceFrom pat rep skip s
  | 0, b :: s =>
    if startsWith (b :: s) pat then rep ++ replaceFrom pat rep (pat.length - 1) s
    else b :: replaceFrom pat rep 0 s

def replaceStr (s pat rep : ByteString) : ByteString := replaceFrom pat rep 0 s

/-- A separator that does not occur in the left parts splits uniquely. -/
theorem append_sep_inj {α : Type*} {c : α} {a a' b b' : List α}
    (ha : c ∉ a) (ha' : c ∉ a') (h : a ++ c :: b = a' ++ c :: b') : a = a' ∧ b = b' := by
  induction a generalizing a' with
  | nil =>
      cases a' with
      | nil => exact ⟨rfl, (List.cons.inj h).2⟩
      | cons x a' =>
          have hx : c = x := (List.cons.inj h).1
          exact absurd (hx ▸ List.mem_cons_self ..) ha'
  | cons x a ih =>
      cases a' with
      | nil =>
          have hx : x = c := (List.cons.inj h).1
          exact absurd (hx ▸ List.mem_cons_self ..) ha
      | cons y a' =>
          have hxy : x = y := (List.cons.inj h).1
          have htl := (List.cons.inj h).2
          obtain ⟨h1, h2⟩ := ih (fun hc => ha (List.mem_cons_of_mem _ hc))
            (fun hc => ha' (List.mem_cons_of_mem _ hc)) htl
          exact ⟨by rw [hxy, h1], h2⟩

end ByteString
