import VHono.ByteScan

/-! # Checked slices and searches

    A slice whose bounds are out of order or past the end is none, and a search
    says where the pattern stands.  Two patterns that begin with the same byte,
    a byte that the first does not hold again, cannot overlap; so a slice from
    the end of the one to the start of the other is in order exactly if the
    starts are. -/

namespace CheckedSlices

open ByteString

section
variable {α : Type}

/-- `s[i..e]`, if the bounds are in order and within the text or the array. -/
def cut (s : List α) (i e : Nat) : Option (List α) :=
  if i ≤ e ∧ e ≤ s.length then some ((s.take e).drop i) else none

theorem cut_rest {s : List α} {i : Nat} (hi : i ≤ s.length) :
    cut s i s.length = some (s.drop i) := by
  rw [cut, if_pos ⟨hi, Nat.le_refl _⟩, List.take_length]

theorem cut_isSome {s : List α} {i e : Nat} : (cut s i e).isSome ↔ i ≤ e ∧ e ≤ s.length := by
  rw [cut]
  split
  · rename_i h
    exact iff_of_true rfl h
  · rename_i h
    exact iff_of_false (fun hnone => by cases hnone) h

end

theorem cut_within {s : ByteString} {i e : Nat} (hi : i ≤ e) (he : e ≤ s.length) :
    cut s i e = some (slice s i e) :=
  if_pos ⟨hi, he⟩

theorem slice_drop (s : ByteString) (p i e : Nat) :
    slice s (p + i) (p + e) = slice (s.drop p) i e := by
  rw [slice, slice, List.drop_take, List.drop_take, List.drop_drop, Nat.add_sub_add_left]

/-! ## What a search finds -/

theorem indexOf_spec {pat s : ByteString} {i : Nat} (h : indexOf pat s = some i) :
    pat <+: s.drop i ∧ i + pat.length ≤ s.length := by
  induction s generalizing i with
  | nil =>
      by_cases hpat : pat = []
      · rw [indexOf, if_pos hpat] at h
        obtain rfl := Option.some.inj h
        subst hpat
        exact ⟨List.nil_prefix, Nat.le_refl _⟩
      · rw [indexOf, if_neg hpat] at h
        cases h
  | cons b s ih =>
      cases hstart : startsWith (b :: s) pat with
      | true =>
          rw [indexOf_here hstart] at h
          obtain rfl := Option.some.inj h
          have hpat := startsWith_iff.mp hstart
          exact ⟨hpat, by rw [Nat.zero_add]; exact hpat.length_le⟩
      | false =>
          rw [indexOf_skip hstart] at h
          obtain ⟨k, hk, rfl⟩ := Option.map_eq_some_iff.mp h
          obtain ⟨hpat, hlen⟩ := ih hk
          refine ⟨hpat, ?_⟩
          rw [List.length_cons]
          omega

theorem indexFrom_spec {pat s : ByteString} {start i : Nat} (h : indexFrom pat s start = some i)
    (hpat : pat ≠ []) : start ≤ i ∧ pat <+: s.drop i ∧ i + pat.length ≤ s.length := by
  obtain ⟨k, hk, rfl⟩ := Option.map_eq_some_iff.mp h
  obtain ⟨hlead, hlen⟩ := indexOf_spec hk
  rw [List.drop_drop, Nat.add_comm] at hlead
  rw [List.length_drop] at hlen
  have hpos : 0 < pat.length := List.length_pos_iff.mpr hpat
  exact ⟨Nat.le_add_left _ _, hlead, by omega⟩

/-- A search from a position is one in what lies behind it. -/
theorem indexFrom_drop (pat s : ByteString) (p i : Nat) :
    indexFrom pat s (p + i) = (indexFrom pat (s.drop p) i).map (p + ·) := by
  rw [indexFrom, indexFrom, List.drop_drop, Option.map_map]
  refine congrArg (fun f => Option.map f (indexOf pat (s.drop (p + i)))) (funext (fun k => ?_))
  show k + (p + i) = p + (k + i)
  omega

/-! ## Patterns that cannot overlap -/

/-- Both patterns begin with one byte, which the first holds only there, and their second bytes
    differ. -/
structure Apart (c : UInt8) (first second : ByteString) : Prop where
  begins  : second[0]? = some c
  once    : c ∉ first.tail
  differs : first[1]? ≠ second[1]?
  long    : 2 ≤ first.length ∧ 2 ≤ second.length

instance apartDecidable (c : UInt8) (first second : ByteString) :
    Decidable (Apart c first second) :=
  decidable_of_iff (second[0]? = some c ∧ c ∉ first.tail ∧ first[1]? ≠ second[1]? ∧
      2 ≤ first.length ∧ 2 ≤ second.length)
    ⟨fun ⟨begins, once, differs, long⟩ => ⟨begins, once, differs, long⟩,
      fun h => ⟨h.begins, h.once, h.differs, h.long⟩⟩

theorem getElem?_of_lead {pat s : ByteString} {i k : Nat} (h : pat <+: s.drop i)
    (hk : k < pat.length) : s[i + k]? = pat[k]? := by
  obtain ⟨rest, hrest⟩ := h
  rw [← List.getElem?_drop, ← hrest, List.getElem?_append_left hk]

theorem Apart.end_le {c : UInt8} {first second s : ByteString} {i j : Nat}
    (h : Apart c first second) (hi : first <+: s.drop i) (hj : second <+: s.drop j) (hij : i ≤ j) :
    i + first.length ≤ j := by
  by_contra hover
  have hsecond : s[j]? = some c := by
    rw [← h.begins]
    exact getElem?_of_lead (k := 0) hj (by have := h.long; omega)
  obtain ⟨k, rfl⟩ := Nat.exists_eq_add_of_le hij
  have hk : k < first.length := by omega
  rw [getElem?_of_lead hi hk] at hsecond
  -- the second pattern would begin with the first one, or at a later byte of it
  cases k with
  | zero =>
      have hone : s[i + 1]? = first[1]? := getElem?_of_lead hi (by have := h.long; omega)
      have htwo : s[i + 1]? = second[1]? := getElem?_of_lead hj (by have := h.long; omega)
      exact h.differs (hone.symm.trans htwo)
  | succ k =>
      refine h.once (List.mem_iff_getElem?.mpr ⟨k, ?_⟩)
      rw [List.getElem?_tail]
      exact hsecond

/-- The first of the one pattern, if there is one, is not behind the first of the other. -/
def InOrder (first second s : ByteString) : Prop :=
  ∀ i ∈ indexOf first s, ∀ j ∈ indexOf second s, i ≤ j

instance inOrderDecidable (first second s : ByteString) : Decidable (InOrder first second s) :=
  inferInstanceAs (Decidable (∀ i ∈ indexOf first s, ∀ j ∈ indexOf second s, i ≤ j))

end CheckedSlices
