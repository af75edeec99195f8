import VHono.ChunkForms

/-! # The numbers of an upload

    The checks of an index and of a size take a run of digits of any length and
    narrow it to an `int` before they look at its bounds.  A number past the
    largest `int` becomes that one, so it is refused where a bound stands in
    its way and else is taken for a smaller number. -/

namespace VHono

open ByteString

/-- What the narrowing makes of a run of digits. -/
theorem digitsToInt_eq {s : ByteString} {v : Nat} (h : readDecimal s = some v) :
    digitsToInt s = min v (2 ^ 31 - 1) := by
  rw [digitsToInt, h, Option.getD_some]

theorem readDecimal_isSome {s : ByteString} :
    (∃ v, readDecimal s = some v) ↔ s ≠ [] ∧ s.all isDigitByte = true := by
  rw [readDecimal]
  split
  · rename_i h
    exact iff_of_true ⟨_, rfl⟩ h
  · rename_i h
    refine iff_of_false ?_ h
    rintro ⟨v, hv⟩
    cases hv

section

variable {s : ByteString} {n : Nat}

/-- Both checks look at the digits first. -/
theorem digits_ok {empty other : ByteString} {rest : Except ByteString Nat} :
    (if s.length = 0 then .error empty else if s.all isDigitByte = false then .error other else rest)
        = .ok n ↔ (∃ v, readDecimal s = some v) ∧ rest = .ok n := by
  rw [readDecimal_isSome]
  split
  · rename_i hlength
    exact iff_of_false (by rintro ⟨⟩) (fun h => h.1.1 (List.length_eq_zero_iff.mp hlength))
  · rename_i hlength
    split
    · rename_i hdigits
      refine iff_of_false (by rintro ⟨⟩) (fun h => ?_)
      rw [hdigits] at h
      exact Bool.false_ne_true h.1.2
    · rename_i hdigits
      rw [Bool.not_eq_false] at hdigits
      exact (and_iff_right ⟨fun h => hlength (List.length_eq_zero_iff.mpr h), hdigits⟩).symm

/-- An index passes as a number within the bound, if there is one. -/
theorem validateChunkIndex_ok {maxChunks : Nat} : validateChunkIndex s maxChunks = .ok n ↔
    ∃ v, readDecimal s = some v ∧ n = min v (2 ^ 31 - 1) ∧ ¬(maxChunks > 0 ∧ n ≥ maxChunks) := by
  rw [validateChunkIndex, digits_ok, exists_and_right.symm]
  refine exists_congr (fun v => and_congr_right (fun hv => ?_))
  rw [digitsToInt_eq hv]
  dsimp only
  constructor
  · intro h
    split at h
    · cases h
    · rename_i hbound
      obtain rfl := Except.ok.inj h
      exact ⟨rfl, hbound⟩
  · rintro ⟨rfl, hbound⟩
    rw [if_neg hbound]

/-- A size passes as a positive number within the bound. -/
theorem validateFileSize_ok {maxSize : Int} : validateFileSize s maxSize = .ok n ↔
    ∃ v, readDecimal s = some v ∧ n = min v (2 ^ 31 - 1) ∧ n ≠ 0 ∧ ¬(n : Int) > maxSize := by
  rw [validateFileSize, digits_ok, exists_and_right.symm]
  refine exists_congr (fun v => and_congr_right (fun hv => ?_))
  rw [digitsToInt_eq hv]
  dsimp only
  constructor
  · intro h
    split at h
    · cases h
    · rename_i hpositive
      split at h
      · cases h
      · rename_i hbound
        obtain rfl := Except.ok.inj h
        exact ⟨rfl, hpositive, hbound⟩
  · rintro ⟨rfl, hpositive, hbound⟩
    rw [if_neg hpositive, if_neg hbound]

end

/-! ## Numbers that are read as they are written -/

/-- An index that is returned is what the digits say, and within the bound; a bound of zero is
    none. -/
def IndexExact (s : ByteString) (maxChunks : Int) : Prop :=
  ∀ n, validateChunkIndex s maxChunks.toNat = .ok n →
    (s ≠ [] ∧ s.all isDigitByte = true) ∧ readDecimal s = some n ∧ (0 < maxChunks → n < maxChunks)

def SizeExact (s : ByteString) (maxSize : Int) : Prop :=
  ∀ n, validateFileSize s maxSize = .ok n →
    (s ≠ [] ∧ s.all isDigitByte = true) ∧ readDecimal s = some n ∧ 0 < n ∧ n ≤ maxSize

/-- The number fits an `int`. -/
def FitsInt (s : ByteString) : Prop := ∀ v ∈ readDecimal s, v < 2 ^ 31

theorem indexExact_iff {s : ByteString} {maxChunks : Int} (hmax : maxChunks < 2 ^ 31) :
    IndexExact s maxChunks ↔ 0 < maxChunks ∨ FitsInt s := by
  constructor
  · intro h
    by_contra hnot
    obtain ⟨hunbounded, hlong⟩ := not_or.mp hnot
    obtain ⟨v, hv, hlarge⟩ : ∃ v, readDecimal s = some v ∧ ¬ v < 2 ^ 31 := by
      by_contra hfits
      exact hlong (fun v hv => by_contra fun hlarge => hfits ⟨v, hv, hlarge⟩)
    obtain ⟨-, hread, -⟩ := h (2 ^ 31 - 1)
      (validateChunkIndex_ok.mpr ⟨v, hv, by omega, fun hbound => by omega⟩)
    have hsame := Option.some.inj (hv.symm.trans hread)
    omega
  · intro h n hn
    obtain ⟨v, hv, hmin, hbound⟩ := validateChunkIndex_ok.mp hn
    have hsmall : v < 2 ^ 31 := by
      rcases h with hpositive | hfits
      · -- the largest number would be past the bound
        by_contra hlarge
        exact hbound (by omega)
      · exact hfits v hv
    obtain rfl : n = v := by omega
    exact ⟨readDecimal_isSome.mp ⟨n, hv⟩, hv, fun hpositive => by omega⟩

theorem sizeExact_iff {s : ByteString} {maxSize : Int} (hmax : maxSize < 2 ^ 31) :
    SizeExact s maxSize ↔ maxSize < 2 ^ 31 - 1 ∨ FitsInt s := by
  constructor
  · intro h
    by_contra hnot
    obtain ⟨hunbounded, hlong⟩ := not_or.mp hnot
    obtain ⟨v, hv, hlarge⟩ : ∃ v, readDecimal s = some v ∧ ¬ v < 2 ^ 31 := by
      by_contra hfits
      exact hlong (fun v hv => by_contra fun hlarge => hfits ⟨v, hv, hlarge⟩)
    obtain ⟨-, hread, -, -⟩ := h (2 ^ 31 - 1)
      (validateFileSize_ok.mpr ⟨v, hv, by omega, by decide, by omega⟩)
    have hsame := Option.some.inj (hv.symm.trans hread)
    omega
  · intro h n hn
    obtain ⟨v, hv, hmin, hpositive, hbound⟩ := validateFileSize_ok.mp hn
    have hsmall : v < 2 ^ 31 := by
      rcases h with hroom | hfits
      · by_contra hlarge
        omega
      · exact hfits v hv
    obtain rfl : n = v := by omega
    exact ⟨readDecimal_isSome.mp ⟨n, hv⟩, hv, by omega, by omega⟩

/-- **EXACT NUMBERS.**  The checks return what the digits say exactly if the number fits an `int`
    or a bound keeps the largest `int` out. -/
theorem uploadNumbers_exact_iff (s : ByteString) (maxChunks maxSize : Int)
    (hchunks : maxChunks < 2 ^ 31) (hsize : maxSize < 2 ^ 31) :
    (IndexExact s maxChunks ↔ 0 < maxChunks ∨ FitsInt s) ∧
      (SizeExact s maxSize ↔ maxSize < 2 ^ 31 - 1 ∨ FitsInt s) :=
  ⟨indexExact_iff hchunks, sizeExact_iff hsize⟩

theorem uploadNumbers_exact_twelve :
    IndexExact (ascii "0012") 0 ∧ SizeExact (ascii "0012") 1048576 := by
  have hfits : FitsInt (ascii "0012") := by
    rintro v hv
    obtain rfl : 12 = v := Option.some.inj hv
    decide
  obtain ⟨hindex, hsize⟩ := uploadNumbers_exact_iff (ascii "0012") 0 1048576 (by decide) (by decide)
  exact ⟨hindex.mpr (.inr hfits), hsize.mpr (.inr hfits)⟩

/-- Without a bound, an index of eleven digits is taken for the largest `int`. -/
theorem long_index_accepted :
    ¬ ∀ (s : ByteString) (maxChunks maxSize : Int), maxChunks < 2 ^ 31 → maxSize < 2 ^ 31 →
      IndexExact s maxChunks ∧ SizeExact s maxSize := by
  intro h
  have hread : readDecimal (ascii "99999999999") = some 99999999999 := by decide +kernel
  have hpass : validateChunkIndex (ascii "99999999999") 0 = .ok 2147483647 :=
    validateChunkIndex_ok.mpr ⟨_, hread, by decide, by decide⟩
  obtain ⟨-, hsame, -⟩ := (h (ascii "99999999999") 0 0 (by decide) (by decide)).1 _ hpass
  rw [hread] at hsame
  exact absurd (Option.some.inj hsame) (by decide)

end VHono
