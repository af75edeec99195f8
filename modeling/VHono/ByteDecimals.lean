import VHono.ByteString
import Mathlib.Tactic

/-! # Numbers printed in decimal

    Digits, a sign before a negative number, and the way back. -/

namespace ByteString

def decimal (n : Nat) : ByteString := (Nat.toDigits 10 n).map (fun c => c.toNat.toUInt8)

/-- `n.str()` -/
def intStr (n : Int) : ByteString :=
  if 0 ≤ n then decimal n.toNat else byte '-' :: decimal n.natAbs

def isDigitByte (b : UInt8) : Bool := byte '0' ≤ b && b ≤ byte '9'

/-- The number a run of digits stands for. -/
def readDecimal (s : ByteString) : Option Nat :=
  if s ≠ [] ∧ s.all isDigitByte = true then
    some (Nat.ofDigitChars 10 (s.map (fun b => Char.ofNat b.toNat)) 0)
  else none

/-- A digit is read back as itself. -/
theorem digit_byte {c : Char} (h : c.isDigit = true) :
    isDigitByte c.toNat.toUInt8 = true ∧ Char.ofNat c.toNat.toUInt8.toNat = c := by
  obtain ⟨hlo, hhi⟩ := Char.isDigit_iff_toNat.mp h
  have hbyte : c.toNat.toUInt8.toNat = c.toNat := by
    have hnine : '9'.toNat = 57 := rfl
    exact Nat.mod_eq_of_lt (by omega)
  have hle : byte '0' ≤ c.toNat.toUInt8 ∧ c.toNat.toUInt8 ≤ byte '9' := by
    rw [UInt8.le_iff_toNat_le, UInt8.le_iff_toNat_le, hbyte]
    exact ⟨hlo, hhi⟩
  refine ⟨?_, ?_⟩
  · rw [isDigitByte, Bool.and_eq_true, decide_eq_true_eq, decide_eq_true_eq]
    exact hle
  · rw [hbyte, Char.ofNat_toNat]

theorem isDigitByte_of_mem_decimal {n : Nat} {b : UInt8} (h : b ∈ decimal n) :
    isDigitByte b = true := by
  obtain ⟨c, hc, rfl⟩ := List.mem_map.mp h
  exact (digit_byte (Nat.isDigit_of_mem_toDigits (by decide) (by decide) hc)).1

theorem decimal_ne_nil (n : Nat) : decimal n ≠ [] := by
  intro h
  exact Nat.toDigits_ne_nil (List.map_eq_nil_iff.mp h)

@[simp] theorem readDecimal_decimal (n : Nat) : readDecimal (decimal n) = some n := by
  have hdigits : (decimal n).all isDigitByte = true :=
    List.all_eq_true.mpr (fun b hb => isDigitByte_of_mem_decimal hb)
  have hback : (decimal n).map (fun b => Char.ofNat b.toNat) = Nat.toDigits 10 n := by
    rw [decimal, List.map_map]
    refine (List.map_congr_left ?_).trans (List.map_id _)
    intro c hc
    exact (digit_byte (Nat.isDigit_of_mem_toDigits (by decide) (by decide) hc)).2
  rw [readDecimal, if_pos ⟨decimal_ne_nil n, hdigits⟩, hback, Nat.ofDigitChars_ten_toDigits]

theorem readDecimal_intStr (n : Int) :
    readDecimal (intStr n) = if 0 ≤ n then some n.toNat else none := by
  by_cases hn : 0 ≤ n
  · rw [intStr, if_pos hn, if_pos hn, readDecimal_decimal]
  · rw [intStr, if_neg hn, if_neg hn, readDecimal]
    refine if_neg ?_
    rintro ⟨-, hall⟩
    exact absurd (List.all_eq_true.mp hall _ (List.mem_cons_self ..)) (by decide)

/-- A number is printed like a natural number only if it is that number. -/
theorem intStr_eq_decimal {n : Int} {m : Nat} (h : intStr n = decimal m) : n = m := by
  have hread := readDecimal_intStr n
  rw [h, readDecimal_decimal] at hread
  split at hread
  · rename_i hn
    have : m = n.toNat := Option.some.inj hread
    omega
  · cases hread

theorem intStr_ofNat (n : Nat) : intStr (n : Int) = decimal n := by
  rw [intStr, if_pos (Int.natCast_nonneg n), Int.toNat_natCast]

theorem intStr_ne_nil (n : Int) : intStr n ≠ [] := by
  rw [intStr]
  split
  · exact decimal_ne_nil _
  · exact List.cons_ne_nil _ _

theorem mem_intStr {n : Int} {b : UInt8} (h : b ∈ intStr n) :
    b = byte '-' ∨ isDigitByte b = true := by
  rw [intStr] at h
  split at h
  · exact Or.inr (isDigitByte_of_mem_decimal h)
  · rcases List.mem_cons.mp h with rfl | hb
    · exact Or.inl rfl
    · exact Or.inr (isDigitByte_of_mem_decimal hb)

/-- Different numbers print differently. -/
theorem intStr_injective {n m : Int} (h : intStr n = intStr m) : n = m := by
  by_cases hm : 0 ≤ m
  · have hdecimal : intStr m = decimal m.toNat := by rw [intStr, if_pos hm]
    rw [intStr_eq_decimal (h.trans hdecimal), Int.toNat_of_nonneg hm]
  · by_cases hn : 0 ≤ n
    · have hdecimal : intStr n = decimal n.toNat := by rw [intStr, if_pos hn]
      exact absurd (intStr_eq_decimal (h.symm.trans hdecimal)) (by omega)
    · rw [intStr, intStr, if_neg hn, if_neg hm] at h
      have habs := congrArg readDecimal (List.cons.inj h).2
      rw [readDecimal_decimal, readDecimal_decimal, Option.some.injEq] at habs
      omega

end ByteString
