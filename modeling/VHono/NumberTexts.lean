import VHono.ByteDecimals

/-! # Numbers read from text

    How the standard library reads an integer: the base is told by the first
    bytes, underscores may stand between digits, the reading stops at the first
    byte that is no digit, and a number out of range becomes the nearest one in
    range.  On a text of decimal digits all of this comes to the value of the
    digits, cut to the range. -/

namespace NumberTexts

open ByteString

/-- The value of a digit in a base; letters stand for the digits from ten on. -/
def digitIn (base : Nat) (c : UInt8) : Option Nat :=
  let low := c - 48
  let upper := if low ≥ 17 then low - 7 else low
  let value := if low ≥ 17 ∧ upper ≥ 42 then upper - 32 else upper
  if base - 1 < value.toNat ∨ (low < 17 ∧ 9 < value.toNat) then none else some value.toNat

/-- An underscore stands between two other bytes. -/
def separates (before : Option UInt8) (rest : ByteString) : Bool :=
  before.any (· != byte '_') && rest.head?.any (· != byte '_')

/-- The digits behind those already read, with the byte before them; both tests for an overflow
    are the one on the exact product. -/
def readDigits (base maxVal : Nat) : Option UInt8 → ByteString → Nat → Nat
  | _, [], n => n
  | before, c :: rest, n =>
    if c = byte '_' then
      if separates before rest = true then readDigits base maxVal (some c) rest n else 0
    else
      match digitIn base c with
      | none => n
      | some d =>
        if n * base + d > maxVal then maxVal else readDigits base maxVal (some c) rest (n * base + d)

/-- The base that the first bytes tell, and how many of them are passed over. -/
def baseOf (s : ByteString) : Nat × Nat :=
  if s.head? ≠ some (byte '0') then (10, 0)
  else if s.length ≥ 3 then
    let ch := s.getD 1 0 ||| 32
    let prefixed :=
      if ch = byte 'b' then (2, 2)
      else if ch = byte 'o' then (8, 2)
      else if ch = byte 'x' then (16, 2)
      else (10, 0)
    if s[prefixed.2]? = some (byte '_') then (prefixed.1, prefixed.2 + 1) else prefixed
  else if s.length ≥ 2 ∧ isDigitByte (s.getD 1 0) = true then (10, 1)
  else (8, 1)

def maxU64 : Nat := 2 ^ 64 - 1

/-- `s.u64()` -/
def u64 (s : ByteString) : Nat :=
  readDigits (baseOf s).1 maxU64 none (s.drop (baseOf s).2) 0

/-- `s.i64()` -/
def i64 (s : ByteString) : Int :=
  let negative := s.head? = some (byte '-')
  let magnitude := u64 (if negative ∨ s.head? = some (byte '+') then s.tail else s)
  if negative then max (-(magnitude : Int)) (-2 ^ 63) else min (magnitude : Int) (2 ^ 63 - 1)

/-! ## Decimal digits -/

/-- A text of decimal digits. -/
def Digits (s : ByteString) : Prop := ∀ b ∈ s, isDigitByte b = true

instance digitsDecidable (s : ByteString) : Decidable (Digits s) :=
  inferInstanceAs (Decidable (∀ b ∈ s, isDigitByte b = true))

/-- The value of digits behind others. -/
def valueFrom (n : Nat) (s : ByteString) : Nat := s.foldl (fun n b => n * 10 + (b.toNat - 48)) n

/-- The number that a text of digits stands for. -/
def value (s : ByteString) : Nat := valueFrom 0 s

theorem valueFrom_cons (n : Nat) (b : UInt8) (s : ByteString) :
    valueFrom n (b :: s) = valueFrom (n * 10 + (b.toNat - 48)) s := by
  rw [valueFrom, List.foldl_cons, valueFrom]

/-- Digits stand for the number they are printed from. -/
theorem value_decimal (n : Nat) : value (decimal n) = n := by
  have hfold : ∀ (cs : List Char), (∀ c ∈ cs, c.isDigit = true) → ∀ m,
      valueFrom m (cs.map (fun c => c.toNat.toUInt8)) = Nat.ofDigitChars 10 cs m := by
    intro cs
    induction cs with
    | nil => exact fun _ _ => rfl
    | cons c cs ih =>
        intro hdigits m
        obtain ⟨hc, hrest⟩ := List.forall_mem_cons.mp hdigits
        have hhigh : c.toNat ≤ 57 := (Char.isDigit_iff_toNat.mp hc).2
        have hbyte : c.toNat.toUInt8.toNat = c.toNat := Nat.mod_eq_of_lt (by omega)
        rw [List.map_cons, valueFrom_cons, hbyte, ih hrest, Nat.mul_comm]
        rfl
  have hdigits : ∀ c ∈ Nat.toDigits 10 n, c.isDigit = true :=
    fun c hc => Nat.isDigit_of_mem_toDigits (by decide) (by decide) hc
  rw [value, decimal, hfold _ hdigits, Nat.ofDigitChars_ten_toDigits]

theorem le_valueFrom (n : Nat) (s : ByteString) : n ≤ valueFrom n s := by
  induction s generalizing n with
  | nil => exact Nat.le_refl n
  | cons b s ih =>
      rw [valueFrom_cons]
      have hrest := ih (n * 10 + (b.toNat - 48))
      omega

theorem isDigitByte_iff {b : UInt8} : isDigitByte b = true ↔ 48 ≤ b.toNat ∧ b.toNat ≤ 57 := by
  have hzero : byte '0' = 48 := by decide
  have hnine : byte '9' = 57 := by decide
  rw [isDigitByte, Bool.and_eq_true, decide_eq_true_eq, decide_eq_true_eq,
    UInt8.le_iff_toNat_le, UInt8.le_iff_toNat_le, hzero, hnine]
  rfl

theorem digitIn_ten {b : UInt8} (h : isDigitByte b = true) : digitIn 10 b = some (b.toNat - 48) := by
  obtain ⟨hlow, hhigh⟩ := isDigitByte_iff.mp h
  have hsub : (b - 48).toNat = b.toNat - 48 :=
    UInt8.toNat_sub_of_le _ _ (UInt8.le_iff_toNat_le.mpr hlow)
  have hsmall : ¬(b - 48 ≥ 17) := by
    rw [ge_iff_le, UInt8.le_iff_toNat_le, hsub]
    show ¬(17 ≤ b.toNat - 48)
    omega
  simp only [digitIn, if_neg hsmall, if_neg (fun hboth => hsmall (And.left hboth)), hsub]
  exact if_neg (by omega)

/-- Once a number is out of range it stays there, so the reading may stop. -/
theorem readDigits_ten {s : ByteString} (h : Digits s) (maxVal : Nat) (before : Option UInt8)
    {n : Nat} (hn : n ≤ maxVal) :
    readDigits 10 maxVal before s n = min (valueFrom n s) maxVal := by
  induction s generalizing before n with
  | nil => exact (Nat.min_eq_left hn).symm
  | cons b s ih =>
      have hdigit : isDigitByte b = true := h b (List.mem_cons_self ..)
      have hplain : b ≠ byte '_' := by
        rintro rfl
        exact absurd hdigit (by decide)
      rw [readDigits, if_neg hplain, digitIn_ten hdigit, valueFrom_cons]
      show (if n * 10 + (b.toNat - 48) > maxVal then _ else _) = _
      by_cases hover : n * 10 + (b.toNat - 48) > maxVal
      · have hrest := le_valueFrom (n * 10 + (b.toNat - 48)) s
        rw [if_pos hover, Nat.min_eq_right (by omega)]
      · rw [if_neg hover]
        exact ih (fun c hc => h c (List.mem_cons_of_mem _ hc)) _ (by omega)

theorem digit_no_base {b : UInt8} (h : isDigitByte b = true) :
    b ||| 32 ≠ byte 'b' ∧ b ||| 32 ≠ byte 'o' ∧ b ||| 32 ≠ byte 'x' := by
  have hlow : (b ||| 32).toNat < 2 ^ 6 := by
    rw [UInt8.toNat_or]
    have hdigit := isDigitByte_iff.mp h
    exact Nat.or_lt_two_pow (by omega) (by decide)
  have hletter : ∀ c : UInt8, 2 ^ 6 ≤ c.toNat → b ||| 32 ≠ c := by
    rintro c hc rfl
    omega
  exact ⟨hletter _ (by decide), hletter _ (by decide), hletter _ (by decide)⟩

/-- A text of digits is read in base ten, but for a single zero. -/
theorem baseOf_digits {s : ByteString} (h : Digits s) :
    baseOf s = (10, 0) ∨ (∃ rest, s = byte '0' :: rest ∧ baseOf s = (10, 1)) ∨ s = [byte '0'] := by
  cases s with
  | nil => exact Or.inl rfl
  | cons a s =>
      by_cases ha : a = byte '0'
      · subst ha
        cases s with
        | nil => exact Or.inr (Or.inr rfl)
        | cons b s =>
            have hb : isDigitByte b = true := h b (List.mem_cons_of_mem _ (List.mem_cons_self ..))
            cases s with
            | nil =>
                refine Or.inr (Or.inl ⟨[b], rfl, ?_⟩)
                rw [baseOf, if_neg (by simp), if_neg (by simp), if_pos ⟨by simp, hb⟩]
            | cons c s =>
                refine Or.inl ?_
                obtain ⟨hbin, hoct, hhex⟩ := digit_no_base hb
                rw [baseOf, if_neg (by simp), if_pos (by simp)]
                simp only [List.getD_cons_succ, List.getD_cons_zero, if_neg hbin, if_neg hoct,
                  if_neg hhex]
                exact if_neg (by simp [byte])
      · refine Or.inl ?_
        exact if_pos (fun hhead => ha (Option.some.inj hhead))

/-- Digits are read as their value, up to the largest number of 64 bits. -/
theorem u64_digits {s : ByteString} (h : Digits s) : u64 s = min (value s) maxU64 := by
  rcases baseOf_digits h with hbase | ⟨rest, rfl, hbase⟩ | rfl
  · rw [u64, hbase]
    exact readDigits_ten h _ _ (Nat.zero_le _)
  · rw [u64, hbase]
    exact readDigits_ten (fun c hc => h c (List.mem_cons_of_mem _ hc)) _ _ (Nat.zero_le _)
  · rfl

theorem i64_digits {s : ByteString} (h : Digits s) :
    i64 s = min (value s : Int) (2 ^ 63 - 1) := by
  have hsign : ∀ c, isDigitByte c = false → s.head? ≠ some c := by
    intro c hc hhead
    have hmem := List.mem_of_mem_head? hhead
    exact absurd (h c hmem) (by simp [hc])
  have hminus := hsign (byte '-') (by decide)
  have hplus := hsign (byte '+') (by decide)
  rw [i64]
  simp only [hminus, hplus, or_self, if_false]
  rw [u64_digits h]
  have hmax : maxU64 = 2 ^ 64 - 1 := rfl
  omega

end NumberTexts
