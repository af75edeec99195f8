import VHono.ByteScan

/-! # Base64

    The standard alphabet.  Three bytes are four digits, and the last one or
    two bytes are two or three digits with padding. -/

namespace Base64

open ByteString

/-- The digit of a number below 64. -/
def digit (n : Nat) : UInt8 :=
  if n < 26 then UInt8.ofNat (65 + n)
  else if n < 52 then UInt8.ofNat (71 + n)
  else if n < 62 then UInt8.ofNat (n - 4)
  else if n = 62 then byte '+'
  else byte '/'

/-- The number of a digit; a byte that is none counts as zero. -/
def value (c : UInt8) : Nat :=
  if byte 'A' ≤ c ∧ c ≤ byte 'Z' then c.toNat - 65
  else if byte 'a' ≤ c ∧ c ≤ byte 'z' then c.toNat - 71
  else if byte '0' ≤ c ∧ c ≤ byte '9' then c.toNat + 4
  else if c = byte '+' then 62
  else if c = byte '/' then 63
  else 0

theorem value_digit : ∀ n < 64, value (digit n) = n := by decide

theorem digit_ne_pad : ∀ n < 64, digit n ≠ byte '=' := by decide

/-- The digits without the padding. -/
def digits : ByteString → ByteString
  | [] => []
  | [a] => [digit (a.toNat / 4), digit (a.toNat % 4 * 16)]
  | [a, b] =>
      [digit (a.toNat / 4), digit (a.toNat % 4 * 16 + b.toNat / 16), digit (b.toNat % 16 * 4)]
  | a :: b :: c :: rest =>
      digit (a.toNat / 4) :: digit (a.toNat % 4 * 16 + b.toNat / 16) ::
        digit (b.toNat % 16 * 4 + c.toNat / 64) :: digit (c.toNat % 64) :: digits rest

theorem length_digits (data : ByteString) : (digits data).length = (data.length * 4 + 2) / 3 := by
  induction data using digits.induct with
  | case1 => rfl
  | case2 a => simp [digits]
  | case3 a b => simp [digits]
  | case4 a b c rest ih =>
      simp only [digits, List.length_cons, ih]
      omega

/-- How many characters are missing to the next multiple of four. -/
def padding (n : Nat) : Nat := (4 - n % 4) % 4

def encode (data : ByteString) : ByteString :=
  digits data ++ List.replicate (padding (digits data).length) (byte '=')

/-- The bytes of four characters. -/
def bytes (w x y z : UInt8) : ByteString :=
  [UInt8.ofNat (value w * 4 + value x / 16), UInt8.ofNat (value x % 16 * 16 + value y / 4),
    UInt8.ofNat (value y % 4 * 64 + value z)]

/-- Padding counts in the last four characters only. -/
def decodeGroups : ByteString → ByteString
  | [w, x, y, z] =>
      if z = byte '=' then (bytes w x y z).take (if y = byte '=' then 1 else 2) else bytes w x y z
  | w :: x :: y :: z :: rest => bytes w x y z ++ decodeGroups rest
  | _ => []

/-- A text that is not made of groups of four is not read at all. -/
def decode (s : ByteString) : ByteString := if s.length % 4 = 0 then decodeGroups s else []

/-! ## The round trip -/

theorem decodeGroups_full (w x y z : UInt8) (rest : ByteString) (hz : z ≠ byte '=') :
    decodeGroups (w :: x :: y :: z :: rest) = bytes w x y z ++ decodeGroups rest := by
  cases rest with
  | nil => simp [decodeGroups, hz]
  | cons v rest =>
      rw [decodeGroups]
      exact nofun

/-- Four characters that count as the parts of three bytes. -/
theorem bytes_of_values {w x y z : UInt8} (a b c : UInt8) (hw : value w = a.toNat / 4)
    (hx : value x = a.toNat % 4 * 16 + b.toNat / 16)
    (hy : value y = b.toNat % 16 * 4 + c.toNat / 64) (hz : value z = c.toNat % 64) :
    bytes w x y z = [a, b, c] := by
  have ha := a.toNat_lt
  have hb := b.toNat_lt
  have hc := c.toNat_lt
  have hfirst : value w * 4 + value x / 16 = a.toNat := by omega
  have hsecond : value x % 16 * 16 + value y / 4 = b.toNat := by omega
  have hthird : value y % 4 * 64 + value z = c.toNat := by omega
  rw [bytes, hfirst, hsecond, hthird, UInt8.ofNat_toNat, UInt8.ofNat_toNat, UInt8.ofNat_toNat]

theorem decodeGroups_encode (data : ByteString) : decodeGroups (encode data) = data := by
  have hpad : value (byte '=') = 0 := by decide
  induction data using digits.induct with
  | case1 => rfl
  | case2 a =>
      have ha := a.toNat_lt
      have hbytes : bytes (digit (a.toNat / 4)) (digit (a.toNat % 4 * 16)) (byte '=') (byte '=')
          = [a, 0, 0] :=
        bytes_of_values a 0 0 (value_digit _ (by omega)) (value_digit (a.toNat % 4 * 16) (by omega))
          hpad hpad
      exact congrArg (List.take 1) hbytes
  | case3 a b =>
      have ha := a.toNat_lt
      have hb := b.toNat_lt
      have hy : digit (b.toNat % 16 * 4) ≠ byte '=' := digit_ne_pad _ (by omega)
      have hbytes : bytes (digit (a.toNat / 4)) (digit (a.toNat % 4 * 16 + b.toNat / 16))
          (digit (b.toNat % 16 * 4)) (byte '=') = [a, b, 0] :=
        bytes_of_values a b 0 (value_digit _ (by omega)) (value_digit _ (by omega))
          (value_digit (b.toNat % 16 * 4) (by omega)) hpad
      show (bytes _ _ _ _).take (if digit (b.toNat % 16 * 4) = byte '=' then 1 else 2) = [a, b]
      rw [if_neg hy]
      exact congrArg (List.take 2) hbytes
  | case4 a b c rest ih =>
      have ha := a.toNat_lt
      have hb := b.toNat_lt
      have hc := c.toNat_lt
      have hlength :
          padding (digits (a :: b :: c :: rest)).length = padding (digits rest).length := by
        simp only [digits, List.length_cons, padding]
        omega
      rw [encode, hlength]
      show decodeGroups (_ :: _ :: _ :: _ :: encode rest) = _
      rw [decodeGroups_full _ _ _ _ _ (digit_ne_pad _ (by omega)), ih,
        bytes_of_values a b c (value_digit _ (by omega)) (value_digit _ (by omega))
          (value_digit _ (by omega)) (value_digit _ (by omega))]
      rfl

/-- **THE ROUND TRIP.** -/
theorem decode_encode (data : ByteString) : decode (encode data) = data := by
  have hlength : (encode data).length % 4 = 0 := by
    rw [encode, List.length_append, List.length_replicate, padding]
    omega
  rw [decode, if_pos hlength, decodeGroups_encode]

/-- Every character before the padding is a digit. -/
theorem mem_digits {data : ByteString} {c : UInt8} (h : c ∈ digits data) :
    ∃ n < 64, c = digit n := by
  induction data using digits.induct with
  | case1 => cases h
  | case2 a =>
      have ha := a.toNat_lt
      simp only [digits, List.mem_cons, List.not_mem_nil, or_false] at h
      rcases h with rfl | rfl <;> exact ⟨_, by omega, rfl⟩
  | case3 a b =>
      have ha := a.toNat_lt
      have hb := b.toNat_lt
      simp only [digits, List.mem_cons, List.not_mem_nil, or_false] at h
      rcases h with rfl | rfl | rfl <;> exact ⟨_, by omega, rfl⟩
  | case4 a b c rest ih =>
      have ha := a.toNat_lt
      have hb := b.toNat_lt
      have hc := c.toNat_lt
      simp only [digits, List.mem_cons] at h
      rcases h with rfl | rfl | rfl | rfl | h
      · exact ⟨_, by omega, rfl⟩
      · exact ⟨_, by omega, rfl⟩
      · exact ⟨_, by omega, rfl⟩
      · exact ⟨_, by omega, rfl⟩
      · exact ih h

end Base64
