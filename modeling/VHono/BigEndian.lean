import VHono.ByteString

/-! # Numbers in big-endian bytes

    The bytes of a number, the most significant first, and the way back; a
    64-bit word is filled by shifting bytes into it. -/

namespace BigEndian

/-- The lowest bytes of a number, so many of them. -/
def bytes : Nat → Nat → ByteString
  | 0, _ => []
  | k + 1, n => bytes k (n / 256) ++ [UInt8.ofNat n]

/-- The number that bytes stand for. -/
def value (s : ByteString) : Nat := s.foldl (fun n b => n * 256 + b.toNat) 0

theorem length_bytes (k n : Nat) : (bytes k n).length = k := by
  induction k generalizing n with
  | zero => rfl
  | succ k ih => rw [bytes, List.length_append, ih]; rfl

theorem value_concat (s : ByteString) (b : UInt8) : value (s ++ [b]) = value s * 256 + b.toNat := by
  rw [value, List.foldl_append]
  rfl

theorem value_append (s t : ByteString) : value (s ++ t) = value s * 256 ^ t.length + value t := by
  induction t using List.reverseRecOn with
  | nil => rw [List.append_nil, List.length_nil, Nat.pow_zero, Nat.mul_one]; rfl
  | append_singleton t b ih =>
      rw [← List.append_assoc, value_concat, ih, value_concat, List.length_append,
        List.length_singleton, Nat.pow_succ, Nat.add_mul, Nat.mul_assoc, Nat.add_assoc]

theorem value_bytes (k n : Nat) : value (bytes k n) = n % 256 ^ k := by
  induction k generalizing n with
  | zero => rw [Nat.pow_zero, Nat.mod_one]; rfl
  | succ k ih =>
      have hbyte : (UInt8.ofNat n).toNat = n % 256 := UInt8.toNat_ofNat'
      rw [bytes, value_concat, ih, hbyte, Nat.pow_succ, Nat.mul_comm (256 ^ k) 256, Nat.mod_mul]
      omega

theorem value_lt (s : ByteString) : value s < 256 ^ s.length := by
  induction s using List.reverseRecOn with
  | nil => exact Nat.one_pos
  | append_singleton s b ih =>
      have hb : b.toNat < 256 := b.toNat_lt
      rw [value_concat, List.length_append, List.length_singleton, Nat.pow_succ]
      have hnext : (value s + 1) * 256 ≤ 256 ^ s.length * 256 := Nat.mul_le_mul_right 256 ih
      omega

/-- One more byte. -/
def push (n : UInt64) (b : UInt8) : UInt64 := (n <<< 8) ||| b.toUInt64

theorem toNat_push {n : UInt64} {b : UInt8} (h : n.toNat < 2 ^ 56) :
    (push n b).toNat = n.toNat * 256 + b.toNat := by
  have hb : b.toNat < 2 ^ 8 := b.toNat_lt
  have hshift : n.toNat <<< 8 < 2 ^ 64 := by
    rw [Nat.shiftLeft_eq]
    omega
  rw [push, UInt64.toNat_or, UInt64.toNat_shiftLeft]
  show (n.toNat <<< 8) % 2 ^ 64 ||| b.toNat = _
  rw [Nat.mod_eq_of_lt hshift, ← Nat.shiftLeft_add_eq_or_of_lt hb, Nat.shiftLeft_eq]

theorem push_zero (b : UInt8) : push 0 b = b.toUInt64 := by
  simp [push]

theorem toNat_foldl_push {s : ByteString} (h : s.length ≤ 8) :
    (s.foldl push 0).toNat = value s := by
  induction s using List.reverseRecOn with
  | nil => rfl
  | append_singleton s b ih =>
      rw [List.length_append, List.length_singleton] at h
      have hs := ih (by omega)
      have hlt : (s.foldl push 0).toNat < 2 ^ 56 := by
        rw [hs]
        calc value s < 256 ^ s.length := value_lt s
          _ ≤ 256 ^ 7 := Nat.pow_le_pow_right (by decide) (by omega)
          _ = 2 ^ 56 := by decide
      rw [List.foldl_append, List.foldl_cons, List.foldl_nil, toNat_push hlt, hs, value_concat]

end BigEndian
