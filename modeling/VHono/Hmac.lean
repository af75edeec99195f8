import VHono.ByteScan
import Mathlib.Tactic

/-! # Keyed hashing

    HMAC as RFC 2104 defines it, over a hash function and its block size, and
    the loops with which programs write it by hand: a copy of a digest byte by
    byte, a key filled up with zeros one at a time, and a block combined with
    a pad. -/

namespace Hmac

open ByteString

/-! ## The construction -/

section Construction

variable (hash : ByteString → ByteString) (block : Nat)

/-- The key as one block: hashed if it is longer than that, and filled up with zeros. -/
def blockKey (key : ByteString) : ByteString :=
  let k := if block < key.length then hash key else key
  k ++ List.replicate (block - k.length) 0

/-- A block combined with a byte repeated. -/
def xorPad (pad : UInt8) (k : ByteString) : ByteString := k.map (· ^^^ pad)

/-- `H((K0 xor opad) || H((K0 xor ipad) || m))` -/
def hmac (key message : ByteString) : ByteString :=
  let k := blockKey hash block key
  hash (xorPad 0x5c k ++ hash (xorPad 0x36 k ++ message))

variable {hash block}

theorem length_blockKey {size : Nat} (hsize : ∀ s, (hash s).length = size) (hle : size ≤ block)
    (key : ByteString) : (blockKey hash block key).length = block := by
  rw [blockKey, List.length_append, List.length_replicate]
  split
  · rw [hsize]
    omega
  · omega

end Construction

/-! ## The loops -/

/-- `for i in 0 .. n { out[i] = s[i] }` -/
def copyBytes (n : Nat) (s : ByteString) : ByteString := (List.range n).map (byteAt s)

/-- `for key.len < block { key << 0 }` -/
def padKey (block : Nat) (key : ByteString) : ByteString :=
  if key.length < block then padKey block (key ++ [0]) else key
  termination_by block - key.length
  decreasing_by
    rw [List.length_append, List.length_singleton]
    omega

/-- `for i in 0 .. block { out[i] = key[i] ^ pad }` -/
def xorBlock (block : Nat) (key : ByteString) (pad : UInt8) : ByteString :=
  (List.range block).map (fun i => byteAt key i ^^^ pad)

theorem copyBytes_eq {n : Nat} {s : ByteString} (h : s.length = n) : copyBytes n s = s := by
  refine List.ext_getElem (by simp [copyBytes, h]) (fun i hi hi' => ?_)
  simp [copyBytes, byteAt, hi']

theorem xorBlock_eq {block : Nat} {key : ByteString} (h : key.length = block) (pad : UInt8) :
    xorBlock block key pad = xorPad pad key := by
  show (List.range block).map ((· ^^^ pad) ∘ byteAt key) = key.map (· ^^^ pad)
  rw [← List.map_map]
  exact congrArg (List.map _) (copyBytes_eq h)

theorem padKey_eq (block : Nat) :
    ∀ (k : Nat) (key : ByteString), block - key.length = k →
      padKey block key = key ++ List.replicate k 0 := by
  intro k
  induction k with
  | zero =>
      intro key hk
      rw [padKey, if_neg (by omega), List.replicate_zero, List.append_nil]
  | succ k ih =>
      intro key hk
      have hrest : block - (key ++ [0]).length = k := by
        rw [List.length_append, List.length_singleton]
        omega
      rw [padKey, if_pos (by omega), ih _ hrest, List.append_assoc, List.replicate_succ]
      rfl

end Hmac
