import VHono.HttpGrammar
import Mathlib.Data.List.TakeWhile
import Mathlib.Tactic

/-! # The chunked coding

    A recipient of the chunked coding of HTTP/1.1: lines with a size in
    hexadecimal digits, each followed by as many bytes and a line end, up to a
    size of zero and the trailer.  What it reads does not depend on what comes
    later, so no text that it reads to the end begins another one. -/

namespace ChunkedCoding

open ByteString HttpGrammar

/-! ## Hexadecimal numbers -/

def hexText (n : Nat) : ByteString := (Nat.toDigits 16 n).map (fun c => c.toNat.toUInt8)

def isHexByte (b : UInt8) : Bool :=
  (byte '0' ≤ b && b ≤ byte '9') || (byte 'a' ≤ b && b ≤ byte 'f') ||
    (byte 'A' ≤ b && b ≤ byte 'F')

def hexValue (b : UInt8) : Nat :=
  if b ≤ byte '9' then b.toNat - 48 else if b ≤ byte 'F' then b.toNat - 55 else b.toNat - 87

def readHex (digits : ByteString) : Nat := digits.foldl (fun n b => n * 16 + hexValue b) 0

theorem digitChar_byte {n : Nat} (h : n < 16) :
    isHexByte n.digitChar.toNat.toUInt8 = true ∧ hexValue n.digitChar.toNat.toUInt8 = n := by
  interval_cases n <;> decide

theorem hexText_small {n : Nat} (h : n < 16) : hexText n = [n.digitChar.toNat.toUInt8] := by
  rw [hexText, Nat.toDigits_of_lt_base h]
  rfl

/-- The last digit comes last. -/
theorem hexText_large {n : Nat} (h : 16 ≤ n) : hexText n = hexText (n / 16) ++ hexText (n % 16) := by
  have hsplit := Nat.toDigits_append_toDigits (b := 16) (n := n / 16) (d := n % 16) (by decide)
    (Nat.div_pos h (by decide)) (Nat.mod_lt n (by decide))
  rw [Nat.div_add_mod] at hsplit
  rw [hexText, hexText, hexText, ← List.map_append, hsplit]

theorem hexText_ne_nil (n : Nat) : hexText n ≠ [] := by
  rcases Nat.lt_or_ge n 16 with h | h
  · rw [hexText_small h]
    exact List.cons_ne_nil _ _
  · rw [hexText_large h, hexText_small (Nat.mod_lt n (by decide))]
    exact List.append_ne_nil_of_right_ne_nil _ (List.cons_ne_nil _ _)

theorem hexText_spec (n : Nat) :
    (∀ b ∈ hexText n, isHexByte b = true) ∧ readHex (hexText n) = n := by
  induction n using Nat.strongRecOn with
  | ind n ih =>
      rcases Nat.lt_or_ge n 16 with h | h
      · rw [hexText_small h]
        refine ⟨fun b hb => ?_, ?_⟩
        · obtain rfl := List.mem_singleton.mp hb
          exact (digitChar_byte h).1
        · rw [readHex, List.foldl_cons, List.foldl_nil, (digitChar_byte h).2, Nat.zero_mul,
            Nat.zero_add]
      · obtain ⟨hbytes, hvalue⟩ := ih (n / 16) (Nat.div_lt_self (by omega) (by decide))
        have hlast : n % 16 < 16 := Nat.mod_lt n (by decide)
        rw [hexText_large h, hexText_small hlast]
        refine ⟨fun b hb => ?_, ?_⟩
        · rcases List.mem_append.mp hb with hb | hb
          · exact hbytes b hb
          · obtain rfl := List.mem_singleton.mp hb
            exact (digitChar_byte hlast).1
        · rw [readHex, List.foldl_append, ← readHex, hvalue, List.foldl_cons, List.foldl_nil,
            (digitChar_byte hlast).2]
          omega

/-! ## The recipient -/

/-- The bytes up to the next line end, and what comes after it. -/
def takeLine : ByteString → Option (ByteString × ByteString)
  | [] => none
  | b :: s =>
      if startsWith (b :: s) crlf then some ([], s.drop 1)
      else (takeLine s).map (fun cut => (b :: cut.1, cut.2))

/-- The size of a chunk, from its line; extensions may follow it. -/
def chunkSize (line : ByteString) : Option Nat :=
  let digits := line.takeWhile isHexByte
  let rest := (line.dropWhile isHexByte).dropWhile isBlank
  if digits ≠ [] ∧ (rest = [] ∨ rest.head? = some (byte ';')) then some (readHex digits) else none

/-- The lines of the trailer, and the empty one. -/
def skipTrailer : Nat → ByteString → Option ByteString
  | 0, _ => none
  | fuel + 1, s =>
      match takeLine s with
      | none => none
      | some ([], rest) => some rest
      | some (_ :: _, rest) => skipTrailer fuel rest

/-- The data, and what comes after the body. -/
def decodeFrom : Nat → ByteString → Option (ByteString × ByteString)
  | 0, _ => none
  | fuel + 1, s =>
      match takeLine s with
      | none => none
      | some (line, rest) =>
          match chunkSize line with
          | none => none
          | some 0 => (skipTrailer fuel rest).map (fun rest => ([], rest))
          | some (size + 1) =>
              if (rest.drop (size + 1)).take 2 = crlf then
                (decodeFrom fuel (rest.drop (size + 3))).map
                  (fun decoded => (rest.take (size + 1) ++ decoded.1, decoded.2))
              else none

/-- A text has more bytes than lines. -/
def decode (s : ByteString) : Option (ByteString × ByteString) := decodeFrom (s.length + 1) s

/-! ## More bytes -/

theorem takeLine_append {s line rest : ByteString} (h : takeLine s = some (line, rest))
    (q : ByteString) : takeLine (s ++ q) = some (line, rest ++ q) := by
  induction s generalizing line with
  | nil => cases h
  | cons b s ih =>
      cases s with
      | nil =>
          rw [takeLine, if_neg (by simp [startsWith, crlf]), takeLine] at h
          cases h
      | cons c s =>
          have hstart : startsWith (b :: c :: (s ++ q)) crlf = startsWith (b :: c :: s) crlf := by
            rw [crlf, startsWith_cons, startsWith_cons, startsWith_cons, startsWith_cons]
            simp [startsWith]
          rw [takeLine] at h
          rw [List.cons_append, List.cons_append, takeLine, hstart]
          split at h
          · obtain ⟨rfl, rfl⟩ := Prod.mk.inj (Option.some.inj h)
            rename_i hcrlf
            rw [if_pos hcrlf]
            rfl
          · rename_i hcrlf
            rw [if_neg hcrlf]
            obtain ⟨⟨line', rest'⟩, htail, heq⟩ := Option.map_eq_some_iff.mp h
            obtain ⟨rfl, rfl⟩ := Prod.mk.inj heq
            rw [← List.cons_append, ih htail]
            rfl

theorem skipTrailer_append {fuel : Nat} {s rest : ByteString}
    (h : skipTrailer fuel s = some rest) (k : Nat) (q : ByteString) :
    skipTrailer (fuel + k) (s ++ q) = some (rest ++ q) := by
  induction fuel generalizing s with
  | zero => cases h
  | succ fuel ih =>
      rw [skipTrailer] at h
      rw [Nat.add_right_comm, skipTrailer]
      cases hline : takeLine s with
      | none => rw [hline] at h; cases h
      | some cut =>
          obtain ⟨line, tail⟩ := cut
          rw [hline] at h
          rw [takeLine_append hline]
          cases line with
          | nil => rw [Option.some.inj h]
          | cons b line => exact ih h

theorem decodeFrom_append {fuel : Nat} {s data rest : ByteString}
    (h : decodeFrom fuel s = some (data, rest)) (k : Nat) (q : ByteString) :
    decodeFrom (fuel + k) (s ++ q) = some (data, rest ++ q) := by
  induction fuel generalizing s data with
  | zero => cases h
  | succ fuel ih =>
      rw [decodeFrom] at h
      rw [Nat.add_right_comm, decodeFrom]
      cases hline : takeLine s with
      | none => rw [hline] at h; cases h
      | some cut =>
          obtain ⟨line, tail⟩ := cut
          rw [hline] at h
          rw [takeLine_append hline]
          dsimp only at h ⊢
          cases hsize : chunkSize line with
          | none => rw [hsize] at h; cases h
          | some size =>
              rw [hsize] at h
              cases size with
              | zero =>
                  obtain ⟨after, htrailer, heq⟩ := Option.map_eq_some_iff.mp h
                  obtain ⟨rfl, rfl⟩ := Prod.mk.inj heq
                  dsimp only
                  rw [skipTrailer_append htrailer]
                  rfl
              | succ size =>
                  dsimp only at h ⊢
                  split at h
                  · rename_i hcrlf
                    obtain ⟨⟨data', rest'⟩, hdecode, heq⟩ := Option.map_eq_some_iff.mp h
                    obtain ⟨rfl, rfl⟩ := Prod.mk.inj heq
                    -- the whole chunk is there, so more bytes do not touch it
                    have hlong : size + 3 ≤ tail.length := by
                      have hlen := congrArg List.length hcrlf
                      rw [List.length_take, List.length_drop] at hlen
                      have htwo : crlf.length = 2 := rfl
                      omega
                    rw [List.drop_append_of_le_length (by omega),
                      List.take_append_of_le_length (by rw [List.length_drop]; omega),
                      if_pos hcrlf, List.drop_append_of_le_length hlong, ih hdecode,
                      List.take_append_of_le_length (by omega)]
                    rfl
                  · cases h

theorem decode_append {s data rest : ByteString} (h : decode s = some (data, rest))
    (q : ByteString) : decode (s ++ q) = some (data, rest ++ q) := by
  have happend := decodeFrom_append h q.length q
  rw [decode, List.length_append]
  rw [Nat.add_right_comm] at happend
  exact happend

/-- A body that is cut off is not read. -/
theorem decode_cut {p q data : ByteString} (h : decode (p ++ q) = some (data, []))
    (hq : q ≠ []) : decode p = none := by
  by_contra hsome
  obtain ⟨⟨data', rest⟩, hp⟩ := Option.ne_none_iff_exists'.mp hsome
  have happend := decode_append hp q
  rw [h] at happend
  have hnil := (Prod.mk.inj (Option.some.inj happend)).2
  exact hq (List.append_eq_nil_iff.mp hnil.symm).2

/-! ## Bodies -/

/-- `${size:x}\r\n`, the data and a line end -/
def chunk (data : ByteString) : ByteString := hexText data.length ++ crlf ++ data ++ crlf

def finalChunk : ByteString := ascii "0" ++ crlf ++ crlf

/-- The chunks of a body that is not ended. -/
def chunks (pieces : List ByteString) : ByteString := pieces.flatMap chunk

theorem takeLine_line {line : ByteString} (h : (13 : UInt8) ∉ line) (rest : ByteString) :
    takeLine (line ++ (crlf ++ rest)) = some (line, rest) := by
  induction line with
  | nil => rfl
  | cons b line ih =>
      have hb : (13 == b) = false := beq_eq_false_iff_ne.mpr (fun hb => h (hb ▸ List.mem_cons_self))
      rw [List.cons_append, takeLine, crlf, startsWith_cons, hb, Bool.false_and,
        if_neg Bool.false_ne_true, ← crlf, ih (fun hm => h (List.mem_cons_of_mem _ hm))]
      rfl

theorem chunkSize_hexText (n : Nat) : chunkSize (hexText n) = some n := by
  obtain ⟨hbytes, hvalue⟩ := hexText_spec n
  have htake : (hexText n).takeWhile isHexByte = hexText n := List.takeWhile_eq_self_iff.mpr hbytes
  have hdrop : (hexText n).dropWhile isHexByte = [] := List.dropWhile_eq_nil_iff.mpr hbytes
  rw [chunkSize, htake, hdrop, if_pos ⟨hexText_ne_nil n, Or.inl rfl⟩, hvalue]

theorem cr_not_mem_hexText (n : Nat) : (13 : UInt8) ∉ hexText n :=
  fun h => absurd ((hexText_spec n).1 13 h) (by decide)

theorem decodeFrom_chunk {fuel : Nat} {data s : ByteString} (h : data ≠ []) :
    decodeFrom (fuel + 1) (chunk data ++ s) =
      (decodeFrom fuel s).map (fun decoded => (data ++ decoded.1, decoded.2)) := by
  obtain ⟨size, hsize⟩ := Nat.exists_eq_succ_of_ne_zero (List.length_pos_iff.mpr h).ne'
  rw [Nat.succ_eq_add_one] at hsize
  have hline : chunk data ++ s = hexText data.length ++ (crlf ++ (data ++ (crlf ++ s))) := by
    simp [chunk]
  have hend : (data ++ (crlf ++ s)).drop (size + 1) = crlf ++ s := List.drop_left' hsize
  have hnext : (data ++ (crlf ++ s)).drop (size + 3) = s := by
    rw [show size + 3 = (size + 1) + 2 from rfl, ← List.drop_drop, hend]
    rfl
  rw [decodeFrom, hline, takeLine_line (cr_not_mem_hexText _)]
  dsimp only
  rw [chunkSize_hexText, hsize]
  dsimp only
  rw [hend, hnext, List.take_left' hsize, if_pos (show (crlf ++ s).take 2 = crlf from rfl)]

theorem decodeFrom_finalChunk (fuel : Nat) (s : ByteString) :
    decodeFrom (fuel + 2) (finalChunk ++ s) = some ([], s) := by
  have hline : finalChunk ++ s = ascii "0" ++ (crlf ++ (crlf ++ s)) := by simp [finalChunk]
  rw [decodeFrom, hline, takeLine_line (by decide)]
  rfl

theorem decodeFrom_chunks {pieces : List ByteString} (h : ∀ piece ∈ pieces, piece ≠ [])
    (s : ByteString) :
    decodeFrom (pieces.length + 2) (chunks pieces ++ (finalChunk ++ s)) = some (pieces.flatten, s) := by
  induction pieces with
  | nil => exact decodeFrom_finalChunk 0 s
  | cons piece pieces ih =>
      have hrest := ih (fun p hp => h p (List.mem_cons_of_mem _ hp))
      rw [chunks, List.flatMap_cons, List.append_assoc, ← chunks, List.length_cons,
        Nat.add_right_comm, decodeFrom_chunk (h piece List.mem_cons_self), hrest]
      rfl

theorem length_le_length_chunks (pieces : List ByteString) :
    pieces.length ≤ (chunks pieces).length := by
  induction pieces with
  | nil => exact le_rfl
  | cons piece pieces ih =>
      rw [chunks, List.flatMap_cons, List.length_append, ← chunks, List.length_cons, chunk]
      simp only [List.length_append]
      have hcrlf : crlf.length = 2 := rfl
      omega

/-- A body of chunks reads as their data. -/
theorem decode_chunks {pieces : List ByteString} (h : ∀ piece ∈ pieces, piece ≠ [])
    (s : ByteString) : decode (chunks pieces ++ (finalChunk ++ s)) = some (pieces.flatten, s) := by
  have hlen : pieces.length + 2 ≤ (chunks pieces ++ (finalChunk ++ s)).length + 1 := by
    have hpieces := length_le_length_chunks pieces
    have hfinal : finalChunk.length = 5 := rfl
    rw [List.length_append, List.length_append]
    omega
  obtain ⟨k, hk⟩ := Nat.exists_eq_add_of_le hlen
  have hdecode := decodeFrom_append (decodeFrom_chunks h s) k []
  rw [List.append_nil, List.append_nil] at hdecode
  rw [decode, hk]
  exact hdecode

end ChunkedCoding
