import VHono.WebSocketFrames

/-! # What the decoder makes of bytes

    The header says where the payload begins and how long it is.  The decoder
    answers with the payload exactly if the header is cut off, where it
    returns an error, or if the end of the payload is an `int` and the length
    is not cut down or the bytes do not suffice. -/

namespace VHono

open ByteString

/-! ## The header -/

section Header

variable (data : ByteString)

/-- The second byte, which says how the length is written. -/
def secondByte : UInt8 := data.getD 1 0

/-- The length in the second byte, and the marks of longer ones. -/
def shortLength : UInt64 := (secondByte data &&& 0x7F).toUInt64

def isMasked : Bool := (secondByte data &&& 0x80) ≠ 0

/-- Where the masking key begins, or without one the payload. -/
def lengthEnd : Nat := if shortLength data = 126 then 4 else if shortLength data = 127 then 10 else 2

/-- Where the payload begins. -/
def headerSize : Nat := if isMasked data then lengthEnd data + 4 else lengthEnd data

/-- The length that the header gives. -/
def lengthField : Nat :=
  if shortLength data = 126 then BigEndian.value ((data.drop 2).take 2)
  else if shortLength data = 127 then BigEndian.value ((data.drop 2).take 8)
  else (shortLength data).toNat

def keyField : List UInt8 :=
  if isMasked data then (data.drop (lengthEnd data)).take 4 else [0, 0, 0, 0]

end Header

variable {data : ByteString}

theorem index_of_lt {i : Nat} (h : i < data.length) : index data i = .ok data[i] := by
  rw [index, List.getElem?_eq_getElem h]

theorem take_drop_succ {start n : Nat} (h : start + n < data.length) :
    (data.drop start).take (n + 1) = (data.drop start).take n ++ [data[start + n]] := by
  rw [List.take_add_one, List.getElem?_drop, List.getElem?_eq_getElem h]
  rfl

/-- The loop over the bytes of the length. -/
theorem foldlM_index (n : Nat) (h : 2 + n ≤ data.length) :
    (List.range n).foldlM (fun (m : UInt64) i => do
      let b ← index data (2 + i)
      return (m <<< 8) ||| b.toUInt64) 0
      = Except.ok (((data.drop 2).take n).foldl BigEndian.push 0) := by
  induction n with
  | zero => rfl
  | succ n ih =>
      have hlast : index data (2 + n) = .ok data[2 + n] := index_of_lt (by omega)
      rw [List.range_succ, List.foldlM_append, ih (by omega), take_drop_succ (by omega),
        List.foldl_append]
      show ((index data (2 + n) >>= fun b => pure _) >>= fun m => pure m) = Except.ok _
      rw [hlast]
      rfl

theorem readLength_short (h126 : shortLength data ≠ 126) (h127 : shortLength data ≠ 127) :
    readLength data (secondByte data) = .ok (shortLength data, 2) := by
  show (if shortLength data = 126 then _ else if shortLength data = 127 then _
    else Except.ok (shortLength data, 2)) = _
  rw [if_neg h126, if_neg h127]

theorem readLength_two (h126 : shortLength data = 126) (h : 4 ≤ data.length) :
    readLength data (secondByte data)
      = .ok (((data.drop 2).take 2).foldl BigEndian.push 0, 4) := by
  have hbytes : (data.drop 2).take 2 = [data[2], data[3]] := by
    rw [take_drop_succ (by omega), take_drop_succ (by omega), List.take_zero]
    rfl
  show (if shortLength data = 126 then
    if data.length < 4 then _ else index data 2 >>= fun b2 => index data 3 >>= _ else _) = _
  rw [if_pos h126, if_neg (by omega), index_of_lt (by omega), index_of_lt (by omega), hbytes]
  show _ = Except.ok (BigEndian.push (BigEndian.push 0 data[2]) data[3], 4)
  rw [BigEndian.push_zero]
  rfl

theorem readLength_eight (h127 : shortLength data = 127) (h : 10 ≤ data.length) :
    readLength data (secondByte data)
      = .ok (((data.drop 2).take 8).foldl BigEndian.push 0, 10) := by
  show (if shortLength data = 126 then _ else if shortLength data = 127 then
    if data.length < 10 then _ else List.foldlM _ _ (List.range 8) >>= _ else _) = _
  rw [if_neg (by rw [h127]; decide), if_pos h127, if_neg (by omega), foldlM_index 8 (by omega)]
  rfl

/-- The length, if the header has it. -/
theorem readLength_spec (h : lengthEnd data ≤ data.length) :
    ∃ payloadLen, readLength data (secondByte data) = .ok (payloadLen, lengthEnd data) ∧
      payloadLen.toNat = lengthField data := by
  by_cases h126 : shortLength data = 126
  · have hend : lengthEnd data = 4 := if_pos h126
    have hfield : lengthField data = BigEndian.value ((data.drop 2).take 2) := if_pos h126
    rw [hend] at h ⊢
    refine ⟨_, readLength_two h126 h, ?_⟩
    rw [hfield, BigEndian.toNat_foldl_push]
    rw [List.length_take]
    omega
  · by_cases h127 : shortLength data = 127
    · have hend : lengthEnd data = 10 := (if_neg h126).trans (if_pos h127)
      have hfield : lengthField data = BigEndian.value ((data.drop 2).take 8) :=
        (if_neg h126).trans (if_pos h127)
      rw [hend] at h ⊢
      refine ⟨_, readLength_eight h127 h, ?_⟩
      rw [hfield, BigEndian.toNat_foldl_push]
      rw [List.length_take]
      omega
    · have hend : lengthEnd data = 2 := (if_neg h126).trans (if_neg h127)
      have hfield : lengthField data = (shortLength data).toNat :=
        (if_neg h126).trans (if_neg h127)
      rw [hend, hfield]
      exact ⟨_, readLength_short h126 h127, rfl⟩

theorem readLength_cut (h : data.length < lengthEnd data) (htwo : 2 ≤ data.length) :
    ∃ text, readLength data (secondByte data) = .error (.error text) := by
  by_cases h126 : shortLength data = 126
  · have hend : lengthEnd data = 4 := if_pos h126
    rw [hend] at h
    refine ⟨ascii "Frame too short for extended length", ?_⟩
    show (if shortLength data = 126 then
      if data.length < 4 then Except.error (Fault.error _) else _ else _) = _
    rw [if_pos h126, if_pos h]
  · by_cases h127 : shortLength data = 127
    · have hend : lengthEnd data = 10 := (if_neg h126).trans (if_pos h127)
      rw [hend] at h
      refine ⟨ascii "Frame too short for 64-bit length", ?_⟩
      show (if shortLength data = 126 then _ else if shortLength data = 127 then
        if data.length < 10 then Except.error (Fault.error _) else _ else _) = _
      rw [if_neg h126, if_pos h127, if_pos h]
    · have hend : lengthEnd data = 2 := (if_neg h126).trans (if_neg h127)
      omega

theorem readMaskKey_spec (h : headerSize data ≤ data.length) :
    readMaskKey data (isMasked data) (lengthEnd data) = .ok (keyField data, headerSize data) := by
  rw [readMaskKey, keyField, headerSize]
  rw [headerSize] at h
  cases hmasked : isMasked data with
  | false => rfl
  | true =>
      rw [hmasked, if_pos rfl] at h
      have hbytes : (data.drop (lengthEnd data)).take 4 = [data[lengthEnd data],
          data[lengthEnd data + 1], data[lengthEnd data + 2], data[lengthEnd data + 3]] := by
        rw [take_drop_succ (by omega), take_drop_succ (by omega), take_drop_succ (by omega),
          take_drop_succ (by omega), List.take_zero]
        rfl
      rw [if_pos rfl, if_pos rfl, if_pos rfl, if_neg (by omega), index_of_lt (by omega),
        index_of_lt (by omega), index_of_lt (by omega), index_of_lt (by omega), hbytes]
      rfl

theorem readMaskKey_cut (h : data.length < headerSize data) (hlength : lengthEnd data ≤ data.length) :
    ∃ text, readMaskKey data (isMasked data) (lengthEnd data) = .error (.error text) := by
  rw [headerSize] at h
  cases hmasked : isMasked data with
  | false =>
      rw [hmasked, if_neg Bool.false_ne_true] at h
      omega
  | true =>
      rw [hmasked, if_pos rfl] at h
      exact ⟨_, by rw [readMaskKey, if_pos rfl, if_pos h]⟩

/-- The frame of a header and a payload. -/
def frameOf (data : ByteString) (payloadLen : UInt64) (payload : ByteString) : WSFrame where
  fin := (data.getD 0 0 &&& 0x80) ≠ 0
  opcode := data.getD 0 0 &&& 0x0F
  masked := isMasked data
  maskKey := keyField data
  payloadLen := payloadLen
  payload := if isMasked data then applyMask (keyField data) payload else payload

theorem two_le_lengthEnd (data : ByteString) : 2 ≤ lengthEnd data := by
  rw [lengthEnd]
  split
  · decide
  · split <;> decide

theorem lengthEnd_le_headerSize (data : ByteString) : lengthEnd data ≤ headerSize data := by
  rw [headerSize]
  split
  · exact Nat.le_add_right _ _
  · exact Nat.le_refl _

theorem headerSize_le (data : ByteString) : headerSize data ≤ 14 := by
  have hend : lengthEnd data ≤ 10 := by
    rw [lengthEnd]
    split
    · decide
    · split <;> decide
  rw [headerSize]
  split <;> omega

theorem index_getD {i : Nat} (h : i < data.length) : index data i = .ok (data.getD i 0) := by
  rw [index_of_lt h, List.getD_eq_getElem?_getD, List.getElem?_eq_getElem h]
  rfl

theorem index_secondByte (h : 2 ≤ data.length) : index data 1 = .ok (secondByte data) :=
  index_getD (by omega)

theorem ok_bind {α β : Type} (a : α) (f : α → Except Fault β) : (Except.ok a >>= f) = f a := rfl

theorem error_bind {α β : Type} (fault : Fault) (f : α → Except Fault β) :
    (Except.error fault >>= f) = .error fault := rfl

/-- Past the header the decoder reads the payload. -/
theorem decodeWsFrame_spec (h : headerSize data ≤ data.length) :
    ∃ payloadLen : UInt64, payloadLen.toNat = lengthField data ∧
      decodeWsFrame data = (readPayload data (headerSize data) payloadLen).map
        (frameOf data payloadLen) := by
  have htwo := two_le_lengthEnd data
  have hend := lengthEnd_le_headerSize data
  obtain ⟨payloadLen, hlength, hfield⟩ := readLength_spec (le_trans hend h)
  have hmasked : decide (secondByte data &&& 0x80 ≠ 0) = isMasked data := rfl
  refine ⟨payloadLen, hfield, ?_⟩
  rw [decodeWsFrame, if_neg (by omega), index_getD (by omega), ok_bind,
    index_secondByte (by omega), ok_bind]
  dsimp only
  rw [hmasked, hlength, ok_bind]
  dsimp only
  rw [readMaskKey_spec h, ok_bind]
  dsimp only
  cases readPayload data (headerSize data) payloadLen with
  | error fault => rfl
  | ok payload =>
      rw [ok_bind, Except.map, frameOf]
      simp only [isMasked, decide_eq_true_eq]
      rfl

/-- A header that is cut off is an error. -/
theorem decodeWsFrame_cut (h : data.length < headerSize data) :
    ∃ text, decodeWsFrame data = .error (.error text) := by
  by_cases hshort : data.length < 2
  · exact ⟨_, if_pos hshort⟩
  · have hmasked : decide (secondByte data &&& 0x80 ≠ 0) = isMasked data := rfl
    rw [decodeWsFrame, if_neg hshort, index_getD (by omega), ok_bind,
      index_secondByte (by omega), ok_bind]
    dsimp only
    by_cases hlength : data.length < lengthEnd data
    · obtain ⟨text, hread⟩ := readLength_cut hlength (by omega)
      exact ⟨text, by rw [hread, error_bind]⟩
    · obtain ⟨payloadLen, hread, -⟩ := readLength_spec (Nat.le_of_not_lt hlength)
      obtain ⟨text, hkey⟩ := readMaskKey_cut h (Nat.le_of_not_lt hlength)
      refine ⟨text, ?_⟩
      rw [hmasked, hread, ok_bind]
      dsimp only
      rw [hkey, error_bind]

/-- A frame has the length of its header. -/
theorem payloadLen_of_decode {frame : WSFrame} (h : decodeWsFrame data = .ok frame) :
    frame.payloadLen.toNat = lengthField data := by
  by_cases hcut : data.length < headerSize data
  · obtain ⟨text, herror⟩ := decodeWsFrame_cut hcut
    rw [herror] at h
    cases h
  · obtain ⟨payloadLen, hfield, hdecode⟩ := decodeWsFrame_spec (Nat.le_of_not_lt hcut)
    rw [hdecode] at h
    cases hread : readPayload data (headerSize data) payloadLen with
    | error fault => rw [hread] at h; cases h
    | ok raw =>
        rw [hread] at h
        rw [← Except.ok.inj h]
        exact hfield

/-! ## The payload -/

theorem bmod_spec (x : Int) : -2 ^ 31 ≤ x.bmod (2 ^ 32) ∧ x.bmod (2 ^ 32) < 2 ^ 31 ∧
    x.bmod (2 ^ 32) % 2 ^ 32 = x % 2 ^ 32 := by
  have hlow : -((2 ^ 32 : Nat) / 2 : Int) ≤ x.bmod (2 ^ 32) := Int.le_bmod (by decide)
  have hhigh : x.bmod (2 ^ 32) < (((2 ^ 32 : Nat) : Int) + 1) / 2 := Int.bmod_lt (by decide)
  have hmod : x.bmod (2 ^ 32) % ((2 ^ 32 : Nat) : Int) = x % ((2 ^ 32 : Nat) : Int) :=
    Int.bmod_emod
  exact ⟨by omega, by omega, by omega⟩

/-- The end of a payload in `int`s, if it is one. -/
theorem stop_fits {offset n : Nat} (h : offset + n % 2 ^ 32 < 2 ^ 31) :
    ((offset : Int) + (n : Int).bmod (2 ^ 32)).bmod (2 ^ 32) = ((offset + n % 2 ^ 32 : Nat) : Int) := by
  have hlen := bmod_spec n
  have hsum := bmod_spec ((offset : Int) + (n : Int).bmod (2 ^ 32))
  omega

/-- And if it is none. -/
theorem stop_wraps {offset n : Nat} (hsmall : offset ≤ 14) (h : 2 ^ 31 ≤ offset + n % 2 ^ 32) :
    ((offset : Int) + (n : Int).bmod (2 ^ 32)).bmod (2 ^ 32) < offset := by
  have hlen := bmod_spec n
  have hsum := bmod_spec ((offset : Int) + (n : Int).bmod (2 ^ 32))
  omega

/-- The end of the payload is an `int`: the bytes that the low half of the length counts are
    there, or they are missed. -/
theorem readPayload_fits {offset : Nat} {payloadLen : UInt64}
    (h : offset + payloadLen.toNat % 2 ^ 32 < 2 ^ 31) :
    readPayload data offset payloadLen =
      if data.length < offset + payloadLen.toNat % 2 ^ 32 then
        .error (.error (ascii "Frame too short for payload"))
      else .ok ((data.drop offset).take (payloadLen.toNat % 2 ^ 32)) := by
  have hstop : ((offset : Int) + intOfU64 payloadLen).bmod (2 ^ 32)
      = ((offset + payloadLen.toNat % 2 ^ 32 : Nat) : Int) := stop_fits h
  rw [readPayload, hstop, slice]
  by_cases hshort : data.length < offset + payloadLen.toNat % 2 ^ 32
  · rw [if_pos (by omega), if_pos hshort]
  · rw [if_neg (by omega), if_neg hshort, if_neg (by omega)]
    refine congrArg Except.ok (congrArg₂ List.take ?_ (congrArg (List.drop · data) ?_))
    · omega
    · exact Int.toNat_natCast offset

/-- Beyond it the slice would end before it begins. -/
theorem readPayload_wraps {offset : Nat} {payloadLen : UInt64} (hoffset : offset ≤ data.length)
    (hsmall : offset ≤ 14) (h : 2 ^ 31 ≤ offset + payloadLen.toNat % 2 ^ 32) :
    readPayload data offset payloadLen = .error .outOfBounds := by
  have hstop : ((offset : Int) + intOfU64 payloadLen).bmod (2 ^ 32) < offset := stop_wraps hsmall h
  rw [readPayload, if_neg (by omega), slice, if_pos (Or.inl hstop)]

/-! ## Safety -/

/-- The payload that stands in the data right after the header. -/
def payloadAfter (data : ByteString) (n : Nat) : ByteString :=
  if isMasked data then applyMask (keyField data) ((data.drop (headerSize data)).take n)
  else (data.drop (headerSize data)).take n

/-- The decoder returns an error, or a frame with as many bytes after the header as it says. -/
def DecodesSafely (data : ByteString) : Prop :=
  (∃ text, decodeWsFrame data = .error (.error text)) ∨
  ∃ frame, decodeWsFrame data = .ok frame ∧ frame.payload.length = frame.payloadLen.toNat ∧
    frame.payload = payloadAfter data frame.payloadLen.toNat

theorem length_applyMask (maskKey : List UInt8) (payload : ByteString) :
    (applyMask maskKey payload).length = payload.length :=
  List.length_mapIdx

theorem length_payloadAfter (data : ByteString) (n : Nat) :
    (payloadAfter data n).length = min n (data.length - headerSize data) := by
  rw [payloadAfter]
  split
  · rw [length_applyMask, List.length_take, List.length_drop]
  · rw [List.length_take, List.length_drop]

theorem frameOf_payload (payloadLen : UInt64) (n : Nat) :
    (frameOf data payloadLen ((data.drop (headerSize data)).take n)).payload = payloadAfter data n :=
  rfl

/-- **THE DECODER IS SAFE** exactly if the header is cut off, or the payload ends below 2^31 by the
    low half of the length, and then the upper half is zero or the bytes do not suffice. -/
theorem decodesSafely_iff (data : ByteString) :
    DecodesSafely data ↔ data.length < headerSize data ∨
      (headerSize data + lengthField data % 2 ^ 32 < 2 ^ 31 ∧
        (lengthField data < 2 ^ 32 ∨
          data.length < headerSize data + lengthField data % 2 ^ 32)) := by
  by_cases hcut : data.length < headerSize data
  · exact iff_of_true (Or.inl (decodeWsFrame_cut hcut)) (Or.inl hcut)
  have hheader : headerSize data ≤ data.length := Nat.le_of_not_lt hcut
  obtain ⟨payloadLen, hfield, hdecode⟩ := decodeWsFrame_spec hheader
  rw [or_iff_right hcut, ← hfield]
  by_cases hfits : headerSize data + payloadLen.toNat % 2 ^ 32 < 2 ^ 31
  · rw [and_iff_right hfits]
    rw [readPayload_fits hfits] at hdecode
    by_cases hshort : data.length < headerSize data + payloadLen.toNat % 2 ^ 32
    · rw [if_pos hshort] at hdecode
      exact iff_of_true (Or.inl ⟨_, hdecode⟩) (Or.inr hshort)
    · rw [if_neg hshort] at hdecode
      rw [or_iff_left hshort]
      constructor
      · rintro (⟨text, herror⟩ | ⟨frame, hframe, hlength, -⟩)
        · rw [hdecode] at herror
          cases herror
        · -- the payload has as many bytes as the low half says
          rw [hdecode] at hframe
          rw [← Except.ok.inj hframe, frameOf_payload, length_payloadAfter] at hlength
          have hlen : min (payloadLen.toNat % 2 ^ 32) (data.length - headerSize data)
              = payloadLen.toNat := hlength
          have hlow : payloadLen.toNat % 2 ^ 32 < 2 ^ 32 := Nat.mod_lt _ (by decide)
          omega
      · intro hlow
        rw [Nat.mod_eq_of_lt hlow] at hdecode hshort
        refine Or.inr ⟨_, hdecode, ?_, frameOf_payload payloadLen _⟩
        rw [frameOf_payload, length_payloadAfter]
        show min payloadLen.toNat _ = payloadLen.toNat
        omega
  · rw [readPayload_wraps hheader (headerSize_le data) (Nat.le_of_not_lt hfits)] at hdecode
    refine iff_of_false ?_ (fun h => hfits h.1)
    rintro (⟨text, herror⟩ | ⟨frame, hframe, -⟩)
    · rw [hdecode] at herror
      cases herror
    · rw [hdecode] at hframe
      cases hframe

/-- A length of 2^31 is a negative `int`, and the slice a panic. -/
theorem long_length_panics : ¬ DecodesSafely [0x82, 127, 0, 0, 0, 0, 0x80, 0, 0, 0] := by
  have hdecode : decodeWsFrame [0x82, 127, 0, 0, 0, 0, 0x80, 0, 0, 0] = .error .outOfBounds := by
    decide
  rintro (⟨text, herror⟩ | ⟨frame, hframe, -⟩)
  · rw [hdecode] at herror
    cases herror
  · rw [hdecode] at hframe
    cases hframe

end VHono
