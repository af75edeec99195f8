import VHono.FrameDecoding

/-! # Frames that come back

    Up to 65535 bytes a frame has the header of the standard and is decoded to
    what it was made from.  Beyond, the length is shifted by its count modulo
    32, so that it stands in both halves of the 64-bit field. -/

namespace VHono

open ByteString

/-- The header of a final frame in the standard: the shortest form of the length, with the extended
    length in big-endian order. -/
def standardHeader (opcode : UInt8) (masked : Bool) (n : Nat) : ByteString :=
  let maskBit : UInt8 := if masked then 0x80 else 0
  (0x80 ||| opcode) ::
    if n ≤ 125 then [maskBit ||| UInt8.ofNat n]
    else if n ≤ 65535 then (maskBit ||| 126) :: BigEndian.bytes 2 n
    else (maskBit ||| 127) :: BigEndian.bytes 8 n

/-- The frame is decoded to what it was made from, and has the header of the standard. -/
def RoundTrips (opcode : UInt8) (payload : ByteString) (masked : Bool) : Prop :=
  (∃ frame, decodeWsFrame (encodeWsFrame opcode payload masked) = .ok frame ∧
    frame.fin = true ∧ frame.opcode = opcode ∧ frame.masked = masked ∧ frame.payload = payload ∧
    frame.payloadLen.toNat = payload.length) ∧
  standardHeader opcode masked payload.length <+: encodeWsFrame opcode payload masked

/-! ## Bytes of the header -/

theorem opcode_byte {opcode : UInt8} (h : opcode.toNat < 16) :
    opcode &&& 0x0F = opcode ∧ (0x80 ||| opcode) &&& 0x0F = opcode ∧ (0x80 ||| opcode) &&& 0x80 ≠ 0 := by
  obtain ⟨n, hn⟩ : ∃ n, opcode.toNat = n := ⟨_, rfl⟩
  have hopcode : opcode = UInt8.ofNat n := by rw [← hn, UInt8.ofNat_toNat]
  rw [hn] at h
  subst hopcode
  interval_cases n <;> decide

/-- The bit of the mask and a length in one byte. -/
theorem second_byte (masked : Bool) {n : Nat} (h : n < 128) :
    (((if masked then 0x80 else 0) ||| UInt8.ofNat n) &&& 0x7F).toUInt64 = UInt64.ofNat n ∧
      decide ((((if masked then 0x80 else 0) : UInt8) ||| UInt8.ofNat n) &&& 0x80 ≠ 0) = masked := by
  cases masked <;> interval_cases n <;> decide

theorem applyMask_applyMask (maskKey : List UInt8) (payload : ByteString) :
    applyMask maskKey (applyMask maskKey payload) = payload := by
  rw [applyMask, applyMask, List.mapIdx_mapIdx]
  refine List.ext_getElem (by simp) ?_
  intro i h h'
  rw [List.getElem_mapIdx, Function.comp, UInt8.xor_assoc, UInt8.xor_self, UInt8.xor_zero]

/-! ## The length -/

theorem byte_shift (n k : Nat) : UInt8.ofNat ((n >>> k) &&& 0xFF) = UInt8.ofNat (n / 2 ^ k) := by
  refine UInt8.toNat_inj.mp ?_
  rw [UInt8.toNat_ofNat', UInt8.toNat_ofNat', Nat.shiftRight_eq_div_pow,
    show (0xFF : Nat) = 2 ^ 8 - 1 from rfl, Nat.and_two_pow_sub_one_eq_mod]
  exact Nat.mod_mod _ _

/-- The code of the length in the second byte, and the extended length. -/
def shortCode (n : Nat) : Nat := if n ≤ 125 then n else if n ≤ 65535 then 126 else 127

def extendedBytes (n : Nat) : ByteString :=
  if n ≤ 125 then [] else if n ≤ 65535 then BigEndian.bytes 2 n
  else BigEndian.bytes 4 n ++ BigEndian.bytes 4 n

theorem encodeLength_eq (maskBit : UInt8) (n : Nat) :
    encodeLength maskBit n = (maskBit ||| UInt8.ofNat (shortCode n)) :: extendedBytes n := by
  rw [encodeLength, shortCode, extendedBytes]
  by_cases hshort : n ≤ 125
  · rw [if_pos hshort, if_pos hshort, if_pos hshort]
  · rw [if_neg hshort, if_neg hshort, if_neg hshort]
    by_cases hmiddle : n ≤ 65535
    · rw [if_pos hmiddle, if_pos hmiddle, if_pos hmiddle]
      have hhigh : UInt8.ofNat (n >>> 8) = UInt8.ofNat (n / 256) := by
        rw [Nat.shiftRight_eq_div_pow]
      have hlow : UInt8.ofNat (n &&& 0xFF) = UInt8.ofNat n := by
        have hbyte := byte_shift n 0
        rw [Nat.shiftRight_zero, Nat.pow_zero, Nat.div_one] at hbyte
        exact hbyte
      rw [hhigh, hlow]
      rfl
    · rw [if_neg hmiddle, if_neg hmiddle, if_neg hmiddle]
      have hbytes : BigEndian.bytes 4 n = [UInt8.ofNat (n / 2 ^ 24), UInt8.ofNat (n / 2 ^ 16),
          UInt8.ofNat (n / 2 ^ 8), UInt8.ofNat (n / 2 ^ 0)] := by
        have htwo : n / 256 / 256 = n / 2 ^ 16 := by omega
        have hthree : n / 256 / 256 / 256 = n / 2 ^ 24 := by omega
        show [UInt8.ofNat (n / 256 / 256 / 256), UInt8.ofNat (n / 256 / 256),
          UInt8.ofNat (n / 256), UInt8.ofNat n] = _
        rw [hthree, htwo, Nat.pow_zero, Nat.div_one]
        rfl
      rw [hbytes, ← byte_shift, ← byte_shift, ← byte_shift, ← byte_shift]
      rfl

theorem shortCode_lt (n : Nat) : shortCode n < 128 := by
  rw [shortCode]
  split
  · omega
  · split <;> decide

/-! ## The header of an encoded frame -/

section Encoded

variable {opcode : UInt8} {payload : ByteString} {masked : Bool}

/-- What follows the length. -/
def encodedBody (payload : ByteString) (masked : Bool) : ByteString :=
  if masked then encodeMaskKey ++ applyMask encodeMaskKey payload else payload

theorem encodeWsFrame_eq (hopcode : opcode.toNat < 16) : encodeWsFrame opcode payload masked =
    (0x80 ||| opcode) :: ((if masked then 0x80 else 0) ||| UInt8.ofNat (shortCode payload.length)) ::
      (extendedBytes payload.length ++ encodedBody payload masked) := by
  rw [encodeWsFrame, (opcode_byte hopcode).1, encodeLength_eq]
  rfl

theorem shortLength_encoded (hopcode : opcode.toNat < 16) :
    shortLength (encodeWsFrame opcode payload masked) = UInt64.ofNat (shortCode payload.length) := by
  rw [encodeWsFrame_eq hopcode]
  exact (second_byte masked (shortCode_lt _)).1

theorem isMasked_encoded (hopcode : opcode.toNat < 16) :
    isMasked (encodeWsFrame opcode payload masked) = masked := by
  rw [encodeWsFrame_eq hopcode]
  exact (second_byte masked (shortCode_lt _)).2

/-- The code tells the form of the length. -/
theorem shortCode_cases (n : Nat) :
    (n ≤ 125 ∧ UInt64.ofNat (shortCode n) ≠ 126 ∧ UInt64.ofNat (shortCode n) ≠ 127 ∧
      (UInt64.ofNat (shortCode n)).toNat = n ∧ extendedBytes n = []) ∨
    (125 < n ∧ n ≤ 65535 ∧ UInt64.ofNat (shortCode n) = 126 ∧
      extendedBytes n = BigEndian.bytes 2 n) ∨
    (65535 < n ∧ UInt64.ofNat (shortCode n) = 127 ∧
      extendedBytes n = BigEndian.bytes 4 n ++ BigEndian.bytes 4 n) := by
  rw [shortCode, extendedBytes]
  by_cases hshort : n ≤ 125
  · have hvalue : (UInt64.ofNat n).toNat = n := by
      rw [UInt64.toNat_ofNat']
      exact Nat.mod_eq_of_lt (by omega)
    rw [if_pos hshort, if_pos hshort]
    refine Or.inl ⟨hshort, ?_, ?_, hvalue, rfl⟩
    · intro heq
      rw [heq] at hvalue
      have h126 : (126 : UInt64).toNat = 126 := rfl
      omega
    · intro heq
      rw [heq] at hvalue
      have h127 : (127 : UInt64).toNat = 127 := rfl
      omega
  · rw [if_neg hshort, if_neg hshort]
    by_cases hmiddle : n ≤ 65535
    · rw [if_pos hmiddle, if_pos hmiddle]
      exact Or.inr (Or.inl ⟨by omega, hmiddle, rfl, rfl⟩)
    · rw [if_neg hmiddle, if_neg hmiddle]
      exact Or.inr (Or.inr ⟨by omega, rfl, rfl⟩)

theorem drop_encoded (hopcode : opcode.toNat < 16) : (encodeWsFrame opcode payload masked).drop 2 =
    extendedBytes payload.length ++ encodedBody payload masked := by
  rw [encodeWsFrame_eq hopcode]
  rfl

theorem lengthEnd_encoded (hopcode : opcode.toNat < 16) :
    lengthEnd (encodeWsFrame opcode payload masked) = 2 + (extendedBytes payload.length).length := by
  rw [lengthEnd, shortLength_encoded hopcode]
  rcases shortCode_cases payload.length with ⟨-, h126, h127, -, hext⟩ | ⟨-, -, h126, hext⟩ |
    ⟨-, h127, hext⟩
  · rw [if_neg h126, if_neg h127, hext]
    rfl
  · rw [if_pos h126, hext, BigEndian.length_bytes]
  · rw [h127, hext, List.length_append, BigEndian.length_bytes]
    rfl

/-- The length that the decoder reads: the right one up to 65535, and in both halves beyond. -/
theorem lengthField_encoded (hopcode : opcode.toNat < 16) :
    lengthField (encodeWsFrame opcode payload masked) =
      if payload.length ≤ 65535 then payload.length
      else payload.length % 2 ^ 32 * 2 ^ 32 + payload.length % 2 ^ 32 := by
  rw [lengthField, shortLength_encoded hopcode, drop_encoded hopcode]
  rcases shortCode_cases payload.length with ⟨hn, h126, h127, hvalue, -⟩ | ⟨-, hn, h126, hext⟩ |
    ⟨hn, h127, hext⟩
  · rw [if_neg h126, if_neg h127, if_pos (by omega), hvalue]
  · rw [if_pos h126, if_pos hn, hext, List.take_left' (BigEndian.length_bytes 2 _),
      BigEndian.value_bytes]
    exact Nat.mod_eq_of_lt (by omega)
  · have hlength : (BigEndian.bytes 4 payload.length ++ BigEndian.bytes 4 payload.length).length = 8 := by
      rw [List.length_append, BigEndian.length_bytes]
    rw [h127, if_neg (by decide), if_pos rfl, if_neg (by omega), hext, List.take_left' hlength,
      BigEndian.value_append, BigEndian.value_bytes, BigEndian.length_bytes]
    rfl

theorem headerSize_encoded (hopcode : opcode.toNat < 16) :
    headerSize (encodeWsFrame opcode payload masked)
      = 2 + (extendedBytes payload.length).length + if masked then 4 else 0 := by
  rw [headerSize, isMasked_encoded hopcode, lengthEnd_encoded hopcode]
  cases masked <;> rfl

theorem length_encoded (hopcode : opcode.toNat < 16) :
    (encodeWsFrame opcode payload masked).length
      = headerSize (encodeWsFrame opcode payload masked) + payload.length := by
  have hbody : (encodedBody payload masked).length = (if masked then 4 else 0) + payload.length := by
    cases masked with
    | false => exact (Nat.zero_add _).symm
    | true =>
        show (encodeMaskKey ++ applyMask encodeMaskKey payload).length = _
        rw [List.length_append, length_applyMask]
        rfl
  rw [headerSize_encoded hopcode, encodeWsFrame_eq hopcode, List.length_cons, List.length_cons,
    List.length_append, hbody]
  omega

/-- What the decoder finds after the header. -/
theorem payloadAfter_encoded (hopcode : opcode.toNat < 16) :
    payloadAfter (encodeWsFrame opcode payload masked) payload.length = payload := by
  have hdrop : ∀ k, (encodeWsFrame opcode payload masked).drop
      (2 + (extendedBytes payload.length).length + k) = (encodedBody payload masked).drop k := by
    intro k
    rw [Nat.add_assoc, ← List.drop_drop, drop_encoded hopcode, ← List.drop_drop, List.drop_left]
  rw [payloadAfter, isMasked_encoded hopcode, keyField, isMasked_encoded hopcode,
    headerSize_encoded hopcode, lengthEnd_encoded hopcode, hdrop]
  cases masked with
  | false => exact List.take_length
  | true =>
      have hkey := hdrop 0
      rw [Nat.add_zero, List.drop_zero] at hkey
      rw [if_pos rfl, if_pos rfl, hkey]
      show applyMask encodeMaskKey ((applyMask encodeMaskKey payload).take payload.length) = payload
      rw [List.take_of_length_le (Nat.le_of_eq (length_applyMask _ _)), applyMask_applyMask]

/-- Up to 65535 bytes the header is that of the standard. -/
theorem standardHeader_encoded (hopcode : opcode.toNat < 16) (h : payload.length ≤ 65535) :
    standardHeader opcode masked payload.length <+: encodeWsFrame opcode payload masked := by
  have hheader : standardHeader opcode masked payload.length = (0x80 ||| opcode) ::
      ((if masked then 0x80 else 0) ||| UInt8.ofNat (shortCode payload.length)) ::
        extendedBytes payload.length := by
    rw [standardHeader, shortCode, extendedBytes]
    by_cases hshort : payload.length ≤ 125
    · rw [if_pos hshort, if_pos hshort, if_pos hshort]
    · rw [if_neg hshort, if_neg hshort, if_neg hshort, if_pos h, if_pos h, if_pos h]
      rfl
  refine ⟨encodedBody payload masked, ?_⟩
  rw [hheader, encodeWsFrame_eq hopcode]
  rfl

theorem frameOf_encoded (hopcode : opcode.toNat < 16) (payloadLen : UInt64) (raw : ByteString) :
    (frameOf (encodeWsFrame opcode payload masked) payloadLen raw).fin = true ∧
      (frameOf (encodeWsFrame opcode payload masked) payloadLen raw).opcode = opcode ∧
      (frameOf (encodeWsFrame opcode payload masked) payloadLen raw).masked = masked := by
  have hfirst : (encodeWsFrame opcode payload masked).getD 0 0 = 0x80 ||| opcode := by
    rw [encodeWsFrame_eq hopcode]
    rfl
  rw [frameOf, hfirst]
  exact ⟨decide_eq_true (opcode_byte hopcode).2.2, (opcode_byte hopcode).2.1,
    isMasked_encoded hopcode⟩

/-- **A FRAME COMES BACK** exactly if its payload has at most 65535 bytes. -/
theorem roundTrips_iff (opcode : UInt8) (hopcode : opcode.toNat < 16) (payload : ByteString)
    (masked : Bool) : RoundTrips opcode payload masked ↔ payload.length ≤ 65535 := by
  have hlength : (encodeWsFrame opcode payload masked).length
      = headerSize (encodeWsFrame opcode payload masked) + payload.length := length_encoded hopcode
  have hheader := headerSize_le (encodeWsFrame opcode payload masked)
  obtain ⟨payloadLen, hfield, hdecode⟩ :=
    decodeWsFrame_spec (show headerSize (encodeWsFrame opcode payload masked) ≤ _ by omega)
  rw [lengthField_encoded hopcode] at hfield
  constructor
  · rintro ⟨⟨frame, hframe, -, -, -, hpayload, hlen⟩, -⟩
    by_contra hlong
    rw [if_neg hlong] at hfield
    -- a payload is read only if it ends below 2^31, and then its length is the low half
    by_cases hfits : headerSize (encodeWsFrame opcode payload masked) + payloadLen.toNat % 2 ^ 32
        < 2 ^ 31
    · rw [readPayload_fits hfits] at hdecode
      split at hdecode
      · rw [hdecode] at hframe
        cases hframe
      · rw [hdecode] at hframe
        rw [← Except.ok.inj hframe, frameOf_payload] at hpayload
        rw [← Except.ok.inj hframe] at hlen
        have hbytes := congrArg List.length hpayload
        rw [length_payloadAfter] at hbytes
        have hfull : payloadLen.toNat = payload.length := hlen
        omega
    · rw [readPayload_wraps (by omega) hheader (Nat.le_of_not_lt hfits)] at hdecode
      rw [hdecode] at hframe
      cases hframe
  · intro h
    rw [if_pos h] at hfield
    have hlow : payloadLen.toNat % 2 ^ 32 = payload.length := by
      rw [hfield]
      exact Nat.mod_eq_of_lt (by omega)
    rw [readPayload_fits (by omega), hlow, if_neg (by omega)] at hdecode
    obtain ⟨hfin, hop, hmasked⟩ := frameOf_encoded hopcode payloadLen _
    refine ⟨⟨_, hdecode, hfin, hop, hmasked, ?_, hfield⟩, standardHeader_encoded hopcode h⟩
    rw [frameOf_payload, payloadAfter_encoded hopcode]

theorem roundTrips_hi : RoundTrips 1 (ascii "hi") true ↔ (ascii "hi").length ≤ 65535 :=
  roundTrips_iff 1 (by decide) (ascii "hi") true

/-- A payload of 65536 bytes is announced as one of 65536 * (2^32 + 1). -/
theorem long_frame_misannounced : ¬ RoundTrips 2 (List.replicate 65536 0) false := by
  rintro ⟨⟨frame, hframe, -, -, -, -, hlen⟩, -⟩
  have hfield := payloadLen_of_decode hframe
  rw [lengthField_encoded (by decide), hlen, List.length_replicate] at hfield
  exact absurd hfield (by decide)

end Encoded

end VHono
