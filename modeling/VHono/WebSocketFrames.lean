import VHono.BigEndian

/-! # Frames of a WebSocket

    The encoder and the decoder of frames.  An `int` has 32 bits: a shift of
    one counts modulo 32, sums of two wrap around, and a 64-bit length is cut
    down to one.  An index or a slice outside of an array is a panic. -/

namespace VHono

open ByteString

structure WSFrame where
  fin        : Bool
  opcode     : UInt8
  masked     : Bool
  maskKey    : List UInt8
  payloadLen : UInt64
  payload    : ByteString
  deriving DecidableEq, Repr

/-- How decoding ends without a frame. -/
inductive Fault
  | error (text : ByteString)
  | outOfBounds
  deriving DecidableEq, Repr

/-- `b ^ mask_key[i % 4]` at every place `i`. -/
def applyMask (maskKey : List UInt8) (payload : ByteString) : ByteString :=
  payload.mapIdx (fun i b => b ^^^ maskKey.getD (i % 4) 0)

/-! ## Encoding -/

/-- The key of masked frames. -/
def encodeMaskKey : List UInt8 := [0x12, 0x34, 0x56, 0x78]

/-- `payload_len >> (i * 8)`, where the count acts modulo 32. -/
def shiftedLen (payloadLen i : Nat) : Nat := payloadLen >>> ((i * 8) % 32)

/-- The second byte and the extended length. -/
def encodeLength (maskBit : UInt8) (payloadLen : Nat) : ByteString :=
  if payloadLen ≤ 125 then [maskBit ||| UInt8.ofNat payloadLen]
  else if payloadLen ≤ 65535 then
    [maskBit ||| 126, UInt8.ofNat (payloadLen >>> 8), UInt8.ofNat (payloadLen &&& 0xFF)]
  else
    (maskBit ||| 127) ::
      [7, 6, 5, 4, 3, 2, 1, 0].map (fun i => UInt8.ofNat (shiftedLen payloadLen i &&& 0xFF))

def encodeWsFrame (opcode : UInt8) (payload : ByteString) (masked : Bool) : ByteString :=
  let maskBit : UInt8 := if masked then 0x80 else 0
  (0x80 ||| (opcode &&& 0x0F)) :: (encodeLength maskBit payload.length ++
    if masked then encodeMaskKey ++ applyMask encodeMaskKey payload else payload)

/-! ## Decoding -/

/-- `data[i]` -/
def index (data : ByteString) (i : Nat) : Except Fault UInt8 :=
  match data[i]? with
  | some b => .ok b
  | none => .error .outOfBounds

/-- `data[start..stop]` -/
def slice (data : ByteString) (start stop : Int) : Except Fault ByteString :=
  if stop < start ∨ (data.length : Int) < stop ∨ start < 0 then .error .outOfBounds
  else .ok ((data.drop start.toNat).take (stop - start).toNat)

/-- `int(n)` -/
def intOfU64 (n : UInt64) : Int := (n.toNat : Int).bmod (2 ^ 32)

/-- The length of the payload, and where the header goes on. -/
def readLength (data : ByteString) (second : UInt8) : Except Fault (UInt64 × Nat) :=
  let payloadLen := (second &&& 0x7F).toUInt64
  if payloadLen = 126 then
    if data.length < 4 then .error (.error (ascii "Frame too short for extended length"))
    else do
      let b2 ← index data 2
      let b3 ← index data 3
      return (b2.toUInt64 <<< 8 ||| b3.toUInt64, 4)
  else if payloadLen = 127 then
    if data.length < 10 then .error (.error (ascii "Frame too short for 64-bit length"))
    else do
      let payloadLen ← (List.range 8).foldlM (fun (n : UInt64) i => do
        let b ← index data (2 + i)
        return (n <<< 8) ||| b.toUInt64) 0
      return (payloadLen, 10)
  else .ok (payloadLen, 2)

/-- The masking key, and where the payload begins. -/
def readMaskKey (data : ByteString) (masked : Bool) (offset : Nat) :
    Except Fault (List UInt8 × Nat) :=
  if masked then
    if data.length < offset + 4 then .error (.error (ascii "Frame too short for mask key"))
    else do
      let k0 ← index data offset
      let k1 ← index data (offset + 1)
      let k2 ← index data (offset + 2)
      let k3 ← index data (offset + 3)
      return ([k0, k1, k2, k3], offset + 4)
  else .ok ([0, 0, 0, 0], offset)

/-- The bytes of the payload. -/
def readPayload (data : ByteString) (offset : Nat) (payloadLen : UInt64) : Except Fault ByteString :=
  let stop := ((offset : Int) + intOfU64 payloadLen).bmod (2 ^ 32)
  if (data.length : Int) < stop then .error (.error (ascii "Frame too short for payload"))
  else slice data offset stop

def decodeWsFrame (data : ByteString) : Except Fault WSFrame :=
  if data.length < 2 then .error (.error (ascii "Frame too short"))
  else do
    let first ← index data 0
    let second ← index data 1
    let masked := (second &&& 0x80) ≠ 0
    let (payloadLen, offset) ← readLength data second
    let (maskKey, offset) ← readMaskKey data masked offset
    let payload ← readPayload data offset payloadLen
    return {
      fin := (first &&& 0x80) ≠ 0
      opcode := first &&& 0x0F
      masked := masked
      maskKey := maskKey
      payloadLen := payloadLen
      payload := if masked then applyMask maskKey payload else payload }

example : (decodeWsFrame (encodeWsFrame 1 (ascii "hi") true)).map (fun frame => frame.payload)
    = .ok (ascii "hi") := by
  decide

end VHono
