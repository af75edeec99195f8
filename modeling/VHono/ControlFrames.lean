import VHono.FrameTerms
import VHono.FrameRoundTrip

/-! # Well-formed control frames

    A control frame of the standard has at most 125 bytes of payload, and a
    close frame no payload or a code and a reason.  The context builds its
    control frames from arguments and from what the peer sends, not all of
    which it checks. -/

namespace VHono

open ByteString

/-- The payload of a close frame: nothing, or a valid code in big-endian order and the reason. -/
def closePayloadOk : ByteString → Bool
  | [] => true
  | [_] => false
  | first :: second :: _ => isValidCloseCode ((first.toNat * 256 + second.toNat : Nat) : Int)

def isControl (opcode : UInt8) : Bool :=
  opcode == wsOpcodeClose || opcode == wsOpcodePing || opcode == wsOpcodePong

/-- Where the frame is a control frame: it is final, has at most 125 bytes of payload, and the
    payload of a close frame is as it should be. -/
def controlFrameOk : ByteString → Bool
  | [] => true
  | [first] => !isControl (first &&& 0x0F)
  | first :: second :: payload =>
      !isControl (first &&& 0x0F) ||
        (first == (0x80 ||| (first &&& 0x0F)) && decide (payload.length ≤ 125) &&
          second.toNat == payload.length &&
          (first &&& 0x0F != wsOpcodeClose || closePayloadOk payload))

/-- All the control frames passed on are well formed. -/
def WSContext.ControlsOk (ws : WSContext) : Prop := ∀ frame ∈ ws.sent, controlFrameOk frame = true

instance (ws : WSContext) : Decidable ws.ControlsOk :=
  inferInstanceAs (Decidable (∀ frame ∈ ws.sent, controlFrameOk frame = true))

/-- What the arguments of the frames need: the sixteen bits of a code that are sent make a valid
    code, the reason leaves room for them, and a ping or pong is short. -/
def controlTerms : Terms where
  close _ code reason := isValidCloseCode (code % 65536) = true ∧ reason.length ≤ 123
  frame _ opcode payload := isControl opcode = true → payload.length ≤ 125

/-! ## Frames of the encoder -/

theorem codeBytes_value (code : Int) :
    (((UInt8.ofInt (code / 256)).toNat * 256 + (UInt8.ofInt code).toNat : Nat) : Int)
      = code % 65536 := by
  have hlow (n : Int) : ((UInt8.ofInt n).toNat : Int) = n % 256 := by
    rw [UInt8.ofInt, UInt8.toNat_ofNat']
    omega
  push_cast
  rw [hlow, hlow]
  omega

theorem closePayloadOk_codeBytes (code : Int) (reason : ByteString) :
    closePayloadOk (codeBytes code ++ reason) = isValidCloseCode (code % 65536) := by
  rw [← codeBytes_value]
  rfl

/-- A frame of the encoder, the opcode being that of a control frame. -/
theorem controlFrameOk_encodeWsFrame {opcode : UInt8} (hcontrol : isControl opcode = true)
    (payload : ByteString) : controlFrameOk (encodeWsFrame opcode payload false) = true ↔
      payload.length ≤ 125 ∧ (opcode = wsOpcodeClose → closePayloadOk payload = true) := by
  have hopcode : (0x80 ||| (opcode &&& 0x0F)) &&& 0x0F = opcode ∧ opcode &&& 0x0F = opcode := by
    rw [isControl, Bool.or_eq_true, Bool.or_eq_true, beq_iff_eq, beq_iff_eq, beq_iff_eq] at hcontrol
    rcases hcontrol with (rfl | rfl) | rfl <;> decide
  by_cases hshort : payload.length ≤ 125
  · have hsecond : ((0 : UInt8) ||| UInt8.ofNat payload.length).toNat = payload.length := by
      rw [UInt8.zero_or, UInt8.toNat_ofNat']
      omega
    have hframe : encodeWsFrame opcode payload false =
        (0x80 ||| (opcode &&& 0x0F)) :: (0 ||| UInt8.ofNat payload.length) :: payload := by
      rw [encodeWsFrame, encodeLength, if_pos hshort]
      rfl
    rw [hframe, controlFrameOk, hopcode.1, hopcode.2, hcontrol, hsecond]
    simp [hshort, ← imp_iff_not_or]
  · -- the second byte stands for a longer payload, and the frame is longer than it says
    rw [iff_false_right (fun h => hshort h.1)]
    obtain ⟨second, rest, hframe, hrest⟩ : ∃ second rest, encodeWsFrame opcode payload false =
        (0x80 ||| (opcode &&& 0x0F)) :: second :: rest ∧ 125 < rest.length := by
      rw [encodeWsFrame, encodeLength, if_neg hshort]
      split
      · exact ⟨_, _, rfl, by simp; omega⟩
      · exact ⟨_, _, rfl, by simp; omega⟩
    rw [hframe, controlFrameOk, hopcode.1, hopcode.2, hcontrol]
    simp [Nat.not_le.mpr hrest]

theorem controlFrameOk_data {first : UInt8} (hdata : isControl (first &&& 0x0F) = false)
    (rest : ByteString) : controlFrameOk (first :: rest) = true := by
  cases rest with
  | nil => rw [controlFrameOk, hdata]; rfl
  | cons second payload => rw [controlFrameOk, hdata]; rfl

/-! ## The law -/

section Law

variable {ws : WSContext}

theorem controlsOk_passFrame (frame : ByteString) : (ws.passFrame frame).ControlsOk ↔
    ws.ControlsOk ∧ (ws.sendFn = true → controlFrameOk frame = true) := by
  by_cases hset : ws.sendFn = true
  · rw [imp_iff_right hset, WSContext.ControlsOk, WSContext.ControlsOk,
      WSContext.sent_passFrame frame hset, List.forall_mem_append]
    simp
  · rw [WSContext.passFrame_unset frame hset, and_iff_left (fun h => absurd h hset)]

theorem controlFrameOk_buildCloseFrame (code : Int) (reason : ByteString) :
    controlFrameOk (buildCloseFrame code reason) = true ↔
      isValidCloseCode (code % 65536) = true ∧ reason.length ≤ 123 := by
  have hlength : (codeBytes code ++ reason).length ≤ 125 ↔ reason.length ≤ 123 := by
    rw [List.length_append, codeBytes, List.length_cons, List.length_singleton]
    omega
  rw [buildCloseFrame, controlFrameOk_encodeWsFrame rfl, hlength, imp_iff_right rfl,
    closePayloadOk_codeBytes, and_comm]

/-- The frames of an open connection are text, binary, ping and pong. -/
theorem controlFrameOk_frame {opcode : UInt8} (hopcode : opcode ∈ openOpcodes)
    (payload : ByteString) : controlFrameOk (encodeWsFrame opcode payload false) = true ↔
      (isControl opcode = true → payload.length ≤ 125) := by
  have hlow : (0x80 ||| (opcode &&& 0x0F)) &&& 0x0F = opcode ∧ opcode ≠ wsOpcodeClose := by
    simp only [openOpcodes, List.mem_cons, List.not_mem_nil, or_false] at hopcode
    rcases hopcode with rfl | rfl | rfl | rfl <;> decide
  by_cases hcontrol : isControl opcode = true
  · rw [controlFrameOk_encodeWsFrame hcontrol, imp_iff_right hcontrol,
      and_iff_left (fun h => absurd h hlow.2)]
  · rw [iff_true_right (fun h => absurd h hcontrol)]
    refine controlFrameOk_data ?_ _
    rw [hlow.1]
    exact Bool.eq_false_iff.mpr hcontrol

end Law

theorem controlTerms_guard : controlTerms.Guard WSContext.ControlsOk where
  steady := by
    intro ws ws' hsent
    rw [WSContext.ControlsOk, WSContext.ControlsOk, hsent]
  close ws code reason := by
    rw [controlsOk_passFrame, controlFrameOk_buildCloseFrame]
    exact Iff.rfl
  frame ws opcode hopcode payload hopen := by
    rw [controlsOk_passFrame, controlFrameOk_frame hopcode, Terms.Frame, imp_iff_right hopen]
    exact Iff.rfl

/-- Over every run, whatever the callbacks call in turn. -/
theorem controlsOk_execAll_iff (calls : List WSCall) (ws : WSContext) :
    (execAll calls ws).ControlsOk ↔ ws.ControlsOk ∧ AllMeet controlTerms calls ws :=
  law_execAll controlTerms_guard calls ws

/-- The pong that answers a ping of 126 bytes has 126 bytes. -/
theorem long_ping_answered : ¬ (execAll
    [⟨.transitionState .open, ⟨0, 0, none⟩, [], []⟩,
      ⟨.handlePing (List.replicate 126 0), ⟨0, 0, none⟩, [], []⟩]
    (createWsContext true true)).ControlsOk := by
  decide +kernel

/-- The code 1005, which must not be sent, is sent back. -/
example : ¬ (execAll
    [⟨.transitionState .open, ⟨0, 0, none⟩, [], []⟩,
      ⟨.handleCloseFrame [0x03, 0xED], ⟨0, 0, none⟩, [], []⟩]
    (createWsContext true true)).ControlsOk := by
  decide

end VHono
