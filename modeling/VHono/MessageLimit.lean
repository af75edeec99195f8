import VHono.WebSocketSteps
import VHono.FrameDecoding

/-! # The limit on the size of a message

    The limit is compared with the length cut down to an `int`.  A decoded
    frame has a length whose low half is a positive `int`, so the comparison
    is that of the low half. -/

namespace VHono

open ByteString

namespace WSContext

/-- The messages that `on_message` was called with, in order. -/
def messages (ws : WSContext) : List WSMessageEvent :=
  ws.outputs.filterMap (fun output =>
    match output with
    | .onMessage event => some event
    | _ => none)

variable {ws ws' : WSContext}

/-- No method calls `on_message`. -/
theorem messages_step (h : Step ws ws') : ws'.messages = ws.messages := by
  cases h with
  | change now valid => simp [messages, change]
  | force now => simp [messages, change]
  | frame frame => simp [messages]
  | close code reason => simp [messages]
  | error error => simp [messages]
  | ping now => rfl
  | pong now => rfl

theorem messages_steps (h : Steps ws ws') : ws'.messages = ws.messages := by
  induction h with
  | refl => rfl
  | tail _ hstep ih => rw [messages_step hstep, ih]

end WSContext

open WSContext

/-- What `on_message` is called with for a frame with data. -/
def messageOf (frame : WSFrame) : WSMessageEvent where
  data := if frame.opcode = wsOpcodeText then frame.payload else []
  dataBytes := frame.payload
  isBinary := frame.opcode == wsOpcodeBinary

/-- A frame beyond the limit is refused and closes the connection with 1009, a frame within is
    delivered; whatever calls the callbacks make. -/
def LimitHolds (frame : WSFrame) (maxMessageSize : Int) : Prop :=
  ∀ (ws : WSContext) (events : WSEvents) (answers : WSAnswers) (calls first second : List WSCall),
    let outcome := ws.processWsMessageWithValidation frame maxMessageSize events answers
      (execAll calls) (execAll first) (execAll second)
    (maxMessageSize < frame.payloadLen.toNat →
      outcome.2 = false ∧ outcome.1.messages = ws.messages ∧
      ∃ before : WSContext, outcome.1 = before.forceClose wsCloseMessageTooBig
        (ascii "Message too big") answers (execAll first)) ∧
    (frame.payloadLen.toNat ≤ maxMessageSize → events.onMessage = true →
      outcome.2 = true ∧ outcome.1.messages = ws.messages ++ [messageOf frame])

/-! ## One frame -/

section Frame

variable {ws : WSContext} {frame : WSFrame} {maxMessageSize : Int} {events : WSEvents}
  {answers : WSAnswers} {callback first second : Callback}

theorem calls_execAll (calls : List WSCall) : Calls (execAll calls) := steps_execAll calls

theorem messages_deliver (event : WSMessageEvent) (hevent : events.onMessage = true)
    (hcallback : Calls callback) :
    (ws.deliver events event callback).messages = ws.messages ++ [event] := by
  rw [deliver, if_pos hevent, messages_steps (hcallback _)]
  simp [messages]

theorem messages_data (hdata : isDataFrame frame = true) (hevent : events.onMessage = true)
    (hcallback : Calls callback) :
    (ws.processWsMessage frame events answers callback first second).messages =
      ws.messages ++ [messageOf frame] := by
  rw [isDataFrame, Bool.or_eq_true, beq_iff_eq, beq_iff_eq] at hdata
  rw [processWsMessage]
  rcases hdata with htext | hbinary
  · rw [if_pos htext, messages_deliver _ hevent hcallback, messageOf, if_pos htext, htext]
    rfl
  · rw [if_neg (by rw [hbinary]; decide), if_pos hbinary, messages_deliver _ hevent hcallback,
      messageOf, if_neg (by rw [hbinary]; decide), hbinary]
    rfl

theorem outcome_tooBig (hbig : isTooBig frame maxMessageSize = true) (hcallback : Calls callback)
    (hfirst : Calls first) :
    let outcome := ws.processWsMessageWithValidation frame maxMessageSize events answers
      callback first second
    outcome.2 = false ∧ outcome.1.messages = ws.messages ∧
      ∃ before : WSContext, outcome.1 = before.forceClose wsCloseMessageTooBig
        (ascii "Message too big") answers first := by
  have hvalidate : Steps ws
      (ws.validateMessageSize frame maxMessageSize events answers callback first).1 :=
    steps_validateMessageSize hcallback hfirst _ _ _
  rw [validateMessageSize, if_pos hbig] at hvalidate
  rw [processWsMessageWithValidation, validateMessageSize, if_pos hbig]
  exact ⟨rfl, messages_steps hvalidate, _, rfl⟩

theorem outcome_fits (hfits : isTooBig frame maxMessageSize = false) :
    ws.processWsMessageWithValidation frame maxMessageSize events answers callback first second =
      (ws.processWsMessage frame events answers callback first second, true) := by
  rw [processWsMessageWithValidation, validateMessageSize, if_neg (by rw [hfits]; decide)]

end Frame

/-! ## Decoded frames -/

theorem bmod_of_low {n : Nat} (h : n % 2 ^ 32 < 2 ^ 31) :
    (n : Int).bmod (2 ^ 32) = ((n % 2 ^ 32 : Nat) : Int) := by
  have hspec := bmod_spec n
  omega

/-- The length of a decoded frame, as an `int`. -/
theorem intOfU64_of_decode {data : ByteString} {frame : WSFrame}
    (h : decodeWsFrame data = .ok frame) :
    intOfU64 frame.payloadLen = ((frame.payloadLen.toNat % 2 ^ 32 : Nat) : Int) := by
  by_cases hcut : data.length < headerSize data
  · obtain ⟨text, herror⟩ := decodeWsFrame_cut hcut
    rw [herror] at h
    cases h
  · have hheader : headerSize data ≤ data.length := Nat.le_of_not_lt hcut
    obtain ⟨payloadLen, hfield, hdecode⟩ := decodeWsFrame_spec hheader
    rw [hdecode] at h
    by_cases hfits : headerSize data + payloadLen.toNat % 2 ^ 32 < 2 ^ 31
    · cases hread : readPayload data (headerSize data) payloadLen with
      | error fault => rw [hread] at h; cases h
      | ok raw =>
          rw [hread] at h
          have hlen : frame.payloadLen = payloadLen := by rw [← Except.ok.inj h]; rfl
          rw [hlen]
          exact bmod_of_low (Nat.lt_of_le_of_lt (Nat.le_add_left _ _) hfits)
    · rw [readPayload_wraps hheader (headerSize_le data) (Nat.le_of_not_lt hfits)] at h
      cases h

theorem isTooBig_iff {data : ByteString} {frame : WSFrame} (hframe : decodeWsFrame data = .ok frame)
    (hdata : isDataFrame frame = true) {maxMessageSize : Int} (hmax : 0 < maxMessageSize) :
    isTooBig frame maxMessageSize = true ↔
      maxMessageSize < ((frame.payloadLen.toNat % 2 ^ 32 : Nat) : Int) := by
  rw [isTooBig, hdata, Bool.true_and, decide_eq_true_eq, intOfU64_of_decode hframe,
    and_iff_right hmax]

/-- **THE LIMIT HOLDS** exactly if the length is within it, or its low half is not. -/
theorem limitHolds_iff {data : ByteString} {frame : WSFrame} (hframe : decodeWsFrame data = .ok frame)
    (hdata : isDataFrame frame = true) {maxMessageSize : Int} (hmax : 0 < maxMessageSize) :
    LimitHolds frame maxMessageSize ↔
      frame.payloadLen.toNat ≤ maxMessageSize ∨
        maxMessageSize < ((frame.payloadLen.toNat % 2 ^ 32 : Nat) : Int) := by
  have hbig := isTooBig_iff hframe hdata hmax
  have hlow : ((frame.payloadLen.toNat % 2 ^ 32 : Nat) : Int) ≤ frame.payloadLen.toNat :=
    Int.ofNat_le.mpr (Nat.mod_le _ _)
  constructor
  · intro h
    by_contra hneither
    push Not at hneither
    -- a frame beyond the limit that is not refused
    have hrefused := (h (createWsContext true true) ⟨true, true, true⟩ ⟨0, 0, none⟩ [] [] []).1
      hneither.1
    rw [outcome_fits (Bool.eq_false_iff.mpr (fun hb => absurd (hbig.mp hb) (by omega)))] at hrefused
    cases hrefused.1
  · intro h ws events answers calls first second
    refine ⟨fun hover => ?_, fun hwithin hevent => ?_⟩
    · have htoo : isTooBig frame maxMessageSize = true := hbig.mpr (by omega)
      exact outcome_tooBig htoo (calls_execAll calls) (calls_execAll first)
    · have hfits : isTooBig frame maxMessageSize = false :=
        Bool.eq_false_iff.mpr (fun hb => absurd (hbig.mp hb) (by omega))
      rw [outcome_fits hfits]
      exact ⟨rfl, messages_data hdata hevent (calls_execAll calls)⟩

/-- A text frame of two bytes, within a limit of five. -/
theorem limitHolds_hi : LimitHolds ⟨true, 1, false, [0, 0, 0, 0], 2, ascii "hi"⟩ 5 :=
  (limitHolds_iff (show decodeWsFrame [0x81, 2, 104, 105] = .ok _ by decide) (by decide)
    (by decide)).mpr (Or.inl (by decide))

/-- The bytes of a frame that says it has 2^32 + 1 bytes of payload, and has one. -/
def overlongFrame : ByteString := [0x82, 127, 0, 0, 0, 1, 0, 0, 0, 1, 65]

theorem overlong_frame_delivered : ∃ frame, decodeWsFrame overlongFrame = .ok frame ∧
    isDataFrame frame = true ∧ ¬ LimitHolds frame 10 := by
  refine ⟨⟨true, 2, false, [0, 0, 0, 0], 4294967297, [65]⟩, by decide, by decide, ?_⟩
  intro h
  have hrefused := (h (createWsContext true true) ⟨true, true, true⟩ ⟨0, 0, none⟩ [] [] []).1
    (by decide)
  exact absurd hrefused.1 (by decide)

end VHono
