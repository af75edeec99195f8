import VHono.WebSocketContext
import Mathlib.Tactic

/-! # Terms on the frames of a connection

    What a law about the frames passed to `send_fn` asks of each call of a run,
    in the state the call finds: a term for the close frames and a term for the
    others.  Where the terms say what the law needs for one more frame, a run
    keeps the law exactly when all its calls meet them. -/

namespace VHono

open ByteString

/-- What is asked before a close frame, or another frame, is passed on. -/
structure Terms where
  close : WSContext → Int → ByteString → Prop
  frame : WSContext → UInt8 → ByteString → Prop

namespace Terms

variable (terms : Terms)

/-- Before a close frame is passed to a `send_fn` that is set. -/
def Close (ws : WSContext) (code : Int) (reason : ByteString) : Prop :=
  ws.sendFn = true → terms.close ws code reason

/-- Before a frame of an open connection. -/
def Frame (ws : WSContext) (opcode : UInt8) (payload : ByteString) : Prop :=
  ws.readyState = .open → ws.sendFn = true → terms.frame ws opcode payload

end Terms

/-- A handler that meets the terms where the change of state is valid. -/
def WSContext.ChangeMeets (ws : WSContext) (newState : WSReadyState) (now : Int)
    (firstMeets : WSContext → Prop) : Prop :=
  isValidStateTransition ws.readyState newState = true → firstMeets (ws.change newState now false)

/-- What a method asks in the state that it finds, where its callbacks do `first` and `second`
    and ask `firstMeets` and `secondMeets`. -/
def WSMethod.Meets (terms : Terms) (answers : WSAnswers) (first second : Callback)
    (firstMeets secondMeets : WSContext → Prop) (ws : WSContext) : WSMethod → Prop
  | transitionState newState => ws.ChangeMeets newState answers.now firstMeets
  | send data | sendJson data => terms.Frame ws wsOpcodeText data
  | sendBytes data => terms.Frame ws wsOpcodeBinary data
  | sendPing payload => payload.length ≤ 125 → terms.Frame ws wsOpcodePing payload
  | sendPong payload => payload.length ≤ 125 → terms.Frame ws wsOpcodePong payload
  | handlePing payload => terms.Frame ws wsOpcodePong payload
  | handlePong => True
  | close code reason =>
      ws.readyState = .connecting ∨ ws.readyState = .open →
        ws.ChangeMeets .closing answers.now firstMeets ∧
        terms.Close (ws.transitionState .closing answers.now first).1 code reason
  | initiateClose code reason =>
      ws.readyState = .open → isValidCloseCode code = true →
        ws.ChangeMeets .closing answers.now firstMeets ∧
        terms.Close (ws.transitionState .closing answers.now first).1 code reason
  | handleCloseFrame payload =>
      let (code, reason) := parseCloseFrame payload
      let echoed := (ws.transitionState .closing answers.now first).1
      (ws.readyState = .open →
        ws.ChangeMeets .closing answers.now firstMeets ∧ terms.Close echoed code reason) ∧
      (if ws.readyState = .open then echoed.passFrame (buildCloseFrame code reason) else ws).ChangeMeets
        .closed answers.later secondMeets
  | completeClose =>
      ws.readyState = .closing → ws.ChangeMeets .closed answers.now firstMeets
  | forceClose code reason =>
      firstMeets (ws.change .closed answers.now true) ∧
      terms.Close (ws.forceTransitionState .closed answers.now first) code reason
  | validateMessageSize frame maxMessageSize events =>
      WSContext.isTooBig frame maxMessageSize = true →
        let error := ascii "Message size " ++ decimal frame.payloadLen.toNat
          ++ ascii " exceeds maximum allowed size " ++ intStr maxMessageSize
        let reported := ws.reportError events error first
        (events.onError = true → firstMeets { ws with outputs := ws.outputs ++ [.onError error] }) ∧
        secondMeets (reported.change .closed answers.now true) ∧
        terms.Close (reported.forceTransitionState .closed answers.now second)
          wsCloseMessageTooBig (ascii "Message too big")

mutual

/-- Every call that is made meets the terms, those of the callbacks included. -/
def WSCall.Meets (terms : Terms) : WSCall → WSContext → Prop
  | ⟨method, answers, first, second⟩, ws =>
      method.Meets terms answers (execAll first) (execAll second)
        (AllMeet terms first) (AllMeet terms second) ws

def AllMeet (terms : Terms) : List WSCall → WSContext → Prop
  | [], _ => True
  | call :: calls, ws => call.Meets terms ws ∧ AllMeet terms calls (call.exec ws)

end

/-- The opcodes of the frames that are sent over an open connection. -/
def openOpcodes : List UInt8 := [wsOpcodeText, wsOpcodeBinary, wsOpcodePing, wsOpcodePong]

/-- A law about the frames passed on, for which the terms say what one more frame needs. -/
structure Terms.Guard (terms : Terms) (Law : WSContext → Prop) : Prop where
  steady : ∀ {ws ws' : WSContext}, ws'.sent = ws.sent → (Law ws' ↔ Law ws)
  close  : ∀ (ws : WSContext) code reason,
    Law (ws.passFrame (buildCloseFrame code reason)) ↔ Law ws ∧ terms.Close ws code reason
  frame  : ∀ (ws : WSContext), ∀ opcode ∈ openOpcodes, ∀ payload, ws.readyState = .open →
    (Law (ws.passFrame (encodeWsFrame opcode payload false)) ↔
      Law ws ∧ terms.Frame ws opcode payload)

/-! ## Frames stay where nothing is sent -/

namespace WSContext

variable {ws : WSContext}

theorem sent_output (output : WSOutput) (h : ∀ frame, output ≠ .sendFn frame) :
    sent { ws with outputs := ws.outputs ++ [output] } = ws.sent := by
  cases output with
  | sendFn frame => exact absurd rfl (h frame)
  | closeFn code reason => simp [sent]
  | onStateChange event forced => simp [sent]
  | onMessage event => simp [sent]
  | onClose event => simp [sent]
  | onError error => simp [sent]

@[simp] theorem sent_change (newState : WSReadyState) (now : Int) (forced : Bool) :
    (ws.change newState now forced).sent = ws.sent :=
  sent_output _ nofun

@[simp] theorem sent_passClose (code : Int) (reason : ByteString) :
    (ws.passClose code reason).sent = ws.sent := by
  rw [passClose]
  split
  · exact sent_output _ nofun
  · rfl

theorem sent_passFrame (frame : ByteString) (h : ws.sendFn = true) :
    (ws.passFrame frame).sent = ws.sent ++ [frame] := by
  rw [passFrame, if_pos h]
  simp [sent]

theorem passFrame_unset (frame : ByteString) (h : ws.sendFn ≠ true) : ws.passFrame frame = ws := by
  rw [passFrame, if_neg h]

end WSContext

/-! ## The law of a run -/

section Law

variable {terms : Terms} {Law : WSContext → Prop} {ws : WSContext} {answers : WSAnswers}
  {first second : Callback} {firstMeets secondMeets : WSContext → Prop}

open WSContext

/-- A callback keeps the law exactly where it meets what is asked. -/
def Tells (Law : WSContext → Prop) (callback : Callback) (meets : WSContext → Prop) : Prop :=
  ∀ ws, Law (callback ws) ↔ Law ws ∧ meets ws

theorem law_transitionState (h : terms.Guard Law) (hfirst : Tells Law first firstMeets)
    (newState : WSReadyState) (now : Int) :
    Law (ws.transitionState newState now first).1 ↔
      Law ws ∧ ws.ChangeMeets newState now firstMeets := by
  rw [transitionState, ChangeMeets]
  split
  · rename_i hvalid
    rw [hfirst, h.steady (sent_change _ _ _), imp_iff_right hvalid]
  · rename_i hvalid
    rw [and_iff_left (fun hv => absurd hv hvalid)]

theorem law_forceTransitionState (h : terms.Guard Law) (hfirst : Tells Law first firstMeets)
    (newState : WSReadyState) (now : Int) :
    Law (ws.forceTransitionState newState now first) ↔
      Law ws ∧ firstMeets (ws.change newState now true) := by
  rw [forceTransitionState, hfirst, h.steady (sent_change _ _ _)]

theorem law_sendFrame (h : terms.Guard Law) (answers : WSAnswers) {opcode : UInt8}
    (hopcode : opcode ∈ openOpcodes) (payload : ByteString) :
    Law (ws.sendFrame opcode payload answers).1 ↔ Law ws ∧ terms.Frame ws opcode payload := by
  rw [sendFrame]
  split
  · rename_i hopen
    exact (and_iff_left (fun ho => absurd ho hopen)).symm
  · rename_i hopen
    exact h.frame ws opcode hopcode payload (not_not.mp hopen)

theorem law_sendPing (h : terms.Guard Law) (payload : ByteString) :
    Law (ws.sendPing payload answers).1 ↔
      Law ws ∧ (payload.length ≤ 125 → terms.Frame ws wsOpcodePing payload) := by
  rw [sendPing]
  split
  · rename_i hopen
    exact (and_iff_left (fun _ ho => absurd ho hopen)).symm
  · split
    · rename_i hlong
      rw [and_iff_left (fun hshort => absurd hshort (by omega))]
    · rename_i hshort
      rw [imp_iff_right (by omega), ← law_sendFrame h answers (by decide)]
      split
      · rename_i heq
        rw [heq]
        exact h.steady rfl
      · rename_i heq
        rw [heq]

theorem law_sendPong (h : terms.Guard Law) (payload : ByteString) :
    Law (ws.sendPong payload answers).1 ↔
      Law ws ∧ (payload.length ≤ 125 → terms.Frame ws wsOpcodePong payload) := by
  rw [sendPong]
  split
  · rename_i hopen
    exact (and_iff_left (fun _ ho => absurd ho hopen)).symm
  · split
    · rename_i hlong
      rw [and_iff_left (fun hshort => absurd hshort (by omega))]
    · rename_i hshort
      rw [imp_iff_right (by omega), ← law_sendFrame h answers (by decide)]

/-- A change of state and then a close frame. -/
theorem law_closing (h : terms.Guard Law) (hfirst : Tells Law first firstMeets)
    (now code : Int) (reason : ByteString) :
    Law ((ws.transitionState .closing now first).1.passFrame (buildCloseFrame code reason)) ↔
      Law ws ∧ ws.ChangeMeets .closing now firstMeets ∧
        terms.Close (ws.transitionState .closing now first).1 code reason := by
  rw [h.close, law_transitionState h hfirst, and_assoc]

theorem law_close (h : terms.Guard Law) (hfirst : Tells Law first firstMeets) (code : Int)
    (reason : ByteString) : Law (ws.close code reason answers first) ↔
      Law ws ∧ (ws.readyState = .connecting ∨ ws.readyState = .open →
        ws.ChangeMeets .closing answers.now firstMeets ∧
        terms.Close (ws.transitionState .closing answers.now first).1 code reason) := by
  rw [close]
  split
  · rename_i hstate
    refine (and_iff_left ?_).symm
    rintro (hs | hs) <;> rw [hs] at hstate <;> exact absurd hstate (by decide)
  · rename_i hstate
    have hlive : ws.readyState = .connecting ∨ ws.readyState = .open := by
      cases hs : ws.readyState <;> simp_all
    rw [imp_iff_right hlive, ← law_closing h hfirst]
    exact h.steady (sent_passClose _ _)

theorem law_initiateClose (h : terms.Guard Law) (hfirst : Tells Law first firstMeets) (code : Int)
    (reason : ByteString) : Law (ws.initiateClose code reason answers first).1 ↔
      Law ws ∧ (ws.readyState = .open → isValidCloseCode code = true →
        ws.ChangeMeets .closing answers.now firstMeets ∧
        terms.Close (ws.transitionState .closing answers.now first).1 code reason) := by
  rw [initiateClose]
  split
  · rename_i hopen
    rw [and_iff_left (fun ho => absurd ho hopen)]
  · rename_i hopen
    rw [imp_iff_right (not_not.mp hopen)]
    split
    · rename_i hcode
      rw [and_iff_left (fun hc => absurd hc (by rw [hcode]; decide))]
    · rename_i hcode
      rw [imp_iff_right (by simpa using hcode), ← law_closing h hfirst]

theorem law_forceClose (h : terms.Guard Law) (hfirst : Tells Law first firstMeets) (code : Int)
    (reason : ByteString) : Law (ws.forceClose code reason answers first) ↔
      Law ws ∧ firstMeets (ws.change .closed answers.now true) ∧
        terms.Close (ws.forceTransitionState .closed answers.now first) code reason := by
  rw [forceClose, h.steady (sent_passClose _ _), h.close, law_forceTransitionState h hfirst, and_assoc]

theorem law_reportError (h : terms.Guard Law) (hfirst : Tells Law first firstMeets)
    (events : WSEvents) (error : ByteString) : Law (ws.reportError events error first) ↔
      Law ws ∧ (events.onError = true →
        firstMeets { ws with outputs := ws.outputs ++ [.onError error] }) := by
  rw [reportError]
  split
  · rename_i hevent
    rw [hfirst, h.steady (sent_output (.onError error) nofun), imp_iff_right hevent]
  · rename_i hevent
    rw [and_iff_left (fun he => absurd he hevent)]

theorem law_run (h : terms.Guard Law) (hfirst : Tells Law first firstMeets)
    (hsecond : Tells Law second secondMeets) (method : WSMethod) :
    Law (method.run answers first second ws) ↔
      Law ws ∧ method.Meets terms answers first second firstMeets secondMeets ws := by
  cases method with
  | transitionState newState => exact law_transitionState h hfirst _ _
  | send data => exact law_sendFrame h answers (by decide) _
  | sendBytes data => exact law_sendFrame h answers (by decide) _
  | sendJson data => exact law_sendFrame h answers (by decide) _
  | sendPing payload => exact law_sendPing h _
  | sendPong payload => exact law_sendPong h _
  | handlePing payload => exact law_sendFrame h answers (by decide) _
  | handlePong =>
      rw [WSMethod.Meets, and_true]
      exact h.steady rfl
  | close code reason => exact law_close h hfirst _ _
  | initiateClose code reason => exact law_initiateClose h hfirst _ _
  | handleCloseFrame payload =>
      refine (law_transitionState h hsecond _ _).trans ?_
      rw [WSMethod.Meets, ← and_assoc]
      refine and_congr ?_ Iff.rfl
      split
      · rename_i hopen
        rw [imp_iff_right hopen]
        exact law_closing h hfirst _ _ _
      · rename_i hopen
        rw [and_iff_left (fun ho => absurd ho hopen)]
  | completeClose =>
      rw [WSMethod.run, WSMethod.Meets, completeClose]
      split
      · rename_i hclosing
        rw [imp_iff_right hclosing]
        exact law_transitionState h hfirst _ _
      · rename_i hclosing
        rw [and_iff_left (fun hc => absurd hc hclosing)]
  | forceClose code reason => exact law_forceClose h hfirst _ _
  | validateMessageSize frame maxMessageSize events =>
      rw [WSMethod.run, WSMethod.Meets, validateMessageSize]
      split
      · rename_i hbig
        rw [imp_iff_right hbig]
        exact (law_forceClose h hsecond _ _).trans
          ((and_congr (law_reportError h hfirst _ _) Iff.rfl).trans (and_assoc ..))
      · rename_i hbig
        rw [and_iff_left (fun hb => absurd hb hbig)]

mutual

theorem law_exec (h : terms.Guard Law) : ∀ (call : WSCall) (ws : WSContext),
    Law (call.exec ws) ↔ Law ws ∧ call.Meets terms ws
  | ⟨method, answers, first, second⟩, ws => by
      rw [WSCall.exec, WSCall.Meets]
      exact law_run h (law_execAll h first) (law_execAll h second) method

theorem law_execAll (h : terms.Guard Law) : ∀ (calls : List WSCall) (ws : WSContext),
    Law (execAll calls ws) ↔ Law ws ∧ AllMeet terms calls ws
  | [], ws => by rw [execAll, AllMeet, and_true]
  | call :: calls, ws => by
      rw [execAll, AllMeet, law_execAll h calls, law_exec h call, and_assoc]

end

end Law

end VHono
