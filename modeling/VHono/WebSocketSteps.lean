import VHono.WebSocketContext
import Mathlib.Logic.Relation

/-! # The steps of a connection

    Whatever is called on a context, and whatever its callbacks call in turn,
    is a sequence of few kinds of steps: a valid change of state, a forced
    close, a call that leaves, a mark of a ping or a pong. -/

namespace VHono

open ByteString

namespace WSContext

/-- One step of a context. -/
inductive Step : WSContext → WSContext → Prop
  | change {ws newState} (now) (valid : isValidStateTransition ws.readyState newState = true) :
      Step ws (ws.change newState now false)
  | force (ws now) : Step ws (ws.change .closed now true)
  | frame (ws frame) : Step ws { ws with outputs := ws.outputs ++ [.sendFn frame] }
  | close (ws code reason) : Step ws { ws with outputs := ws.outputs ++ [.closeFn code reason] }
  | error (ws error) : Step ws { ws with outputs := ws.outputs ++ [.onError error] }
  | ping (ws now) : Step ws { ws with lastPingSent := now, awaitingPong := true }
  | pong (ws now) : Step ws { ws with lastPongReceived := now, awaitingPong := false }

/-- Any number of steps. -/
abbrev Steps : WSContext → WSContext → Prop := Relation.ReflTransGen Step

/-- A callback that only makes steps. -/
def Calls (callback : Callback) : Prop := ∀ ws, Steps ws (callback ws)

variable {ws : WSContext} {answers : WSAnswers} {first second : Callback}

theorem steps_transitionState (hfirst : Calls first) (newState : WSReadyState) (now : Int) :
    Steps ws (ws.transitionState newState now first).1 := by
  rw [transitionState]
  split
  · rename_i hvalid
    exact (Relation.ReflTransGen.single (.change now hvalid)).trans (hfirst _)
  · exact .refl

theorem steps_passFrame (frame : ByteString) : Steps ws (ws.passFrame frame) := by
  rw [passFrame]
  split
  · exact .single (.frame ws frame)
  · exact .refl

theorem steps_passClose (code : Int) (reason : ByteString) :
    Steps ws (ws.passClose code reason) := by
  rw [passClose]
  split
  · exact .single (.close ws code reason)
  · exact .refl

theorem steps_sendFrame (opcode : UInt8) (payload : ByteString) :
    Steps ws (ws.sendFrame opcode payload answers).1 := by
  rw [sendFrame]
  split
  · exact .refl
  · exact steps_passFrame _

theorem steps_sendPing (payload : ByteString) : Steps ws (ws.sendPing payload answers).1 := by
  rw [sendPing]
  split
  · exact .refl
  · split
    · exact .refl
    · have hsend : Steps ws (ws.sendFrame wsOpcodePing payload answers).1 := steps_sendFrame _ _
      split
      · rename_i sent heq
        rw [heq] at hsend
        exact hsend.tail (.ping sent answers.now)
      · rename_i sent error heq
        rw [heq] at hsend
        exact hsend

theorem steps_sendPong (payload : ByteString) : Steps ws (ws.sendPong payload answers).1 := by
  rw [sendPong]
  split
  · exact .refl
  · split
    · exact .refl
    · exact steps_sendFrame _ _

theorem steps_close (hfirst : Calls first) (code : Int) (reason : ByteString) :
    Steps ws (ws.close code reason answers first) := by
  rw [close]
  split
  · exact .refl
  · exact ((steps_transitionState hfirst _ _).trans (steps_passFrame _)).trans
      (steps_passClose _ _)

theorem steps_initiateClose (hfirst : Calls first) (code : Int) (reason : ByteString) :
    Steps ws (ws.initiateClose code reason answers first).1 := by
  rw [initiateClose]
  split
  · exact .refl
  · split
    · exact .refl
    · exact (steps_transitionState hfirst _ _).trans (steps_passFrame _)

theorem steps_handleCloseFrame (hfirst : Calls first) (hsecond : Calls second)
    (payload : ByteString) : Steps ws (ws.handleCloseFrame payload answers first second).1 := by
  refine Relation.ReflTransGen.trans ?_ (steps_transitionState hsecond _ _)
  split
  · exact (steps_transitionState hfirst _ _).trans (steps_passFrame _)
  · exact .refl

theorem steps_completeClose (hfirst : Calls first) :
    Steps ws (ws.completeClose answers first) := by
  rw [completeClose]
  split
  · exact steps_transitionState hfirst _ _
  · exact .refl

theorem steps_forceClose (hfirst : Calls first) (code : Int) (reason : ByteString) :
    Steps ws (ws.forceClose code reason answers first) := by
  have hforce : Steps ws (ws.forceTransitionState .closed answers.now first) :=
    (Relation.ReflTransGen.single (.force ws answers.now)).trans (hfirst _)
  exact (hforce.trans (steps_passFrame _)).trans (steps_passClose _ _)

theorem steps_reportError (hfirst : Calls first) (events : WSEvents) (error : ByteString) :
    Steps ws (ws.reportError events error first) := by
  rw [reportError]
  split
  · exact (Relation.ReflTransGen.single (.error ws error)).trans (hfirst _)
  · exact .refl

theorem steps_validateMessageSize (hfirst : Calls first) (hsecond : Calls second)
    (frame : WSFrame) (maxMessageSize : Int) (events : WSEvents) :
    Steps ws (ws.validateMessageSize frame maxMessageSize events answers first second).1 := by
  rw [validateMessageSize]
  split
  · exact (steps_reportError hfirst _ _).trans (steps_forceClose hsecond _ _)
  · exact .refl

theorem steps_run (hfirst : Calls first) (hsecond : Calls second) (method : WSMethod) :
    Steps ws (method.run answers first second ws) := by
  cases method with
  | transitionState newState => exact steps_transitionState hfirst _ _
  | send data => exact steps_sendFrame _ _
  | sendBytes data => exact steps_sendFrame _ _
  | sendJson data => exact steps_sendFrame _ _
  | sendPing payload => exact steps_sendPing _
  | sendPong payload => exact steps_sendPong _
  | handlePing payload => exact steps_sendFrame _ _
  | handlePong => exact .single (.pong ws answers.now)
  | close code reason => exact steps_close hfirst _ _
  | initiateClose code reason => exact steps_initiateClose hfirst _ _
  | handleCloseFrame payload => exact steps_handleCloseFrame hfirst hsecond _
  | completeClose => exact steps_completeClose hfirst
  | forceClose code reason => exact steps_forceClose hfirst _ _
  | validateMessageSize frame maxMessageSize events =>
      exact steps_validateMessageSize hfirst hsecond _ _ _

end WSContext

open WSContext

mutual

theorem steps_exec : ∀ (call : WSCall) (ws : WSContext), Steps ws (call.exec ws)
  | ⟨method, answers, first, second⟩, ws => by
      rw [WSCall.exec]
      exact steps_run (steps_execAll first) (steps_execAll second) method

theorem steps_execAll : ∀ (calls : List WSCall) (ws : WSContext), Steps ws (execAll calls ws)
  | [], ws => by rw [execAll]
  | call :: calls, ws => by
      rw [execAll]
      exact (steps_exec call ws).trans (steps_execAll calls _)

end

end VHono

/-! ## The history of a connection's states

    From `create_ws_context` on, the recorded changes form a chain that ends in
    the present state, only a forced close makes a change that the state
    machine forbids, and a closed connection stays closed. -/

namespace VHono

/-- The changes lead from one state to another, each from where the last one led. -/
inductive Linked : WSReadyState → List WSStateChangeEvent → WSReadyState → Prop
  | nil (s) : Linked s [] s
  | cons {event history t} (tail : Linked event.newState history t) :
      Linked event.previousState (event :: history) t

theorem Linked.concat {s t : WSReadyState} {history : List WSStateChangeEvent}
    (h : Linked s history t) {event : WSStateChangeEvent} (hevent : event.previousState = t) :
    Linked s (history ++ [event]) event.newState := by
  induction h with
  | nil s =>
      subst hevent
      exact .cons (.nil _)
  | cons tail ih => exact .cons (ih hevent)

namespace WSContext

/-- The changes of state as they were announced, forced or not. -/
def changes (ws : WSContext) : List (WSStateChangeEvent × Bool) :=
  ws.outputs.filterMap (fun output =>
    match output with
    | .onStateChange event forced => some (event, forced)
    | _ => none)

/-- What the history says. -/
structure Chronicled (ws : WSContext) : Prop where
  linked   : Linked .connecting ws.stateHistory ws.readyState
  recorded : ws.stateHistory = ws.changes.map (fun change => change.1)
  valid    : ∀ change ∈ ws.changes, change.2 = false →
    isValidStateTransition change.1.previousState change.1.newState = true

variable {ws ws' : WSContext}

theorem Chronicled.change (h : Chronicled ws) (newState : WSReadyState) (now : Int) (forced : Bool)
    (hvalid : forced = false → isValidStateTransition ws.readyState newState = true) :
    Chronicled (ws.change newState now forced) where
  linked := h.linked.concat rfl
  recorded := by
    rw [changes, WSContext.change, List.filterMap_append, List.map_append, h.recorded]
    rfl
  valid := by
    intro change hmem hforced
    rw [changes, WSContext.change, List.filterMap_append, List.mem_append] at hmem
    rcases hmem with hmem | hmem
    · exact h.valid change hmem hforced
    · obtain rfl := List.mem_singleton.mp hmem
      exact hvalid hforced

/-- A step that neither changes the state nor announces a change. -/
theorem Chronicled.steady (h : Chronicled ws) (hstate : ws'.readyState = ws.readyState)
    (hhistory : ws'.stateHistory = ws.stateHistory) (hchanges : ws'.changes = ws.changes) :
    Chronicled ws' where
  linked := by rw [hhistory, hstate]; exact h.linked
  recorded := by rw [hhistory, hchanges]; exact h.recorded
  valid := by rw [hchanges]; exact h.valid

theorem Chronicled.step (h : Chronicled ws) (hstep : Step ws ws') : Chronicled ws' := by
  cases hstep with
  | change now valid => exact h.change _ now false (fun _ => valid)
  | force now => exact h.change _ now true nofun
  | frame frame => exact h.steady rfl rfl (by simp [changes])
  | close code reason => exact h.steady rfl rfl (by simp [changes])
  | error error => exact h.steady rfl rfl (by simp [changes])
  | ping now => exact h.steady rfl rfl rfl
  | pong now => exact h.steady rfl rfl rfl

theorem Chronicled.steps (h : Chronicled ws) (hsteps : Steps ws ws') : Chronicled ws' := by
  induction hsteps with
  | refl => exact h
  | tail _ hstep ih => exact ih.step hstep

theorem chronicled_createWsContext (sendFn closeFn : Bool) :
    Chronicled (createWsContext sendFn closeFn) where
  linked := .nil _
  recorded := rfl
  valid := List.forall_mem_nil _

theorem closed_step (h : ws.readyState = .closed) (hstep : Step ws ws') :
    ws'.readyState = .closed := by
  cases hstep with
  | change now valid =>
      rw [h] at valid
      cases valid
  | force now => rfl
  | frame frame => exact h
  | close code reason => exact h
  | error error => exact h
  | ping now => exact h
  | pong now => exact h

theorem closed_steps (h : ws.readyState = .closed) (hsteps : Steps ws ws') :
    ws'.readyState = .closed := by
  induction hsteps with
  | refl => exact h
  | tail _ hstep ih => exact closed_step ih hstep

end WSContext

/-- Over every run of calls, whatever calls the handlers make in turn. -/
theorem stateHistory_chronicled (sendFn closeFn : Bool) (calls : List WSCall) :
    WSContext.Chronicled (execAll calls (createWsContext sendFn closeFn)) ∧
    ∀ more : List WSCall,
      (execAll calls (createWsContext sendFn closeFn)).readyState = .closed →
      (execAll more (execAll calls (createWsContext sendFn closeFn))).readyState = .closed := by
  refine ⟨?_, ?_⟩
  · exact (WSContext.chronicled_createWsContext sendFn closeFn).steps (steps_execAll calls _)
  · intro more hclosed
    exact WSContext.closed_steps hclosed (steps_execAll more _)

end VHono
