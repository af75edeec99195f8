import VHono.FrameTerms

/-! # One close frame, and nothing after it

    A method that passes a close frame on leaves the connection closing or
    closed, where no method sends but the forced close.  Two things break the
    order: a forced close does not look at the state, and `close` sends its
    frame while connecting, where the change of state it asks for is refused. -/

namespace VHono

open ByteString

def isCloseFrame (frame : ByteString) : Bool :=
  match frame with
  | first :: _ => first &&& 0x0F == wsOpcodeClose
  | [] => false

namespace WSContext

/-- At most one close frame was passed on, and no frame after a close frame. -/
structure ClosesOnce (ws : WSContext) : Prop where
  once : (ws.sent.filter isCloseFrame).length ≤ 1
  last : ws.sent.Pairwise (fun frame _ => isCloseFrame frame = false)

/-- A close frame was passed on. -/
def CloseSent (ws : WSContext) : Prop := ∃ frame ∈ ws.sent, isCloseFrame frame = true

instance (ws : WSContext) : Decidable ws.CloseSent :=
  inferInstanceAs (Decidable (∃ frame ∈ ws.sent, isCloseFrame frame = true))

end WSContext

/-- Before any frame: no close frame was passed on. -/
def closeTerms : Terms where
  close ws _ _ := ¬ ws.CloseSent
  frame ws _ _ := ¬ ws.CloseSent

/-! ## The law -/

theorem length_filter_of_last {frames : List ByteString}
    (h : frames.Pairwise (fun frame _ => isCloseFrame frame = false)) :
    (frames.filter isCloseFrame).length ≤ 1 := by
  induction h with
  | nil => exact Nat.zero_le 1
  | @cons frame rest hfirst hrest ih =>
      cases hclose : isCloseFrame frame with
      | false =>
          rw [List.filter_cons_of_neg (by rw [hclose]; decide)]
          exact ih
      | true =>
          -- nothing can come after it
          have hnil : rest = [] := by
            refine List.eq_nil_iff_forall_not_mem.mpr (fun other hmem => ?_)
            exact absurd (hfirst other hmem) (by rw [hclose]; decide)
          rw [hnil, List.filter_cons_of_pos hclose]
          exact le_rfl

namespace WSContext

variable {ws ws' : WSContext}

theorem closesOnce_iff :
    ws.ClosesOnce ↔ ws.sent.Pairwise (fun frame _ => isCloseFrame frame = false) :=
  ⟨fun h => h.last, fun h => ⟨length_filter_of_last h, h⟩⟩

instance : Decidable ws.ClosesOnce := decidable_of_iff _ closesOnce_iff.symm

theorem not_closeSent_iff : ¬ ws.CloseSent ↔ ∀ frame ∈ ws.sent, isCloseFrame frame = false := by
  rw [CloseSent]
  push Not
  exact forall₂_congr (fun frame _ => Bool.not_eq_true _ ▸ Iff.rfl)

theorem closesOnce_passFrame (frame : ByteString) :
    (ws.passFrame frame).ClosesOnce ↔ ws.ClosesOnce ∧ (ws.sendFn = true → ¬ ws.CloseSent) := by
  by_cases hset : ws.sendFn = true
  · rw [imp_iff_right hset, closesOnce_iff, closesOnce_iff, sent_passFrame frame hset,
      List.pairwise_append, not_closeSent_iff]
    simp
  · rw [passFrame_unset frame hset, and_iff_left (fun h => absurd h hset)]

end WSContext

theorem closeTerms_guard : closeTerms.Guard WSContext.ClosesOnce where
  steady := by
    intro ws ws' hsent
    rw [WSContext.closesOnce_iff, WSContext.closesOnce_iff, hsent]
  close ws code reason := WSContext.closesOnce_passFrame _
  frame ws opcode _ payload hopen := by
    rw [WSContext.closesOnce_passFrame, Terms.Frame, imp_iff_right hopen]
    exact Iff.rfl

/-! ## Runs that are in order

    Where the callbacks do not call the context again, a closed handshake needs
    two things only: a forced close comes first, and `close` does not come
    while connecting. -/

/-- What is asked of a method whose callbacks leave the context alone. -/
def WSMethod.Careful (ws : WSContext) : WSMethod → Prop
  | close _ _ => ws.readyState ≠ .connecting
  | forceClose _ _ => ¬ ws.CloseSent
  | validateMessageSize frame maxMessageSize _ =>
      WSContext.isTooBig frame maxMessageSize = true → ¬ ws.CloseSent
  | _ => True

/-- The calls of a run whose callbacks leave the context alone. -/
def plainCalls (run : List (WSMethod × WSAnswers)) : List WSCall :=
  run.map (fun call => ⟨call.1, call.2, [], []⟩)

def AllCareful : List (WSMethod × WSAnswers) → WSContext → Prop
  | [], _ => True
  | (method, answers) :: run, ws =>
      method.Careful ws ∧ AllCareful run (method.run answers (execAll []) (execAll []) ws)

namespace WSContext

/-- A close frame was passed on only by a connection that is closing or closed. -/
def Settled (ws : WSContext) : Prop :=
  ws.CloseSent → ws.readyState = .closing ∨ ws.readyState = .closed

variable {ws : WSContext}

theorem closeSent_change (newState : WSReadyState) (now : Int) (forced : Bool) :
    (ws.change newState now forced).CloseSent ↔ ws.CloseSent := by
  rw [CloseSent, sent_change, CloseSent]

theorem closeSent_passFrame (frame : ByteString) (hframe : isCloseFrame frame = false) :
    (ws.passFrame frame).CloseSent ↔ ws.CloseSent := by
  by_cases hset : ws.sendFn = true
  · rw [CloseSent, sent_passFrame frame hset, CloseSent]
    simp [hframe, or_and_right, exists_or]
  · rw [passFrame_unset frame hset]

@[simp] theorem passFrame_readyState (frame : ByteString) :
    (ws.passFrame frame).readyState = ws.readyState := by
  rw [passFrame]
  split <;> rfl

@[simp] theorem passClose_readyState (code : Int) (reason : ByteString) :
    (ws.passClose code reason).readyState = ws.readyState := by
  rw [passClose]
  split <;> rfl

theorem Settled.not_closeSent (h : ws.Settled)
    (hlive : ws.readyState = .connecting ∨ ws.readyState = .open) : ¬ ws.CloseSent := by
  intro hsent
  rcases hlive with hs | hs <;> rcases h hsent with hc | hc <;>
    exact absurd (hs.symm.trans hc) (by decide)

end WSContext

theorem execAll_nil (ws : WSContext) : execAll [] ws = ws := by rw [execAll]

theorem allMeet_nil (terms : Terms) (ws : WSContext) : AllMeet terms [] ws := by
  rw [AllMeet]
  trivial

section Careful

open WSContext

variable {ws : WSContext} {answers : WSAnswers}

theorem closeSent_transition (newState : WSReadyState) (now : Int) :
    (ws.transitionState newState now (execAll [])).1.CloseSent ↔ ws.CloseSent := by
  rw [transitionState]
  split
  · rw [execAll_nil]
    exact closeSent_change _ _ _
  · exact Iff.rfl

theorem changeMeets_nil (newState : WSReadyState) (now : Int) :
    ws.ChangeMeets newState now (AllMeet closeTerms []) :=
  fun _ => allMeet_nil _ _

/-- The term of a close frame that comes after a change of state. -/
theorem close_after_transition (h : ¬ ws.CloseSent) (newState : WSReadyState) (now code : Int)
    (reason : ByteString) :
    closeTerms.Close (ws.transitionState newState now (execAll [])).1 code reason :=
  fun _ hsent => h ((closeSent_transition newState now).mp hsent)

theorem frame_of_settled (h : ws.Settled) (opcode : UInt8) (payload : ByteString) :
    closeTerms.Frame ws opcode payload :=
  fun hopen _ => h.not_closeSent (.inr hopen)

theorem meets_of_careful (h : ws.Settled) {method : WSMethod} (hcareful : method.Careful ws) :
    method.Meets closeTerms answers (execAll []) (execAll []) (AllMeet closeTerms [])
      (AllMeet closeTerms []) ws := by
  cases method with
  | transitionState newState => exact changeMeets_nil _ _
  | send data => exact frame_of_settled h _ _
  | sendBytes data => exact frame_of_settled h _ _
  | sendJson data => exact frame_of_settled h _ _
  | sendPing payload => exact fun _ => frame_of_settled h _ _
  | sendPong payload => exact fun _ => frame_of_settled h _ _
  | handlePing payload => exact frame_of_settled h _ _
  | handlePong => trivial
  | close code reason =>
      intro hlive
      exact ⟨changeMeets_nil _ _, close_after_transition (h.not_closeSent hlive) _ _ _ _⟩
  | initiateClose code reason =>
      intro hopen _
      exact ⟨changeMeets_nil _ _,
        close_after_transition (h.not_closeSent (.inr hopen)) _ _ _ _⟩
  | handleCloseFrame payload =>
      refine ⟨fun hopen => ⟨changeMeets_nil _ _, ?_⟩, changeMeets_nil _ _⟩
      exact close_after_transition (h.not_closeSent (.inr hopen)) _ _ _ _
  | completeClose => exact fun _ => changeMeets_nil _ _
  | forceClose code reason =>
      refine ⟨allMeet_nil _ _, fun _ hsent => hcareful ?_⟩
      rw [forceTransitionState, execAll_nil] at hsent
      exact (closeSent_change _ _ _).mp hsent
  | validateMessageSize frame maxMessageSize events =>
      intro hbig
      refine ⟨fun _ => allMeet_nil _ _, allMeet_nil _ _, fun _ hsent => hcareful hbig ?_⟩
      rw [forceTransitionState, execAll_nil, closeSent_change, reportError] at hsent
      split at hsent
      · rw [execAll_nil, CloseSent, sent_output (.onError _) (by rintro _ ⟨⟩)] at hsent
        exact hsent
      · exact hsent

theorem settled_transition (h : ws.Settled) (newState : WSReadyState) (now : Int) :
    (ws.transitionState newState now (execAll [])).1.Settled := by
  intro hsent
  have hstate := h ((closeSent_transition newState now).mp hsent)
  rw [transitionState]
  split
  · rename_i hvalid
    rw [execAll_nil]
    refine .inr ?_
    rcases hstate with hs | hs
    · rw [hs] at hvalid
      exact beq_iff_eq.mp hvalid
    · rw [hs] at hvalid
      cases hvalid
  · exact hstate

theorem settled_passFrame (h : ws.Settled) {frame : ByteString}
    (hframe : isCloseFrame frame = false) : (ws.passFrame frame).Settled := by
  intro hsent
  rw [passFrame_readyState]
  exact h ((closeSent_passFrame frame hframe).mp hsent)

theorem settled_sendFrame (h : ws.Settled) {opcode : UInt8} {payload : ByteString}
    (hframe : isCloseFrame (encodeWsFrame opcode payload false) = false) :
    (ws.sendFrame opcode payload answers).1.Settled := by
  rw [sendFrame]
  split
  · exact h
  · exact settled_passFrame h hframe

/-- After a change of state that is valid, the frame may be any. -/
theorem settled_of_state (hstate : ws.readyState = .closing ∨ ws.readyState = .closed) :
    ws.Settled :=
  fun _ => hstate

theorem closing_of_open (hopen : ws.readyState = .open) (now : Int) :
    (ws.transitionState .closing now (execAll [])).1.readyState = .closing := by
  rw [transitionState, if_pos (by rw [hopen]; rfl), execAll_nil]
  rfl

theorem forceClose_closed (code : Int) (reason : ByteString) :
    (ws.forceClose code reason answers (execAll [])).readyState = .closed := by
  rw [forceClose, passClose_readyState, passFrame_readyState, forceTransitionState, execAll_nil]
  rfl

theorem settled_run (h : ws.Settled) {method : WSMethod} (hcareful : method.Careful ws) :
    (method.run answers (execAll []) (execAll []) ws).Settled := by
  cases method with
  | transitionState newState => exact settled_transition h _ _
  | send data => exact settled_sendFrame h rfl
  | sendBytes data => exact settled_sendFrame h rfl
  | sendJson data => exact settled_sendFrame h rfl
  | sendPing payload =>
      have hsend : (ws.sendFrame wsOpcodePing payload answers).1.Settled := settled_sendFrame h rfl
      rw [WSMethod.run, sendPing]
      split
      · exact h
      · split
        · exact h
        · split
          · rename_i heq
            rw [heq] at hsend
            exact hsend
          · rename_i heq
            rw [heq] at hsend
            exact hsend
  | sendPong payload =>
      rw [WSMethod.run, sendPong]
      split
      · exact h
      · split
        · exact h
        · exact settled_sendFrame h rfl
  | handlePing payload => exact settled_sendFrame h rfl
  | handlePong => exact h
  | close code reason =>
      rw [WSMethod.run, close]
      split
      · exact h
      · rename_i hstate
        have hopen : ws.readyState = .open := by
          cases hs : ws.readyState with
          | connecting => exact absurd hs hcareful
          | «open» => rfl
          | closing => exact absurd (.inr hs) hstate
          | closed => exact absurd (.inl hs) hstate
        refine settled_of_state (.inl ?_)
        rw [passClose_readyState, passFrame_readyState, closing_of_open hopen]
  | initiateClose code reason =>
      rw [WSMethod.run, initiateClose]
      split
      · exact h
      · rename_i hopen
        split
        · exact h
        · refine settled_of_state (.inl ?_)
          rw [passFrame_readyState, closing_of_open (not_not.mp hopen)]
  | handleCloseFrame payload =>
      refine settled_transition ?_ _ _
      split
      · rename_i hopen
        refine settled_of_state (.inl ?_)
        rw [passFrame_readyState, closing_of_open hopen]
      · exact h
  | completeClose =>
      rw [WSMethod.run, completeClose]
      split
      · exact settled_transition h _ _
      · exact h
  | forceClose code reason => exact settled_of_state (.inr (forceClose_closed _ _))
  | validateMessageSize frame maxMessageSize events =>
      rw [WSMethod.run, validateMessageSize]
      split
      · exact settled_of_state (.inr (forceClose_closed _ _))
      · exact h

theorem allMeet_of_careful : ∀ {run : List (WSMethod × WSAnswers)} {ws : WSContext},
    ws.Settled → AllCareful run ws → AllMeet closeTerms (plainCalls run) ws
  | [], _, _, _ => allMeet_nil _ _
  | (method, answers) :: run, ws, h, hcareful => by
      rw [plainCalls, List.map_cons, AllMeet, WSCall.Meets, WSCall.exec]
      exact ⟨meets_of_careful h hcareful.1,
        allMeet_of_careful (settled_run h hcareful.1) hcareful.2⟩

end Careful

/-- Over every run, whatever the callbacks call in turn. -/
theorem closesOnce_execAll_iff (calls : List WSCall) (ws : WSContext) :
    (execAll calls ws).ClosesOnce ↔ ws.ClosesOnce ∧ AllMeet closeTerms calls ws :=
  law_execAll closeTerms_guard calls ws

/-- A run that is in order closes once. -/
theorem closesOnce_of_careful {run : List (WSMethod × WSAnswers)} {ws : WSContext}
    (hlaw : ws.ClosesOnce) (hsettled : ws.Settled) (h : AllCareful run ws) :
    (execAll (plainCalls run) ws).ClosesOnce :=
  (law_execAll closeTerms_guard _ ws).mpr ⟨hlaw, allMeet_of_careful hsettled h⟩

/-- **ONE CLOSE FRAME**, and nothing after it: in every run that is in order where the callbacks
    leave the context alone, and in any run exactly if no frame comes after a close frame was
    passed on. -/
theorem closesOnce_runs (sendFn closeFn : Bool) :
    (∀ run, AllCareful run (createWsContext sendFn closeFn) →
      (execAll (plainCalls run) (createWsContext sendFn closeFn)).ClosesOnce) ∧
    ∀ calls, (execAll calls (createWsContext sendFn closeFn)).ClosesOnce ↔
      AllMeet closeTerms calls (createWsContext sendFn closeFn) := by
  have hstart : (createWsContext sendFn closeFn).ClosesOnce := ⟨Nat.zero_le 1, .nil⟩
  refine ⟨fun run => closesOnce_of_careful hstart ?_, fun calls => ?_⟩
  · rintro ⟨frame, hmem, -⟩
    cases hmem
  · rw [closesOnce_execAll_iff, and_iff_right hstart]

/-- A forced close after `close` passes a second close frame on. -/
theorem forceClose_after_close : ¬ (execAll (plainCalls
    [(.transitionState .open, ⟨0, 0, none⟩), (.close 1000 (ascii "bye"), ⟨0, 0, none⟩),
      (.forceClose 1009 (ascii "Message too big"), ⟨0, 0, none⟩)])
    (createWsContext true true)).ClosesOnce := by
  decide

/-- `close` while connecting passes its frame on and leaves the connection connecting. -/
example : ¬ (execAll (plainCalls
    [(.close 1000 [], ⟨0, 0, none⟩), (.transitionState .open, ⟨0, 0, none⟩),
      (.send (ascii "hi"), ⟨0, 0, none⟩)])
    (createWsContext true true)).ClosesOnce := by
  decide

end VHono
