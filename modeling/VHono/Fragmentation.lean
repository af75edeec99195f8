import VHono.MessageLimit

/-! # Messages in fragments

    The standard cuts a message into a first frame and continuations, of which
    the last is final, and lets control frames come in between.  The context
    looks at each frame alone: it takes a first fragment for a message, and a
    continuation for an unknown opcode. -/

namespace VHono

open ByteString WSContext

def wsOpcodeContinuation : UInt8 := 0x0

/-- A frame of the standard that carries no part of a message. -/
def isControlFrame (frame : WSFrame) : Bool :=
  (frame.opcode == wsOpcodeClose || frame.opcode == wsOpcodePing || frame.opcode == wsOpcodePong) &&
    frame.fin && decide (frame.payload.length ≤ 125)

/-- A frame that carries a part of a message: the first part, or a later one of a message that
    was begun. -/
def isPart (begun : Bool) (frame : WSFrame) : Bool :=
  if begun then frame.opcode == wsOpcodeContinuation else isDataFrame frame

/-- The frames that a peer may have sent so far, where a message was begun before them or not.
    No data follows a close frame. -/
def legal : Bool → List WSFrame → Bool
  | _, [] => true
  | begun, frame :: frames =>
      if isPart begun frame then legal (!frame.fin) frames
      else isControlFrame frame &&
        if frame.opcode == wsOpcodeClose then frames.all isControlFrame else legal begun frames

/-- The messages that are complete, where `begun` holds the opcode and the payload of one that was
    begun. -/
def completeMessages : Option (UInt8 × ByteString) → List WSFrame → List WSMessageEvent
  | _, [] => []
  | none, frame :: frames =>
      if isDataFrame frame then
        if frame.fin then messageOf frame :: completeMessages none frames
        else completeMessages (some (frame.opcode, frame.payload)) frames
      else completeMessages none frames
  | some (opcode, payload), frame :: frames =>
      if frame.opcode = wsOpcodeContinuation then
        let payload := payload ++ frame.payload
        if frame.fin then
          messageOf { frame with opcode := opcode, payload := payload } :: completeMessages none frames
        else completeMessages (some (opcode, payload)) frames
      else completeMessages (some (opcode, payload)) frames

/-! ## Processing -/

/-- A frame with the answers of the world, and the calls that the callbacks make. -/
structure WSArrival where
  frame   : WSFrame
  answers : WSAnswers
  calls   : List WSCall
  first   : List WSCall
  second  : List WSCall

def processAll (events : WSEvents) : List WSArrival → WSContext → WSContext
  | [], ws => ws
  | arrival :: arrivals, ws =>
      processAll events arrivals
        (ws.processWsMessage arrival.frame events arrival.answers (execAll arrival.calls)
          (execAll arrival.first) (execAll arrival.second))

/-- After each frame, `on_message` was called with the complete messages and no others. -/
def JoinsFragments (frames : List WSFrame) : Prop :=
  ∀ (arrivals : List WSArrival), arrivals.map (fun arrival => arrival.frame) = frames →
  ∀ (events : WSEvents), events.onMessage = true → ∀ (ws : WSContext) (k : Nat),
    (processAll events (arrivals.take k) ws).messages =
      ws.messages ++ completeMessages none (frames.take k)

section Process

variable {ws : WSContext} {frame : WSFrame} {events : WSEvents} {answers : WSAnswers}
  {callback first second : Callback}

theorem messages_reportError (hcallback : Calls callback) (error : ByteString) :
    (ws.reportError events error callback).messages = ws.messages :=
  messages_steps (steps_reportError hcallback _ _)

theorem messages_other (hdata : isDataFrame frame = false) (hcallback : Calls callback)
    (hfirst : Calls first) (hsecond : Calls second) :
    (ws.processWsMessage frame events answers callback first second).messages = ws.messages := by
  rw [isDataFrame, Bool.or_eq_false_iff, beq_eq_false_iff_ne, beq_eq_false_iff_ne] at hdata
  rw [processWsMessage, if_neg hdata.1, if_neg hdata.2]
  split
  · -- a close frame
    have hsteps : Steps ws (ws.handleCloseFrame frame.payload answers first second).1 :=
      steps_handleCloseFrame hfirst hsecond frame.payload
    have hclose := messages_steps hsteps
    dsimp only
    split
    · rw [messages_steps (hcallback _), ← hclose]
      simp [messages]
    · exact hclose
  · split
    · -- a ping
      have hping : (ws.handlePing frame.payload answers).1.messages = ws.messages :=
        messages_steps (steps_sendFrame _ _)
      split
      · rename_i heq
        rw [heq] at hping
        exact hping
      · rename_i heq
        rw [heq] at hping
        rw [messages_reportError hcallback]
        exact hping
    · split
      · rfl
      · exact messages_reportError hcallback _

/-- What one frame delivers. -/
theorem messages_process (hevent : events.onMessage = true) (hcallback : Calls callback)
    (hfirst : Calls first) (hsecond : Calls second) :
    (ws.processWsMessage frame events answers callback first second).messages =
      ws.messages ++ ([frame].filter isDataFrame).map messageOf := by
  cases hdata : isDataFrame frame with
  | true =>
      rw [messages_data hdata hevent hcallback, List.filter_cons_of_pos hdata]
      rfl
  | false =>
      rw [messages_other hdata hcallback hfirst hsecond,
        List.filter_cons_of_neg (by rw [hdata]; decide), List.filter_nil, List.map_nil,
        List.append_nil]

theorem messages_processAll (hevent : events.onMessage = true) :
    ∀ (arrivals : List WSArrival) (ws : WSContext), (processAll events arrivals ws).messages =
      ws.messages ++
        ((arrivals.map (fun arrival => arrival.frame)).filter isDataFrame).map messageOf
  | [], ws => (List.append_nil _).symm
  | arrival :: arrivals, ws => by
      rw [processAll, messages_processAll hevent arrivals,
        messages_process hevent (calls_execAll _) (calls_execAll _) (calls_execAll _),
        List.append_assoc, ← List.map_append, ← List.filter_append]
      rfl

end Process

/-! ## Sequences without fragments -/

theorem completeMessages_of_final {frames : List WSFrame}
    (h : ∀ frame ∈ frames, isDataFrame frame = true → frame.fin = true) :
    completeMessages none frames = (frames.filter isDataFrame).map messageOf := by
  induction frames with
  | nil => rfl
  | cons frame frames ih =>
      have hrest := ih (fun other hmem => h other (List.mem_cons_of_mem _ hmem))
      rw [completeMessages]
      cases hdata : isDataFrame frame with
      | true =>
          rw [if_pos rfl, if_pos (h frame List.mem_cons_self hdata), List.filter_cons_of_pos hdata,
            List.map_cons, hrest]
      | false =>
          rw [if_neg Bool.false_ne_true, List.filter_cons_of_neg (by rw [hdata]; decide), hrest]

/-- A first fragment is no complete message yet. -/
theorem completeMessages_concat {frames : List WSFrame} {frame : WSFrame}
    (h : ∀ other ∈ frames, isDataFrame other = true → other.fin = true)
    (hdata : isDataFrame frame = true) (hfin : frame.fin = false) :
    completeMessages none (frames ++ [frame]) = (frames.filter isDataFrame).map messageOf := by
  induction frames with
  | nil =>
      rw [List.nil_append, completeMessages, if_pos hdata, if_neg (by rw [hfin]; decide)]
      rfl
  | cons other frames ih =>
      have hrest := ih (fun o hmem => h o (List.mem_cons_of_mem _ hmem))
      rw [List.cons_append, completeMessages]
      cases hother : isDataFrame other with
      | true =>
          rw [if_pos rfl, if_pos (h other List.mem_cons_self hother),
            List.filter_cons_of_pos hother, List.map_cons, hrest]
      | false =>
          rw [if_neg Bool.false_ne_true, List.filter_cons_of_neg (by rw [hother]; decide), hrest]

theorem control_final {frame : WSFrame} (h : isControlFrame frame = true) : frame.fin = true := by
  rw [isControlFrame, Bool.and_eq_true, Bool.and_eq_true] at h
  exact h.1.2

/-- Where no message is begun and every data frame is final, so is every frame. -/
theorem final_of_legal {frames : List WSFrame} (hlegal : legal false frames = true)
    (h : ∀ frame ∈ frames, isDataFrame frame = true → frame.fin = true) :
    ∀ frame ∈ frames, frame.fin = true := by
  induction frames with
  | nil => exact List.forall_mem_nil _
  | cons frame frames ih =>
      have hrest := fun o hmem => h o (List.mem_cons_of_mem frame hmem)
      rw [legal] at hlegal
      split at hlegal
      · rename_i hpart
        have hfin : frame.fin = true := h frame List.mem_cons_self hpart
        rw [hfin] at hlegal
        exact List.forall_mem_cons.mpr ⟨hfin, ih hlegal hrest⟩
      · rw [Bool.and_eq_true] at hlegal
        refine List.forall_mem_cons.mpr ⟨control_final hlegal.1, ?_⟩
        have htail := hlegal.2
        split at htail
        · intro o hmem
          exact control_final (List.all_eq_true.mp htail o hmem)
        · exact ih htail hrest

/-- The first data frame that is not final. -/
theorem exists_first_fragment {frames : List WSFrame}
    (h : ¬ ∀ frame ∈ frames, isDataFrame frame = true → frame.fin = true) :
    ∃ before frame after, frames = before ++ frame :: after ∧ isDataFrame frame = true ∧
      frame.fin = false ∧ ∀ other ∈ before, isDataFrame other = true → other.fin = true := by
  induction frames with
  | nil => exact absurd (List.forall_mem_nil _) h
  | cons frame frames ih =>
      by_cases hfirst : isDataFrame frame = true → frame.fin = true
      · have hrest : ¬ ∀ f ∈ frames, isDataFrame f = true → f.fin = true :=
          fun hall => h (List.forall_mem_cons.mpr ⟨hfirst, hall⟩)
        obtain ⟨before, f, after, heq, hdata, hfin, hbefore⟩ := ih hrest
        exact ⟨frame :: before, f, after, by rw [heq]; rfl, hdata, hfin,
          List.forall_mem_cons.mpr ⟨hfirst, hbefore⟩⟩
      · push Not at hfirst
        exact ⟨[], frame, frames, rfl, hfirst.1, by simpa using hfirst.2, List.forall_mem_nil _⟩

/-- **FRAGMENTS ARE JOINED** exactly if there are none. -/
theorem joinsFragments_iff {frames : List WSFrame} (hlegal : legal false frames = true) :
    JoinsFragments frames ↔ ∀ frame ∈ frames, frame.fin = true := by
  constructor
  · intro h
    refine final_of_legal hlegal ?_
    by_contra hnot
    obtain ⟨before, frame, after, heq, hdata, hfin, hbefore⟩ := exists_first_fragment hnot
    -- the fragment is delivered as soon as it arrives
    let arrivals : List WSArrival := frames.map (fun frame => ⟨frame, ⟨0, 0, none⟩, [], [], []⟩)
    have harrivals : arrivals.map (fun arrival => arrival.frame) = frames := by
      rw [List.map_map]
      exact List.map_id _
    have hk := h arrivals harrivals ⟨true, true, true⟩ rfl (createWsContext true true)
      (before.length + 1)
    have htake : frames.take (before.length + 1) = before ++ [frame] := by
      rw [heq, List.take_length_add_append]
      rfl
    rw [messages_processAll rfl, List.map_take, harrivals, htake,
      completeMessages_concat hbefore hdata hfin, List.filter_append, List.map_append,
      List.filter_cons_of_pos hdata] at hk
    have hlength := congrArg List.length (List.append_cancel_left hk)
    simp at hlength
  · intro h arrivals harrivals events hevent ws k
    rw [messages_processAll hevent, List.map_take, harrivals,
      completeMessages_of_final (fun frame hmem _ => h frame (List.mem_of_mem_take hmem))]

/-- A message in one frame, and a ping. -/
theorem joinsFragments_hi : JoinsFragments
    [⟨true, 1, true, [1, 2, 3, 4], 2, ascii "hi"⟩, ⟨true, 9, true, [1, 2, 3, 4], 0, []⟩] :=
  (joinsFragments_iff (by decide)).mpr (by decide)

/-- The message `hello` in two fragments. -/
def helloFragments : List WSFrame :=
  [⟨false, 1, true, [1, 2, 3, 4], 3, ascii "hel"⟩, ⟨true, 0, true, [1, 2, 3, 4], 2, ascii "lo"⟩]

theorem hello_not_joined : legal false helloFragments = true ∧ ¬ JoinsFragments helloFragments := by
  refine ⟨by decide, fun h => ?_⟩
  have hfirst := h (helloFragments.map (fun frame => ⟨frame, ⟨0, 0, none⟩, [], [], []⟩)) rfl
    ⟨true, true, true⟩ rfl (createWsContext true true) 1
  exact absurd hfirst (by decide)

end VHono
