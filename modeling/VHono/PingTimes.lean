import VHono.WebSocketContext

/-! # The times of pings and pongs

    A context stamps its pings with whole seconds and compares them with
    durations in milliseconds, cut to seconds as well.  A context only stores
    what the clock reads, so the run of the code is the run with a clock of
    milliseconds, seen through the rounding; that run knows when its last ping
    really was. -/

namespace VHono

open ByteString

/-- `time.now().unix()` at an instant in milliseconds. -/
def unixSeconds (instant : Int) : Int := instant / 1000

/-- What `configure_ping` sets, in milliseconds. -/
structure PingSettings where
  pingInterval : Int
  pongTimeout  : Int
  deriving DecidableEq, Repr

namespace WSContext

variable (ws : WSContext) (settings : PingSettings) (now : Int)

def isPongTimeout : Bool :=
  if ws.awaitingPong = false then false
  else if settings.pongTimeout ≤ 0 then false
  else
    let elapsed := now - ws.lastPingSent
    let timeoutSeconds := settings.pongTimeout.tdiv 1000
    decide (elapsed > timeoutSeconds)

def shouldSendPing : Bool :=
  if settings.pingInterval ≤ 0 then false
  else if ws.readyState ≠ .open then false
  else if ws.awaitingPong then false
  else
    let elapsed := now - ws.lastPingSent
    let intervalSeconds := settings.pingInterval.tdiv 1000
    decide (elapsed ≥ intervalSeconds)

end WSContext

/-! ## The same run with another clock -/

section Clocks

variable (f : Int → Int)

def WSStateChangeEvent.mapClock (event : WSStateChangeEvent) : WSStateChangeEvent :=
  { event with timestamp := f event.timestamp }

def WSOutput.mapClock : WSOutput → WSOutput
  | onStateChange event forced => onStateChange (event.mapClock f) forced
  | output => output

def WSContext.mapClock (ws : WSContext) : WSContext :=
  { ws with
    stateHistory := ws.stateHistory.map (WSStateChangeEvent.mapClock f)
    lastPingSent := f ws.lastPingSent
    lastPongReceived := f ws.lastPongReceived
    outputs := ws.outputs.map (WSOutput.mapClock f) }

def WSAnswers.mapClock (answers : WSAnswers) : WSAnswers :=
  { answers with now := f answers.now, later := f answers.later }

mutual

def WSCall.mapClock : WSCall → WSCall
  | ⟨method, answers, first, second⟩ =>
      ⟨method, answers.mapClock f, mapClockAll first, mapClockAll second⟩

def mapClockAll : List WSCall → List WSCall
  | [] => []
  | call :: calls => call.mapClock :: mapClockAll calls

end

/-- The callbacks do the same on the two clocks. -/
def SameCalls (callback callback' : Callback) : Prop :=
  ∀ ws : WSContext, callback' (ws.mapClock f) = (callback ws).mapClock f

end Clocks

namespace WSContext

variable {f : Int → Int} {ws : WSContext} {answers : WSAnswers}
  {first first' second second' : Callback}

@[simp] theorem mapClock_readyState : (ws.mapClock f).readyState = ws.readyState := rfl
@[simp] theorem mapClock_sendFn : (ws.mapClock f).sendFn = ws.sendFn := rfl
@[simp] theorem mapClock_closeFn : (ws.mapClock f).closeFn = ws.closeFn := rfl
@[simp] theorem mapClock_awaitingPong : (ws.mapClock f).awaitingPong = ws.awaitingPong := rfl
@[simp] theorem mapClock_lastPingSent : (ws.mapClock f).lastPingSent = f ws.lastPingSent := rfl

/-! Each method, on the two clocks. -/

theorem change_mapClock (newState : WSReadyState) (now : Int) (forced : Bool) :
    (ws.mapClock f).change newState (f now) forced
      = (ws.change newState now forced).mapClock f := by
  rw [change, change, mapClock, mapClock, List.map_append, List.map_append]
  rfl

theorem addOutput_mapClock {output : WSOutput} (h : output.mapClock f = output) :
    { ws.mapClock f with outputs := (ws.mapClock f).outputs ++ [output] }
      = ({ ws with outputs := ws.outputs ++ [output] } : WSContext).mapClock f := by
  rw [mapClock, mapClock, List.map_append, List.map_singleton, h]

theorem transitionState_mapClock (hfirst : SameCalls f first first') (newState : WSReadyState)
    (now : Int) :
    ((ws.mapClock f).transitionState newState (f now) first').1
      = (ws.transitionState newState now first).1.mapClock f := by
  rw [transitionState, transitionState, change_mapClock, hfirst, mapClock_readyState]
  split
  · rfl
  · rfl

theorem passFrame_mapClock (frame : ByteString) :
    (ws.mapClock f).passFrame frame = (ws.passFrame frame).mapClock f := by
  rw [passFrame, passFrame, addOutput_mapClock rfl, mapClock_sendFn]
  split
  · rfl
  · rfl

theorem passClose_mapClock (code : Int) (reason : ByteString) :
    (ws.mapClock f).passClose code reason = (ws.passClose code reason).mapClock f := by
  rw [passClose, passClose, addOutput_mapClock rfl, mapClock_closeFn]
  split
  · rfl
  · rfl

theorem sendFrame_mapClock (opcode : UInt8) (payload : ByteString) :
    (ws.mapClock f).sendFrame opcode payload (answers.mapClock f)
      = ((ws.sendFrame opcode payload answers).1.mapClock f,
          (ws.sendFrame opcode payload answers).2) := by
  rw [sendFrame, sendFrame, passFrame_mapClock, mapClock_readyState]
  split
  · rfl
  · rfl

theorem sendPing_mapClock (payload : ByteString) :
    ((ws.mapClock f).sendPing payload (answers.mapClock f)).1
      = (ws.sendPing payload answers).1.mapClock f := by
  rw [sendPing, sendPing, sendFrame_mapClock, mapClock_readyState]
  split
  · rfl
  · split
    · rfl
    · obtain ⟨sent, reply⟩ := ws.sendFrame wsOpcodePing payload answers
      cases reply with
      | ok _ => rfl
      | error _ => rfl

theorem sendPong_mapClock (payload : ByteString) :
    ((ws.mapClock f).sendPong payload (answers.mapClock f)).1
      = (ws.sendPong payload answers).1.mapClock f := by
  rw [sendPong, sendPong, sendFrame_mapClock, mapClock_readyState]
  split
  · rfl
  · split
    · rfl
    · rfl

theorem close_mapClock (hfirst : SameCalls f first first') (code : Int) (reason : ByteString) :
    (ws.mapClock f).close code reason (answers.mapClock f) first'
      = (ws.close code reason answers first).mapClock f := by
  rw [close, close, mapClock_readyState]
  dsimp only
  rw [WSAnswers.mapClock, transitionState_mapClock hfirst, passFrame_mapClock, passClose_mapClock]
  split
  · rfl
  · rfl

theorem initiateClose_mapClock (hfirst : SameCalls f first first') (code : Int)
    (reason : ByteString) :
    ((ws.mapClock f).initiateClose code reason (answers.mapClock f) first').1
      = (ws.initiateClose code reason answers first).1.mapClock f := by
  rw [initiateClose, initiateClose, mapClock_readyState]
  dsimp only
  rw [WSAnswers.mapClock, transitionState_mapClock hfirst, passFrame_mapClock]
  split
  · rfl
  · split
    · rfl
    · rfl

theorem handleCloseFrame_mapClock (hfirst : SameCalls f first first')
    (hsecond : SameCalls f second second') (payload : ByteString) :
    ((ws.mapClock f).handleCloseFrame payload (answers.mapClock f) first' second').1
      = (ws.handleCloseFrame payload answers first second).1.mapClock f := by
  rw [handleCloseFrame, handleCloseFrame, mapClock_readyState]
  dsimp only
  rw [WSAnswers.mapClock, transitionState_mapClock hfirst, passFrame_mapClock,
    ← transitionState_mapClock hsecond]
  split
  · rfl
  · rfl

theorem completeClose_mapClock (hfirst : SameCalls f first first') :
    (ws.mapClock f).completeClose (answers.mapClock f) first'
      = (ws.completeClose answers first).mapClock f := by
  rw [completeClose, completeClose, mapClock_readyState, WSAnswers.mapClock,
    transitionState_mapClock hfirst]
  split
  · rfl
  · rfl

theorem forceClose_mapClock (hfirst : SameCalls f first first') (code : Int)
    (reason : ByteString) :
    (ws.mapClock f).forceClose code reason (answers.mapClock f) first'
      = (ws.forceClose code reason answers first).mapClock f := by
  rw [forceClose, forceClose, forceTransitionState, forceTransitionState, WSAnswers.mapClock, change_mapClock, hfirst,
    passFrame_mapClock, passClose_mapClock]

theorem validateMessageSize_mapClock (hfirst : SameCalls f first first')
    (hsecond : SameCalls f second second') (frame : WSFrame) (maxMessageSize : Int)
    (events : WSEvents) :
    ((ws.mapClock f).validateMessageSize frame maxMessageSize events (answers.mapClock f) first'
        second').1
      = (ws.validateMessageSize frame maxMessageSize events answers first second).1.mapClock f := by
  have hreport : ∀ error, (ws.mapClock f).reportError events error first'
      = (ws.reportError events error first).mapClock f := by
    intro error
    rw [reportError, reportError, addOutput_mapClock rfl, hfirst]
    split
    · rfl
    · rfl
  rw [validateMessageSize, validateMessageSize]
  dsimp only
  rw [hreport, forceClose_mapClock hsecond]
  split
  · rfl
  · rfl

theorem run_mapClock (hfirst : SameCalls f first first') (hsecond : SameCalls f second second')
    (method : WSMethod) :
    method.run (answers.mapClock f) first' second' (ws.mapClock f)
      = (method.run answers first second ws).mapClock f := by
  have hsend : ∀ opcode payload, ((ws.mapClock f).sendFrame opcode payload (answers.mapClock f)).1
      = (ws.sendFrame opcode payload answers).1.mapClock f :=
    fun opcode payload => congrArg Prod.fst (sendFrame_mapClock opcode payload)
  cases method with
  | transitionState newState => exact transitionState_mapClock hfirst _ _
  | send data => exact hsend _ _
  | sendBytes data => exact hsend _ _
  | sendJson data => exact hsend _ _
  | sendPing payload => exact sendPing_mapClock _
  | sendPong payload => exact sendPong_mapClock _
  | handlePing payload => exact hsend _ _
  | handlePong => rfl
  | close code reason => exact close_mapClock hfirst _ _
  | initiateClose code reason => exact initiateClose_mapClock hfirst _ _
  | handleCloseFrame payload => exact handleCloseFrame_mapClock hfirst hsecond _
  | completeClose => exact completeClose_mapClock hfirst
  | forceClose code reason => exact forceClose_mapClock hfirst _ _
  | validateMessageSize frame maxMessageSize events =>
      exact validateMessageSize_mapClock hfirst hsecond _ _ _

end WSContext

open WSContext

variable {f : Int → Int}

mutual

theorem exec_mapClock : ∀ (call : WSCall), SameCalls f call.exec (call.mapClock f).exec
  | ⟨method, answers, first, second⟩ => by
      intro ws
      rw [WSCall.mapClock, WSCall.exec, WSCall.exec]
      exact run_mapClock (execAll_mapClock first) (execAll_mapClock second) method

theorem execAll_mapClock : ∀ (calls : List WSCall),
    SameCalls f (execAll calls) (execAll (mapClockAll f calls))
  | [] => by
      intro ws
      rw [mapClockAll, execAll, execAll]
  | call :: calls => by
      intro ws
      rw [mapClockAll, execAll, execAll, exec_mapClock call ws]
      exact execAll_mapClock calls _

end

/-! ## When the answers are too early -/

/-- The context after the calls, with a clock of milliseconds. -/
def exactRun (sendFn closeFn : Bool) (calls : List WSCall) : WSContext :=
  execAll calls (createWsContext sendFn closeFn)

/-- The context of the code: the clock it reads shows whole seconds. -/
def secondsRun (sendFn closeFn : Bool) (calls : List WSCall) : WSContext :=
  execAll (mapClockAll unixSeconds calls) (createWsContext sendFn closeFn)

/-- A pong is late, and a ping is due, only when the time has really passed.  A context that has
    sent no ping holds the instant zero. -/
structure PingTimesRight (sendFn closeFn : Bool) (calls : List WSCall) (settings : PingSettings)
    (now : Int) : Prop where
  pong : (secondsRun sendFn closeFn calls).isPongTimeout settings (unixSeconds now) = true →
    settings.pongTimeout < now - (exactRun sendFn closeFn calls).lastPingSent
  ping : (secondsRun sendFn closeFn calls).shouldSendPing settings (unixSeconds now) = true →
    (exactRun sendFn closeFn calls).lastPingSent ≠ 0 →
      settings.pingInterval ≤ now - (exactRun sendFn closeFn calls).lastPingSent

/-- One second more than the timeout has whole seconds, by the clock, and the parts below the second
    add up to it. -/
structure TimeoutEarly (sent now timeout : Int) : Prop where
  whole : now / 1000 - sent / 1000 = timeout / 1000 + 1
  parts : now % 1000 + 1000 ≤ sent % 1000 + timeout % 1000

/-- As many seconds as the interval has whole seconds, or one more, and the parts below the second
    add up to more. -/
structure PingEarly (sent now interval more : Int) : Prop where
  whole : now / 1000 - sent / 1000 = interval / 1000 + more
  parts : now % 1000 + 1000 * more < sent % 1000 + interval % 1000

/-- The rounding to seconds is a simulation: the two runs differ by it alone. -/
theorem secondsRun_eq (sendFn closeFn : Bool) (calls : List WSCall) :
    secondsRun sendFn closeFn calls = (exactRun sendFn closeFn calls).mapClock unixSeconds :=
  execAll_mapClock calls (createWsContext sendFn closeFn)

theorem timeoutEarly_iff {sent now timeout : Int} :
    TimeoutEarly sent now timeout
      ↔ timeout / 1000 < now / 1000 - sent / 1000 ∧ now - sent ≤ timeout := by
  constructor
  · rintro ⟨hwhole, hparts⟩
    omega
  · rintro ⟨hseconds, hearly⟩
    exact ⟨by omega, by omega⟩

theorem pingEarly_iff {sent now interval : Int} :
    PingEarly sent now interval 0 ∨ PingEarly sent now interval 1
      ↔ interval / 1000 ≤ now / 1000 - sent / 1000 ∧ now - sent < interval := by
  constructor
  · rintro (⟨hwhole, hparts⟩ | ⟨hwhole, hparts⟩)
    · omega
    · omega
  · rintro ⟨hseconds, hearly⟩
    by_cases hwhole : now / 1000 - sent / 1000 = interval / 1000
    · exact Or.inl ⟨by omega, by omega⟩
    · exact Or.inr ⟨by omega, by omega⟩

namespace WSContext

variable {ws : WSContext} {settings : PingSettings} {now : Int}

theorem isPongTimeout_iff (h : 0 < settings.pongTimeout) :
    (ws.mapClock unixSeconds).isPongTimeout settings (unixSeconds now) = true
      ↔ ws.awaitingPong = true
        ∧ settings.pongTimeout / 1000 < now / 1000 - ws.lastPingSent / 1000 := by
  rw [isPongTimeout, mapClock_awaitingPong, if_neg (not_le.mpr h)]
  dsimp only
  rw [mapClock_lastPingSent, Int.tdiv_eq_ediv_of_nonneg (le_of_lt h)]
  cases ws.awaitingPong with
  | false => simp
  | true => simp [unixSeconds]

theorem shouldSendPing_iff (h : 0 < settings.pingInterval) :
    (ws.mapClock unixSeconds).shouldSendPing settings (unixSeconds now) = true
      ↔ (ws.readyState = .open ∧ ws.awaitingPong = false)
        ∧ settings.pingInterval / 1000 ≤ now / 1000 - ws.lastPingSent / 1000 := by
  rw [shouldSendPing, mapClock_awaitingPong, mapClock_readyState, if_neg (not_le.mpr h)]
  dsimp only
  rw [mapClock_lastPingSent, Int.tdiv_eq_ediv_of_nonneg (le_of_lt h)]
  by_cases hopen : ws.readyState = .open
  · cases ws.awaitingPong with
    | false => simp [hopen, unixSeconds]
    | true => simp
  · simp [hopen]

end WSContext

/-- After every run and at every instant, the answers are right unless the rounding of the instants
    and of the duration cut them short. -/
theorem pingTimesRight_iff (sendFn closeFn : Bool) (calls : List WSCall) (settings : PingSettings)
    (now : Int) (hinterval : 0 < settings.pingInterval) (htimeout : 0 < settings.pongTimeout) :
    PingTimesRight sendFn closeFn calls settings now
      ↔ let ws := exactRun sendFn closeFn calls
        (ws.awaitingPong = true → ¬ TimeoutEarly ws.lastPingSent now settings.pongTimeout)
          ∧ (ws.readyState = .open → ws.awaitingPong = false → ws.lastPingSent ≠ 0 →
            ¬ (PingEarly ws.lastPingSent now settings.pingInterval 0
              ∨ PingEarly ws.lastPingSent now settings.pingInterval 1)) := by
  dsimp only
  rw [timeoutEarly_iff, pingEarly_iff]
  constructor
  · rintro ⟨hpong, hping⟩
    rw [secondsRun_eq, isPongTimeout_iff htimeout] at hpong
    rw [secondsRun_eq, shouldSendPing_iff hinterval] at hping
    constructor
    · rintro hawaiting ⟨hseconds, hearly⟩
      exact absurd (hpong ⟨hawaiting, hseconds⟩) (not_lt.mpr hearly)
    · rintro hopen hidle hsent ⟨hseconds, hearly⟩
      exact absurd (hping ⟨⟨hopen, hidle⟩, hseconds⟩ hsent) (not_le.mpr hearly)
  · rintro ⟨hpong, hping⟩
    constructor
    · rw [secondsRun_eq, isPongTimeout_iff htimeout]
      rintro ⟨hawaiting, hseconds⟩
      exact not_le.mp (fun hearly => hpong hawaiting ⟨hseconds, hearly⟩)
    · rw [secondsRun_eq, shouldSendPing_iff hinterval]
      rintro ⟨⟨hopen, hidle⟩, hseconds⟩ hsent
      exact not_lt.mp (fun hearly => hping hopen hidle hsent ⟨hseconds, hearly⟩)

/-- A connection that is opened and sends a ping in the last millisecond of a second. -/
def lateInSecond : List WSCall :=
  [⟨.transitionState .open, ⟨500, 500, none⟩, [], []⟩, ⟨.sendPing [], ⟨999, 999, none⟩, [], []⟩]

theorem pingTimesRight_lateInSecond :
    PingTimesRight true true lateInSecond ⟨30000, 5000⟩ 8000 :=
  (pingTimesRight_iff _ _ _ _ _ (by decide) (by decide)).mpr
    ⟨fun _ hearly => absurd hearly.whole (by decide), fun _ hidle => absurd hidle (by decide)⟩

/-- A timeout of one and a half seconds is over after one second and a millisecond. -/
theorem timeout_too_early :
    ¬ ∀ (sendFn closeFn : Bool) (calls : List WSCall) (settings : PingSettings) (now : Int),
      0 < settings.pingInterval → 0 < settings.pongTimeout →
        PingTimesRight sendFn closeFn calls settings now := by
  intro h
  have hright := h true true lateInSecond ⟨30000, 1500⟩ 2000 (by decide) (by decide)
  exact absurd (hright.pong (by decide)) (by decide)

end VHono
