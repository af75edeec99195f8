import VHono.WebSocketFrames
import VHono.ByteDecimals

/-! # A WebSocket connection

    The context of a connection: its state machine, the messages and control
    frames it sends and the close handshake.  The callbacks of the application
    may call the context again before the method that runs them goes on, so a
    call carries the calls its callbacks make. -/

namespace VHono

open ByteString

def wsOpcodeText : UInt8 := 0x1
def wsOpcodeBinary : UInt8 := 0x2
def wsOpcodeClose : UInt8 := 0x8
def wsOpcodePing : UInt8 := 0x9
def wsOpcodePong : UInt8 := 0xA

def wsCloseNormal : Int := 1000
def wsCloseMessageTooBig : Int := 1009

inductive WSReadyState
  | connecting
  | open
  | closing
  | closed
  deriving DecidableEq, Repr

structure WSStateChangeEvent where
  previousState : WSReadyState
  newState      : WSReadyState
  timestamp     : Int
  deriving DecidableEq, Repr

structure WSMessageEvent where
  data      : ByteString
  dataBytes : ByteString
  isBinary  : Bool
  deriving DecidableEq, Repr

structure WSCloseEvent where
  code     : Int
  reason   : ByteString
  wasClean : Bool
  deriving DecidableEq, Repr

/-- A call that leaves the context. -/
inductive WSOutput
  | sendFn (frame : ByteString)
  | closeFn (code : Int) (reason : ByteString)
  /-- The handler of state changes; `forced` tells `force_transition_state` from
      `transition_state`. -/
  | onStateChange (event : WSStateChangeEvent) (forced : Bool)
  | onMessage (event : WSMessageEvent)
  | onClose (event : WSCloseEvent)
  | onError (error : ByteString)
  deriving DecidableEq, Repr

/-- The context.  `outputs` is no field of the source: it collects the calls that left. -/
structure WSContext where
  readyState       : WSReadyState
  /-- `send_fn` is not nil. -/
  sendFn           : Bool
  /-- `close_fn` is not nil. -/
  closeFn          : Bool
  stateHistory     : List WSStateChangeEvent
  lastPingSent     : Int
  lastPongReceived : Int
  awaitingPong     : Bool
  outputs          : List WSOutput
  deriving DecidableEq, Repr

/-- The callbacks that are defined. -/
structure WSEvents where
  onMessage : Bool
  onClose   : Bool
  onError   : Bool
  deriving DecidableEq, Repr

/-- What the world answers during one call: the clock at its readings, and the error that
    `send_fn` returns. -/
structure WSAnswers where
  now       : Int
  later     : Int
  sendError : Option ByteString
  deriving DecidableEq, Repr

/-- What a callback does to the context by calling it again. -/
abbrev Callback := WSContext → WSContext

/-! ## Close codes and frames -/

/-- `u8(code >> 8)` and `u8(code & 0xFF)` -/
def codeBytes (code : Int) : ByteString := [UInt8.ofInt (code / 256), UInt8.ofInt code]

def buildCloseFrame (code : Int) (reason : ByteString) : ByteString :=
  encodeWsFrame wsOpcodeClose (codeBytes code ++ reason) false

def parseCloseFrame : ByteString → Int × ByteString
  | first :: second :: reason => (((first.toNat <<< 8 ||| second.toNat : Nat) : Int), reason)
  | _ => (wsCloseNormal, [])

def isValidCloseCode (code : Int) : Bool :=
  if code < 1000 then false
  else if 1004 ≤ code ∧ code ≤ 1006 then false
  else if 1012 ≤ code ∧ code ≤ 2999 then false
  else if 4999 < code then false
  else true

def isValidStateTransition : WSReadyState → WSReadyState → Bool
  | .connecting, target => target == .open || target == .closed
  | .open, target => target == .closing || target == .closed
  | .closing, target => target == .closed
  | .closed, _ => false

namespace WSContext

variable (ws : WSContext)

/-! ## State changes -/

/-- The state is set, and the change is recorded and announced. -/
def change (newState : WSReadyState) (now : Int) (forced : Bool) : WSContext :=
  let event : WSStateChangeEvent :=
    { previousState := ws.readyState, newState := newState, timestamp := now }
  { ws with
    readyState := newState
    stateHistory := ws.stateHistory ++ [event]
    outputs := ws.outputs ++ [.onStateChange event forced] }

def transitionState (newState : WSReadyState) (now : Int) (handler : Callback) : WSContext × Bool :=
  if isValidStateTransition ws.readyState newState then
    (handler (ws.change newState now false), true)
  else (ws, false)

def forceTransitionState (newState : WSReadyState) (now : Int) (handler : Callback) : WSContext :=
  handler (ws.change newState now true)

/-! ## Sending -/

/-- `send_fn(frame)`, where it is set. -/
def passFrame (frame : ByteString) : WSContext :=
  if ws.sendFn then { ws with outputs := ws.outputs ++ [.sendFn frame] } else ws

/-- `close_fn(code, reason)`, where it is set. -/
def passClose (code : Int) (reason : ByteString) : WSContext :=
  if ws.closeFn then { ws with outputs := ws.outputs ++ [.closeFn code reason] } else ws

/-- The error of `send_fn(frame)!`. -/
def sendReply (answers : WSAnswers) : Except ByteString Unit :=
  match answers.sendError with
  | some error => if ws.sendFn then .error error else .ok ()
  | none => .ok ()

def notOpen : ByteString := ascii "WebSocket connection is not open"

/-- A frame of an open connection. -/
def sendFrame (opcode : UInt8) (payload : ByteString) (answers : WSAnswers) :
    WSContext × Except ByteString Unit :=
  if ws.readyState ≠ .open then (ws, .error notOpen)
  else (ws.passFrame (encodeWsFrame opcode payload false), ws.sendReply answers)

def send (data : ByteString) (answers : WSAnswers) : WSContext × Except ByteString Unit :=
  ws.sendFrame wsOpcodeText data answers

def sendBytes (data : ByteString) (answers : WSAnswers) : WSContext × Except ByteString Unit :=
  ws.sendFrame wsOpcodeBinary data answers

def sendJson (data : ByteString) (answers : WSAnswers) : WSContext × Except ByteString Unit :=
  ws.sendFrame wsOpcodeText data answers

/-- The answer is the frame that was sent. -/
def handlePing (payload : ByteString) (answers : WSAnswers) :
    WSContext × Except ByteString ByteString :=
  let (ws, reply) := ws.sendFrame wsOpcodePong payload answers
  (ws, reply.map (fun _ => encodeWsFrame wsOpcodePong payload false))

def sendPing (payload : ByteString) (answers : WSAnswers) : WSContext × Except ByteString Unit :=
  if ws.readyState ≠ .open then (ws, .error notOpen)
  else if 125 < payload.length then (ws, .error (ascii "Ping payload too large (max 125 bytes)"))
  else
    match ws.sendFrame wsOpcodePing payload answers with
    | (ws, .ok ()) => ({ ws with lastPingSent := answers.now, awaitingPong := true }, .ok ())
    | (ws, .error error) => (ws, .error error)

def sendPong (payload : ByteString) (answers : WSAnswers) : WSContext × Except ByteString Unit :=
  if ws.readyState ≠ .open then (ws, .error notOpen)
  else if 125 < payload.length then (ws, .error (ascii "Pong payload too large (max 125 bytes)"))
  else ws.sendFrame wsOpcodePong payload answers

def handlePong (answers : WSAnswers) : WSContext :=
  { ws with lastPongReceived := answers.now, awaitingPong := false }

/-! ## The close handshake -/

def close (code : Int) (reason : ByteString) (answers : WSAnswers) (handler : Callback) :
    WSContext :=
  if ws.readyState = .closed ∨ ws.readyState = .closing then ws
  else
    -- the answer of the transition is not looked at: from `connecting` there is none
    let ws := (ws.transitionState .closing answers.now handler).1
    let ws := ws.passFrame (buildCloseFrame code reason)
    ws.passClose code reason

def initiateClose (code : Int) (reason : ByteString) (answers : WSAnswers) (handler : Callback) :
    WSContext × Except ByteString Unit :=
  if ws.readyState ≠ .open then (ws, .error (ascii "Cannot initiate close: connection not open"))
  else if isValidCloseCode code = false then
    (ws, .error (ascii "Invalid close code: " ++ intStr code))
  else
    let ws := (ws.transitionState .closing answers.now handler).1
    (ws.passFrame (buildCloseFrame code reason), ws.sendReply answers)

def handleCloseFrame (payload : ByteString) (answers : WSAnswers) (handler handler' : Callback) :
    WSContext × WSCloseEvent :=
  let (code, reason) := parseCloseFrame payload
  let ws :=
    if ws.readyState = .open then
      let ws := (ws.transitionState .closing answers.now handler).1
      ws.passFrame (buildCloseFrame code reason)
    else ws
  let ws := (ws.transitionState .closed answers.later handler').1
  (ws, { code := code, reason := reason, wasClean := isValidCloseCode code })

def completeClose (answers : WSAnswers) (handler : Callback) : WSContext :=
  if ws.readyState = .closing then (ws.transitionState .closed answers.now handler).1 else ws

def forceClose (code : Int) (reason : ByteString) (answers : WSAnswers) (handler : Callback) :
    WSContext :=
  let ws := ws.forceTransitionState .closed answers.now handler
  let ws := ws.passFrame (buildCloseFrame code reason)
  ws.passClose code reason

/-! ## Incoming frames -/

/-- `on_error(error, mut ws)`, where it is defined. -/
def reportError (events : WSEvents) (error : ByteString) (callback : Callback) : WSContext :=
  if events.onError then callback { ws with outputs := ws.outputs ++ [.onError error] } else ws

def isDataFrame (frame : WSFrame) : Bool :=
  frame.opcode == wsOpcodeText || frame.opcode == wsOpcodeBinary

/-- `max_message_size > 0 && int(frame.payload_len) > max_message_size`, of a data frame -/
def isTooBig (frame : WSFrame) (maxMessageSize : Int) : Bool :=
  isDataFrame frame && decide (0 < maxMessageSize ∧ maxMessageSize < intOfU64 frame.payloadLen)

def validateMessageSize (frame : WSFrame) (maxMessageSize : Int) (events : WSEvents)
    (answers : WSAnswers) (callback handler : Callback) : WSContext × Bool :=
  if isTooBig frame maxMessageSize then
    let error := ascii "Message size " ++ decimal frame.payloadLen.toNat
      ++ ascii " exceeds maximum allowed size " ++ intStr maxMessageSize
    let ws := ws.reportError events error callback
    (ws.forceClose wsCloseMessageTooBig (ascii "Message too big") answers handler, false)
  else (ws, true)

/-- `on_message(event, mut ws)`, where it is defined. -/
def deliver (events : WSEvents) (event : WSMessageEvent) (callback : Callback) : WSContext :=
  if events.onMessage then callback { ws with outputs := ws.outputs ++ [.onMessage event] } else ws

/-- The callbacks of one frame: a callback of `events`, and the handler of state changes the
    first and the second time. -/
def processWsMessage (frame : WSFrame) (events : WSEvents) (answers : WSAnswers)
    (callback handler handler' : Callback) : WSContext :=
  if frame.opcode = wsOpcodeText then
    ws.deliver events { data := frame.payload, dataBytes := frame.payload, isBinary := false } callback
  else if frame.opcode = wsOpcodeBinary then
    ws.deliver events { data := [], dataBytes := frame.payload, isBinary := true } callback
  else if frame.opcode = wsOpcodeClose then
    let (ws, event) := ws.handleCloseFrame frame.payload answers handler handler'
    if events.onClose then callback { ws with outputs := ws.outputs ++ [.onClose event] } else ws
  else if frame.opcode = wsOpcodePing then
    match ws.handlePing frame.payload answers with
    | (ws, .ok _) => ws
    | (ws, .error error) => ws.reportError events (ascii "Failed to send pong: " ++ error) callback
  else if frame.opcode = wsOpcodePong then ws.handlePong answers
  else
    ws.reportError events (ascii "Unknown opcode: " ++ decimal frame.opcode.toNat) callback

def processWsMessageWithValidation (frame : WSFrame) (maxMessageSize : Int) (events : WSEvents)
    (answers : WSAnswers) (callback handler handler' : Callback) : WSContext × Bool :=
  match ws.validateMessageSize frame maxMessageSize events answers callback handler with
  | (ws, false) => (ws, false)
  | (ws, true) => (ws.processWsMessage frame events answers callback handler handler', true)

end WSContext

/-- `create_ws_context`, with the functions that the backend sets or not. -/
def createWsContext (sendFn closeFn : Bool) : WSContext where
  readyState := .connecting
  sendFn := sendFn
  closeFn := closeFn
  stateHistory := []
  lastPingSent := 0
  lastPongReceived := 0
  awaitingPong := false
  outputs := []

/-! ## Calls and runs -/

/-- A method with its arguments. -/
inductive WSMethod
  | transitionState (newState : WSReadyState)
  | send (data : ByteString)
  | sendBytes (data : ByteString)
  | sendJson (data : ByteString)
  | sendPing (payload : ByteString)
  | sendPong (payload : ByteString)
  | handlePing (payload : ByteString)
  | handlePong
  | close (code : Int) (reason : ByteString)
  | initiateClose (code : Int) (reason : ByteString)
  | handleCloseFrame (payload : ByteString)
  | completeClose
  | forceClose (code : Int) (reason : ByteString)
  | validateMessageSize (frame : WSFrame) (maxMessageSize : Int) (events : WSEvents)
  deriving DecidableEq, Repr

/-- What a method does to the context, its callbacks given in the order they run. -/
def WSMethod.run (answers : WSAnswers) (first second : Callback) (ws : WSContext) :
    WSMethod → WSContext
  | transitionState newState => (ws.transitionState newState answers.now first).1
  | send data => (ws.send data answers).1
  | sendBytes data => (ws.sendBytes data answers).1
  | sendJson data => (ws.sendJson data answers).1
  | sendPing payload => (ws.sendPing payload answers).1
  | sendPong payload => (ws.sendPong payload answers).1
  | handlePing payload => (ws.handlePing payload answers).1
  | handlePong => ws.handlePong answers
  | close code reason => ws.close code reason answers first
  | initiateClose code reason => (ws.initiateClose code reason answers first).1
  | handleCloseFrame payload => (ws.handleCloseFrame payload answers first second).1
  | completeClose => ws.completeClose answers first
  | forceClose code reason => ws.forceClose code reason answers first
  | validateMessageSize frame maxMessageSize events =>
      (ws.validateMessageSize frame maxMessageSize events answers first second).1

/-- A call: the method, the answers it gets, and the calls that its first and its second
    callback make on the same context before it goes on. -/
inductive WSCall
  | mk (method : WSMethod) (answers : WSAnswers) (first second : List WSCall)

mutual

def WSCall.exec : WSCall → WSContext → WSContext
  | ⟨method, answers, first, second⟩, ws =>
      method.run answers (execAll first) (execAll second) ws

def execAll : List WSCall → WSContext → WSContext
  | [], ws => ws
  | call :: calls, ws => execAll calls (call.exec ws)

end

/-- The frames passed to `send_fn`, in order. -/
def WSContext.sent (ws : WSContext) : List ByteString :=
  ws.outputs.filterMap (fun output =>
    match output with
    | .sendFn frame => some frame
    | _ => none)

end VHono
