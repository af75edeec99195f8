import VHono.InsertionMap
import VHono.MachineRuns
import VHono.Responses

/-! # The registry of streams

    A handler that streams leaves its callback in a map of the whole process,
    under an id made from the clock, and the backend takes it from there.  The
    steps of different requests come in any order, and between the reading of
    an entry and its removal runs the callback. -/

namespace VHono

open ByteString MachineRuns

inductive StreamType
  | basic
  | text
  | sse
  deriving DecidableEq, Repr

/-- The callback and the handler of its errors are values of the application. -/
structure StreamConfig (κ η : Type) where
  streamType   : StreamType
  callback     : κ
  errorHandler : Option η
  deriving DecidableEq, Repr

/-- `stream_storage.callbacks` -/
abbrev StreamStorage (κ η : Type) := InsertionMap ByteString (StreamConfig κ η)

variable {κ η : Type}

def storeStreamConfig (storage : StreamStorage κ η) (id : ByteString) (config : StreamConfig κ η) :
    StreamStorage κ η :=
  storage.insert id config

def retrieveStreamConfig (storage : StreamStorage κ η) (id : ByteString) :
    Option (StreamConfig κ η) :=
  storage.get? id

def removeStreamConfig (storage : StreamStorage κ η) (id : ByteString) : StreamStorage κ η :=
  storage.erase id

/-- The nanoseconds of two readings of the clock, the second in `rand_int`. -/
def generateStreamId (now later : Nat) : ByteString :=
  decimal (now / 1000000) ++ ascii "_" ++ decimal (later % 1000000)

/-- The common part of the three: the configuration is stored, the context marked, and an empty
    response with the headers returned. -/
def startStream (typeName : ByteString) (fields : List (ByteString × ByteString))
    (config : StreamConfig κ η) (c : Context) (now later : Nat) (storage : StreamStorage κ η) :
    Context × StreamStorage κ η × HttpResponse :=
  let streamId := generateStreamId now later
  ({ c with
      store := ((c.store.insert (ascii "_stream") (ascii "true")).insert (ascii "_stream_id")
        streamId).insert (ascii "_stream_type") typeName
      headers := fields.foldl (fun headers field => headers.insert field.1 field.2) c.headers },
    storeStreamConfig storage streamId config,
    { statusCode := 200, header := Header.addAll [] fields, body := [] })

def cStream (callback : κ) (errorHandler : Option η) :=
  startStream (ascii "basic")
    [(ascii "Transfer-Encoding", ascii "chunked"), (ascii "Connection", ascii "keep-alive")]
    ⟨.basic, callback, errorHandler⟩

def cStreamText (callback : κ) (errorHandler : Option η) :=
  startStream (ascii "text")
    [(ascii "Content-Type", ascii "text/plain; charset=utf-8"),
      (ascii "Transfer-Encoding", ascii "chunked"),
      (ascii "X-Content-Type-Options", ascii "nosniff"), (ascii "Connection", ascii "keep-alive")]
    ⟨.text, callback, errorHandler⟩

def cStreamSse (callback : κ) (errorHandler : Option η) :=
  startStream (ascii "sse")
    [(ascii "Content-Type", ascii "text/event-stream"), (ascii "Cache-Control", ascii "no-cache"),
      (ascii "Connection", ascii "keep-alive"), (ascii "Transfer-Encoding", ascii "chunked")]
    ⟨.sse, callback, errorHandler⟩

def getStreamConfig (c : Context) (storage : StreamStorage κ η) : Option (StreamConfig κ η) :=
  if !isStreamingResponse c then none
  else
    match c.store.get? (ascii "_stream_id") with
    | some streamId => retrieveStreamConfig storage streamId
    | none => none

def cleanupStreamConfig (c : Context) (storage : StreamStorage κ η) : StreamStorage κ η :=
  match c.store.get? (ascii "_stream_id") with
  | some streamId => removeStreamConfig storage streamId
  | none => storage

/-- The function of the three that makes a configuration. -/
def registerStream (config : StreamConfig κ η) :
    Context → Nat → Nat → StreamStorage κ η → Context × StreamStorage κ η × HttpResponse :=
  match config.streamType with
  | .basic => cStream config.callback config.errorHandler
  | .text => cStreamText config.callback config.errorHandler
  | .sse => cStreamSse config.callback config.errorHandler

/-! ## Requests in any order -/

/-- How far a request has come. -/
inductive StreamPhase
  | idle
  | registered
  | running
  | done
  deriving DecidableEq, Repr

/-- The steps of a request: its handler registers with two readings of the clock, `execute_stream`
    takes the configuration and runs its callback, and cleans up after it. -/
inductive StreamStep (ρ : Type)
  | register (request : ρ) (now later : Nat)
  | retrieve (request : ρ)
  | finish (request : ρ)
  deriving DecidableEq, Repr

structure StreamWorld (ρ κ η : Type) where
  storage  : StreamStorage κ η
  contexts : ρ → Context
  phase    : ρ → StreamPhase
  /-- The configurations whose callbacks were run, and for which request. -/
  executed : List (ρ × StreamConfig κ η)

namespace StreamWorld

variable {ρ : Type} [DecidableEq ρ]

/-- A step that is not due does nothing. -/
def step (config : ρ → StreamConfig κ η) (w : StreamWorld ρ κ η) :
    StreamStep ρ → StreamWorld ρ κ η × Option (StreamConfig κ η)
  | .register r now later =>
      if w.phase r = .idle then
        let (c, storage, _) := registerStream (config r) (w.contexts r) now later w.storage
        ({ w with
            storage := storage
            contexts := Function.update w.contexts r c
            phase := Function.update w.phase r .registered }, none)
      else (w, none)
  | .retrieve r =>
      if w.phase r = .registered then
        match getStreamConfig (w.contexts r) w.storage with
        | some found =>
            ({ w with
                phase := Function.update w.phase r .running
                executed := w.executed ++ [(r, found)] }, some found)
        | none => ({ w with phase := Function.update w.phase r .done }, none)
      else (w, none)
  | .finish r =>
      if w.phase r = .running then
        ({ w with
            storage := cleanupStreamConfig (w.contexts r) w.storage
            phase := Function.update w.phase r .done }, none)
      else (w, none)

/-- The process before any request, with their contexts. -/
def start (contexts : ρ → Context) : StreamWorld ρ κ η where
  storage := .empty
  contexts := contexts
  phase := fun _ => .idle
  executed := []

/-- The request has an entry. -/
def Holds (w : StreamWorld ρ κ η) (r : ρ) : Prop := w.phase r = .registered ∨ w.phase r = .running

/-- The id that a request was given. -/
def idOf (w : StreamWorld ρ κ η) (r : ρ) : Option ByteString :=
  (w.contexts r).store.get? (ascii "_stream_id")

/-- Each request runs the callback it registered, once; its entry is its own, as long as it has
    one, and no other entries are left. -/
structure Isolated (config : ρ → StreamConfig κ η) (w : StreamWorld ρ κ η) : Prop where
  ran   : ∀ r, w.executed.filter (fun run => run.1 = r) =
    if w.phase r = .running ∨ w.phase r = .done then [(r, config r)] else []
  own   : ∀ r, w.Holds r → ∃ id, w.idOf r = some id ∧ w.storage.get? id = some (config r)
  gone  : ∀ id ∈ w.storage.keys, ∃ r, w.Holds r ∧ w.idOf r = some id

/-- The id that the clock gives to a registration is not in use. -/
def Fresh (w : StreamWorld ρ κ η) : StreamStep ρ → Prop
  | .register r now later => w.phase r = .idle → w.storage.get? (generateStreamId now later) = none
  | _ => True

end StreamWorld

end VHono
