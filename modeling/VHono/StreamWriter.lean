import VHono.ByteDecimals
import VHono.ChunkedCoding

/-! # Streams

    The context that a streaming callback writes to, over a writer of one of
    the servers, and the writer of picoev, which puts each write on the socket
    as a chunk. -/

namespace VHono

open ByteString

/-- What a method that may fail leaves and answers. -/
abbrev Attempt (σ : Type) := σ × Except ByteString Unit

/-- `a!` and then `b`: the second is not tried where the first fails. -/
def Attempt.andThen {σ : Type} (first : Attempt σ) (next : σ → Attempt σ) : Attempt σ :=
  match first with
  | (s, .ok ()) => next s
  | (s, .error error) => (s, .error error)

structure SSEEvent where
  data  : ByteString
  event : ByteString
  id    : ByteString
  retry : Int
  deriving DecidableEq, Repr

class StreamWriter (ω : Type) where
  isConnected : ω → Bool
  write       : ω → ByteString → Attempt ω
  writeString : ω → ByteString → Attempt ω
  flush       : ω → Attempt ω
  close       : ω → Attempt ω

structure StreamContext (ω : Type) where
  writer   : ω
  isClosed : Bool

/-! ## The context -/

namespace StreamContext

variable {ω : Type} [StreamWriter ω]

def new (writer : ω) : StreamContext ω := { writer := writer, isClosed := false }

/-- The checks before a write, which is done on the writer alone. -/
def whenOpen (ctx : StreamContext ω) (body : ω → Attempt ω) : Attempt (StreamContext ω) :=
  if ctx.isClosed then (ctx, .error (ascii "Stream is closed"))
  else if !StreamWriter.isConnected ctx.writer then
    ({ ctx with isClosed := true }, .error (ascii "Connection lost"))
  else
    let written := body ctx.writer
    ({ ctx with writer := written.1 }, written.2)

def write (ctx : StreamContext ω) (data : ByteString) : Attempt (StreamContext ω) :=
  ctx.whenOpen (fun writer => StreamWriter.write writer data)

def writeString (ctx : StreamContext ω) (data : ByteString) : Attempt (StreamContext ω) :=
  ctx.whenOpen (fun writer => StreamWriter.writeString writer data)

def writeln (ctx : StreamContext ω) (data : ByteString) : Attempt (StreamContext ω) :=
  (ctx.writeString data).andThen (fun ctx => ctx.writeString (ascii "\n"))

/-- `w.write_string(s)!` for one string after the other. -/
def writeStrings : List ByteString → ω → Attempt ω
  | [], writer => (writer, .ok ())
  | s :: strings, writer => (StreamWriter.writeString writer s).andThen (writeStrings strings)

end StreamContext

/-- The strings that `write_sse` writes. -/
def sseStrings (event : SSEEvent) : List ByteString :=
  (if event.event.length > 0 then [ascii "event: " ++ event.event ++ ascii "\n"] else [])
    ++ (splitStr event.data (ascii "\n")).map (fun line => ascii "data: " ++ line ++ ascii "\n")
    ++ (if event.id.length > 0 then [ascii "id: " ++ event.id ++ ascii "\n"] else [])
    ++ (if event.retry > 0 then [ascii "retry: " ++ intStr event.retry ++ ascii "\n"] else [])
    ++ [ascii "\n"]

namespace StreamContext

variable {ω : Type} [StreamWriter ω]

def writeSse (ctx : StreamContext ω) (event : SSEEvent) : Attempt (StreamContext ω) :=
  ctx.whenOpen (fun writer =>
    (writeStrings (sseStrings event) writer).andThen StreamWriter.flush)

def close (ctx : StreamContext ω) : StreamContext ω :=
  if ctx.isClosed then ctx
  else { writer := (StreamWriter.close ctx.writer).1, isClosed := true }

end StreamContext

/-! ## The writer of picoev -/

/-- The writer, and the socket behind it: what `C.send` answers at each of its calls, the answers
    it gave, and the bytes it took. -/
structure PicoevStreamWriter where
  connected : Bool
  sends     : Nat → Int
  results   : List Int
  wire      : ByteString

namespace PicoevStreamWriter

/-- `C.send(fd, ptr, remaining, 0)`, which takes no more than it is given. -/
def send (w : PicoevStreamWriter) (rest : ByteString) : PicoevStreamWriter × Int :=
  let written := min (w.sends w.results.length) rest.length
  ({ w with results := w.results ++ [written], wire := w.wire ++ rest.take written.toNat }, written)

/-- The loop of `write_to_fd` over what remains; each round takes a byte or ends it. -/
def writeFrom : Nat → PicoevStreamWriter → ByteString → Attempt PicoevStreamWriter
  | 0, w, _ => (w, .ok ())
  | fuel + 1, w, rest =>
      if rest = [] then (w, .ok ())
      else
        let (w, written) := w.send rest
        if written < 0 then ({ w with connected := false }, .error (ascii "Failed to write to socket"))
        else if written = 0 then
          ({ w with connected := false }, .error (ascii "Connection closed by peer"))
        else writeFrom fuel w (rest.drop written.toNat)

def writeToFd (w : PicoevStreamWriter) (data : ByteString) : Attempt PicoevStreamWriter :=
  if data = [] then (w, .ok ()) else writeFrom data.length w data

/-- `${size:x}\r\n` -/
def formatChunkSize (size : Nat) : ByteString := ChunkedCoding.hexText size ++ ascii "\r\n"

def write (w : PicoevStreamWriter) (data : ByteString) : Attempt PicoevStreamWriter :=
  if !w.connected then (w, .error (ascii "Connection closed"))
  else if data = [] then (w, .ok ())
  else
    ((w.writeToFd (formatChunkSize data.length)).andThen (fun w => w.writeToFd data)).andThen
      (fun w => w.writeToFd (ascii "\r\n"))

def writeString (w : PicoevStreamWriter) (data : ByteString) : Attempt PicoevStreamWriter :=
  w.write data

def flush (w : PicoevStreamWriter) : Attempt PicoevStreamWriter := (w, .ok ())

def close (w : PicoevStreamWriter) : Attempt PicoevStreamWriter :=
  if w.connected then
    ({ (w.writeToFd (ascii "0\r\n\r\n")).1 with connected := false }, .ok ())
  else (w, .ok ())

/-- The writer of a new response, on a socket that answers as said. -/
def new (sends : Nat → Int) : PicoevStreamWriter where
  connected := true
  sends := sends
  results := []
  wire := []

instance : StreamWriter PicoevStreamWriter where
  isConnected w := w.connected
  write := write
  writeString := writeString
  flush := flush
  close := close

end PicoevStreamWriter

/-! ## Calls of a callback -/

inductive StreamWrite
  | write (data : ByteString)
  | writeString (data : ByteString)
  | writeln (data : ByteString)
  | writeSse (event : SSEEvent)
  deriving DecidableEq, Repr

def StreamWrite.run {ω : Type} [StreamWriter ω] (ctx : StreamContext ω) :
    StreamWrite → Attempt (StreamContext ω)
  | write data => ctx.write data
  | writeString data => ctx.writeString data
  | writeln data => ctx.writeln data
  | writeSse event => ctx.writeSse event

/-- The strings that the call hands to the writer. -/
def StreamWrite.strings : StreamWrite → List ByteString
  | write data => [data]
  | writeString data => [data]
  | writeln data => [data, ascii "\n"]
  | writeSse event => sseStrings event

/-- The data that the call writes. -/
def StreamWrite.data (call : StreamWrite) : ByteString := call.strings.flatten

/-- Writes, whether they fail or not, and then so many closes. -/
def runStream {ω : Type} [StreamWriter ω] (ctx : StreamContext ω) (writes : List StreamWrite)
    (closes : Nat) : StreamContext ω :=
  Nat.repeat StreamContext.close closes (writes.foldl (fun ctx call => (call.run ctx).1) ctx)

end VHono
