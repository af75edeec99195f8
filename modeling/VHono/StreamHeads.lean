import VHono.ChunkedStream
import VHono.Responses

/-! # The head of a streamed response

    The head is handed to the writer as a string, and a writer knows strings
    of a body only: the status line and the fields go out as the first chunk.
    What a client reads begins with the size of that chunk and not with the
    version. -/

namespace VHono

open ByteString ChunkedCoding HttpGrammar

/-! ## The writer of uSockets -/

/-- The writer, and the socket behind it: how many bytes it takes at each of its calls of as many
    as it is given, the calls it had, and the bytes it took. -/
structure UsocketsStreamWriter where
  connected : Bool
  takes     : Nat → Nat → Nat
  calls     : Nat
  wire      : ByteString

namespace UsocketsStreamWriter

/-- The writer of a new response, on a socket that answers as said. -/
def new (takes : Nat → Nat → Nat) : UsocketsStreamWriter where
  connected := true
  takes := takes
  calls := 0
  wire := []

/-- `w.socket.write_bytes(data)`, whose answer is not looked at. -/
def writeBytes (w : UsocketsStreamWriter) (data : ByteString) : UsocketsStreamWriter :=
  { w with calls := w.calls + 1, wire := w.wire ++ data.take (w.takes w.calls data.length) }

def write (w : UsocketsStreamWriter) (data : ByteString) : Attempt UsocketsStreamWriter :=
  if !w.connected then (w, .error (ascii "Connection closed"))
  else if data = [] then (w, .ok ())
  else
    let chunkHeader := PicoevStreamWriter.formatChunkSize data.length
    (((w.writeBytes chunkHeader).writeBytes data).writeBytes (ascii "\r\n"), .ok ())

def writeString (w : UsocketsStreamWriter) (data : ByteString) : Attempt UsocketsStreamWriter :=
  w.write data

def flush (w : UsocketsStreamWriter) : Attempt UsocketsStreamWriter := (w, .ok ())

def close (w : UsocketsStreamWriter) : Attempt UsocketsStreamWriter :=
  if w.connected then ({ w.writeBytes (ascii "0\r\n\r\n") with connected := false }, .ok ())
  else (w, .ok ())

instance : StreamWriter UsocketsStreamWriter where
  isConnected w := w.connected
  write := write
  writeString := writeString
  flush := flush
  close := close

end UsocketsStreamWriter

/-! ## The head -/

def streamLine (statusCode : Int) : ByteString :=
  ascii "HTTP/1.1 " ++ intStr statusCode ++ ascii " " ++ getStatusText statusCode ++ ascii "\r\n"

/-- The text that `write_stream_headers` builds. -/
def streamHead (statusCode : Int) (headers : InsertionMap ByteString ByteString) : ByteString :=
  streamLine statusCode
    ++ headers.entries.flatMap (fun entry => entry.1 ++ ascii ": " ++ entry.2 ++ ascii "\r\n")
    ++ (if headers.contains (ascii "Transfer-Encoding") then []
        else ascii "Transfer-Encoding: chunked\r\n")
    ++ (if headers.contains (ascii "Connection") then [] else ascii "Connection: keep-alive\r\n")
    ++ ascii "\r\n"

section
variable {ω : Type} [StreamWriter ω]

def writeStreamHeaders (writer : ω) (statusCode : Int)
    (headers : InsertionMap ByteString ByteString) : Attempt ω :=
  StreamWriter.writeString writer (streamHead statusCode headers)

/-- A call of a method that writes. -/
inductive WriterCall
  | write (data : ByteString)
  | writeString (data : ByteString)
  deriving DecidableEq, Repr

def WriterCall.data : WriterCall → ByteString
  | write data => data
  | writeString data => data

def WriterCall.run (writer : ω) : WriterCall → Attempt ω
  | write data => StreamWriter.write writer data
  | writeString data => StreamWriter.writeString writer data

/-- The headers, the writes, whether they fail or not, and a close. -/
def streamResponse (writer : ω) (statusCode : Int) (headers : InsertionMap ByteString ByteString)
    (calls : List WriterCall) : ω :=
  let writer := (writeStreamHeaders writer statusCode headers).1
  (StreamWriter.close (calls.foldl (fun writer call => (call.run writer).1) writer)).1

end

/-! ## What a client should read -/

/-- A field that the map has under no name, whatever the case. -/
def defaultField (headers : InsertionMap ByteString ByteString) (name value : ByteString) :
    List (ByteString × ByteString) :=
  if headers.entries.any (fun entry => eqIgnoreCase entry.1 name) then [] else [(name, value)]

/-- The fields of the response, with the two that streams have by default. -/
def streamFields (headers : InsertionMap ByteString ByteString) : List (ByteString × ByteString) :=
  headers.entries
    ++ defaultField headers (ascii "Transfer-Encoding") (ascii "chunked")
    ++ defaultField headers (ascii "Connection") (ascii "keep-alive")

/-- The bytes are a response with the status, the fields, in any order, and the data as a body in
    chunks. -/
def ReadsAsStream (wire : ByteString) (statusCode : Int)
    (headers : InsertionMap ByteString ByteString) (data : ByteString) : Prop :=
  ∃ (reason : ByteString) (fields : List Field) (body : ByteString),
    wire = ascii "HTTP/1.1 " ++ (intStr statusCode ++ 32 :: (reason ++ (crlf ++
      (headerText fields ++ (crlf ++ body)))))
    ∧ (fields.map Field.pair).Perm (streamFields headers)
    ∧ decode body = some (data, [])

/-! ## What is on the wire -/

theorem streamHead_ne_nil (statusCode : Int) (headers : InsertionMap ByteString ByteString) :
    streamHead statusCode headers ≠ [] :=
  List.append_ne_nil_of_right_ne_nil _ (by decide)

theorem not_readsAsStream_of_hex {wire : ByteString} {b : UInt8} (hb : wire.head? = some b)
    (hhex : isHexByte b = true) (statusCode : Int) (headers : InsertionMap ByteString ByteString)
    (data : ByteString) : ¬ ReadsAsStream wire statusCode headers data := by
  rintro ⟨reason, fields, body, rfl, -, -⟩
  have hversion : b = byte 'H' := (Option.some.inj hb).symm
  rw [hversion] at hhex
  exact absurd hhex (by decide)

/-- A chunk begins with a digit of its size. -/
theorem head_hexText (n : Nat) (rest : ByteString) :
    ∃ b, (hexText n ++ rest).head? = some b ∧ isHexByte b = true := by
  obtain ⟨b, digits, hdigits⟩ := List.exists_cons_of_ne_nil (hexText_ne_nil n)
  refine ⟨b, by rw [hdigits]; rfl, (hexText_spec n).1 b ?_⟩
  rw [hdigits]
  exact List.mem_cons_self

theorem head_body (pieces : List ByteString) :
    ∃ b, (chunks pieces ++ finalChunk).head? = some b ∧ isHexByte b = true := by
  cases pieces with
  | nil => exact ⟨byte '0', rfl, by decide⟩
  | cons piece pieces =>
      rw [chunks, List.flatMap_cons, chunk, List.append_assoc, List.append_assoc, List.append_assoc,
        List.append_assoc]
      exact head_hexText _ _

/-- A part of a body is not the beginning of a response. -/
theorem not_readsAsStream_of_body {wire rest : ByteString} {pieces : List ByteString}
    (h : wire ++ rest = chunks pieces ++ finalChunk) (statusCode : Int)
    (headers : InsertionMap ByteString ByteString) (data : ByteString) :
    ¬ ReadsAsStream wire statusCode headers data := by
  obtain ⟨b, hb, hhex⟩ := head_body pieces
  rw [← h] at hb
  cases wire with
  | nil =>
      rintro ⟨reason, fields, body, heq, -, -⟩
      exact absurd heq.symm (List.append_ne_nil_of_left_ne_nil (by decide) _)
  | cons first wire =>
      exact not_readsAsStream_of_hex (by rw [← hb]; rfl) hhex statusCode headers data

section Picoev

open PicoevStreamWriter

variable {w : PicoevStreamWriter} {strings : List ByteString}

/-- All that was written is on the socket in chunks, or a send failed. -/
def Writing (strings : List ByteString) (w : PicoevStreamWriter) : Prop :=
  Live w (nonempty strings) ∨ Broken w

theorem Writing.write (h : Writing strings w) (data : ByteString) :
    Writing (strings ++ [data]) (w.write data).1 := by
  rcases h with hlive | hbroken
  · exact (hlive.write data).imp And.right And.right
  · refine Or.inr ?_
    rw [PicoevStreamWriter.write, hbroken.connected, if_pos (by decide)]
    exact hbroken

theorem Writing.run (h : Writing strings w) (call : WriterCall) :
    Writing (strings ++ [call.data]) (call.run w).1 := by
  cases call with
  | write data => exact h.write data
  | writeString data => exact h.write data

/-- By induction on the calls. -/
theorem Writing.calls : ∀ (calls : List WriterCall) {strings : List ByteString}
    {w : PicoevStreamWriter}, Writing strings w →
      Writing (strings ++ calls.map WriterCall.data)
        (calls.foldl (fun writer call => (call.run writer).1) w) := by
  intro calls
  induction calls with
  | nil =>
      intro strings w h
      rw [List.map_nil, List.append_nil]
      exact h
  | cons call calls ih =>
      intro strings w h
      rw [List.map_cons, List.append_cons]
      exact ih (h.run call)

theorem Writing.close (h : Writing strings w) :
    PicoevStreamWriter.Ended w.close.1 (nonempty strings) ∨ Broken w.close.1 := by
  rcases h with hlive | hbroken
  · exact hlive.close
  · refine Or.inr ?_
    rw [hbroken.close]
    exact hbroken

/-- The head is the first string of the body. -/
theorem picoev_streamResponse (sends : Nat → Int) (statusCode : Int)
    (headers : InsertionMap ByteString ByteString) (calls : List WriterCall) :
    let w := streamResponse (PicoevStreamWriter.new sends) statusCode headers calls
    PicoevStreamWriter.Ended w
        (nonempty (streamHead statusCode headers :: calls.map WriterCall.data))
      ∨ Broken w := by
  have hnew : Writing [] (PicoevStreamWriter.new sends) := Or.inl (live_new sends)
  exact (Writing.calls calls (hnew.write (streamHead statusCode headers))).close

/-- Sent in full, the head and the data are one body. -/
theorem decode_streamResponse (sends : Nat → Int) (statusCode : Int)
    (headers : InsertionMap ByteString ByteString) (calls : List WriterCall)
    (hsent : (streamResponse (PicoevStreamWriter.new sends) statusCode headers calls).AllSent) :
    decode (streamResponse (PicoevStreamWriter.new sends) statusCode headers calls).wire
      = some (streamHead statusCode headers ++ (calls.map WriterCall.data).flatten, []) := by
  rcases picoev_streamResponse sends statusCode headers calls with hended | hbroken
  · have hdecode := decode_chunks (ne_nil_of_mem_nonempty : ∀ piece ∈
      nonempty (streamHead statusCode headers :: calls.map WriterCall.data), piece ≠ []) []
    rw [List.append_nil, flatten_nonempty, List.flatten_cons] at hdecode
    rw [hended.wire]
    exact hdecode
  · exact absurd hsent hbroken.silent.1

theorem not_readsAsStream_picoev (sends : Nat → Int) (statusCode : Int)
    (headers : InsertionMap ByteString ByteString) (calls : List WriterCall) (data : ByteString) :
    ¬ ReadsAsStream (streamResponse (PicoevStreamWriter.new sends) statusCode headers calls).wire
      statusCode headers data := by
  rcases picoev_streamResponse sends statusCode headers calls with hended | hbroken
  · exact not_readsAsStream_of_body ((List.append_nil _).trans hended.wire) _ _ _
  · obtain ⟨pieces, rest, -, -, hcut⟩ := hbroken.cut
    exact not_readsAsStream_of_body hcut _ _ _

end Picoev

section Usockets

open UsocketsStreamWriter

variable {w : UsocketsStreamWriter} {b : UInt8}

theorem writeBytes_head (h : w.wire.head? = some b) (data : ByteString) :
    (w.writeBytes data).wire.head? = some b := by
  rw [writeBytes, List.head?_append, h]
  rfl

/-- The first byte stays. -/
theorem write_head (h : w.wire.head? = some b) (data : ByteString) :
    (w.write data).1.wire.head? = some b := by
  rw [UsocketsStreamWriter.write]
  split
  · exact h
  · split
    · exact h
    · exact writeBytes_head (writeBytes_head (writeBytes_head h _) _) _

theorem calls_head (calls : List WriterCall) : ∀ {w : UsocketsStreamWriter},
    w.wire.head? = some b →
      (calls.foldl (fun writer call => (call.run writer).1) w).wire.head? = some b := by
  induction calls with
  | nil => exact fun h => h
  | cons call calls ih =>
      intro w h
      refine ih ?_
      cases call with
      | write data => exact write_head h data
      | writeString data => exact write_head h data

theorem close_head (h : w.wire.head? = some b) : w.close.1.wire.head? = some b := by
  rw [UsocketsStreamWriter.close]
  split
  · exact writeBytes_head h _
  · exact h

/-- Where the socket takes a byte of the first text, it is a digit. -/
theorem not_readsAsStream_usockets {takes : Nat → Nat → Nat}
    (htakes : ∀ length, 0 < length → 0 < takes 0 length) (statusCode : Int)
    (headers : InsertionMap ByteString ByteString) (calls : List WriterCall) (data : ByteString) :
    ¬ ReadsAsStream (streamResponse (UsocketsStreamWriter.new takes) statusCode headers calls).wire
      statusCode headers data := by
  obtain ⟨b, hb, hhex⟩ := head_hexText (streamHead statusCode headers).length (ascii "\r\n")
  have hsize :
      0 < (PicoevStreamWriter.formatChunkSize (streamHead statusCode headers).length).length :=
    List.length_pos_iff.mpr (List.append_ne_nil_of_left_ne_nil (hexText_ne_nil _) _)
  have hfirst : ((UsocketsStreamWriter.new takes).writeBytes
      (PicoevStreamWriter.formatChunkSize (streamHead statusCode headers).length)).wire.head?
        = some b := by
    rw [writeBytes, UsocketsStreamWriter.new, List.nil_append, List.head?_take,
      if_neg (htakes _ hsize).ne']
    exact hb
  have hopen : ¬ (!(UsocketsStreamWriter.new takes).connected) = true := Bool.false_ne_true
  have hhead : (writeStreamHeaders (UsocketsStreamWriter.new takes) statusCode
      headers).1.wire.head? = some b := by
    show ((UsocketsStreamWriter.new takes).write _).1.wire.head? = some b
    rw [UsocketsStreamWriter.write, if_neg hopen, if_neg (streamHead_ne_nil _ _)]
    exact writeBytes_head (writeBytes_head hfirst _) _
  exact not_readsAsStream_of_hex (close_head (calls_head calls hhead)) hhex _ _ _

end Usockets

/-- **NO RESPONSE IS READ**, whatever the status, the headers, the writes and the socket. -/
theorem stream_never_read (statusCode : Int) (headers : InsertionMap ByteString ByteString)
    (calls : List WriterCall) :
    let data := (calls.map WriterCall.data).flatten
    (∀ sends, ¬ ReadsAsStream
      (streamResponse (PicoevStreamWriter.new sends) statusCode headers calls).wire statusCode
      headers data) ∧
    ∀ takes : Nat → Nat → Nat, (∀ length, 0 < length → 0 < takes 0 length) →
      ¬ ReadsAsStream
        (streamResponse (UsocketsStreamWriter.new takes) statusCode headers calls).wire statusCode
        headers data :=
  ⟨fun sends => not_readsAsStream_picoev sends _ _ _ _,
    fun _ htakes => not_readsAsStream_usockets htakes _ _ _ _⟩

/-- A stream of one text on a socket that takes whatever it is given. -/
theorem stream_never_read_hello :
    ¬ ReadsAsStream
      (streamResponse (UsocketsStreamWriter.new (fun _ length => length)) 200 .empty
        [.writeString (ascii "Hello")]).wire 200 .empty (ascii "Hello") :=
  (stream_never_read 200 .empty [.writeString (ascii "Hello")]).2 (fun _ length => length)
    (fun _ hlength => hlength)

/-- The first byte of this response is a digit. -/
theorem stream_head_in_body :
    ¬ ∀ (sends : Nat → Int) (statusCode : Int) (headers : InsertionMap ByteString ByteString)
      (calls : List WriterCall), ReadsAsStream
        (streamResponse (PicoevStreamWriter.new sends) statusCode headers calls).wire statusCode
        headers (calls.map WriterCall.data).flatten := by
  intro h
  exact not_readsAsStream_picoev _ _ _ _ _ (h (fun _ => 1000) 200 .empty [.write (ascii "Hello")])

end VHono
