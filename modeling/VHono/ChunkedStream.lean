import VHono.StreamWriter

/-! # The bytes of a stream on the socket

    A write is three loops of sends.  However the socket cuts them, it has
    taken the text of a prefix of the writes: all of it while no send failed,
    and after a failed one a body that is cut off, to which nothing is added. -/

namespace VHono

open ByteString ChunkedCoding

/-! ## A text in many sends -/

namespace PicoevStreamWriter

/-- The text is put on the socket, or a send fails before its end; the answers are recorded. -/
def Puts (w : PicoevStreamWriter) (text : ByteString) (outcome : Attempt PicoevStreamWriter) :
    Prop :=
  ∃ answers : List Int, (∀ answer ∈ answers, 0 < answer) ∧
    (outcome = ({ w with results := w.results ++ answers, wire := w.wire ++ text }, .ok ()) ∨
      ∃ last p q error, last ≤ 0 ∧ p ++ q = text ∧ q ≠ [] ∧
        outcome = ({ w with
          connected := false
          results := w.results ++ answers ++ [last]
          wire := w.wire ++ p }, .error error))

variable {w : PicoevStreamWriter} {text text' : ByteString}

theorem Puts.nil (w : PicoevStreamWriter) : Puts w [] (w, .ok ()) :=
  ⟨[], List.forall_mem_nil _, Or.inl (by rw [List.append_nil, List.append_nil])⟩

/-- What a send that took some bytes leaves is gone on with. -/
theorem Puts.after {outcome : Attempt PicoevStreamWriter} {answers : List Int}
    (hpos : ∀ answer ∈ answers, 0 < answer)
    (h : Puts { w with results := w.results ++ answers, wire := w.wire ++ text } text' outcome) :
    Puts w (text ++ text') outcome := by
  obtain ⟨answers', hpos', houtcome⟩ := h
  refine ⟨answers ++ answers', List.forall_mem_append.mpr ⟨hpos, hpos'⟩, ?_⟩
  rcases houtcome with heq | ⟨last, p, q, error, hlast, hpq, hq, heq⟩
  · refine Or.inl (heq.trans ?_)
    rw [List.append_assoc, List.append_assoc]
  · refine Or.inr ⟨last, text ++ p, q, error, hlast, ?_, hq, heq.trans ?_⟩
    · rw [List.append_assoc, hpq]
    · simp only [List.append_assoc]

theorem Puts.andThen {outcome : Attempt PicoevStreamWriter}
    {next : PicoevStreamWriter → Attempt PicoevStreamWriter} (h : Puts w text outcome)
    (hnext : ∀ w' : PicoevStreamWriter, Puts w' text' (next w')) :
    Puts w (text ++ text') (outcome.andThen next) := by
  obtain ⟨answers, hpos, rfl | ⟨last, p, q, error, hlast, hpq, hq, rfl⟩⟩ := h
  · exact (hnext _).after hpos
  · refine ⟨answers, hpos, Or.inr ⟨last, p, q ++ text', error, hlast, ?_, ?_, rfl⟩⟩
    · rw [← List.append_assoc, hpq]
    · exact List.append_ne_nil_of_left_ne_nil hq _

/-- A send that takes nothing. -/
theorem Puts.failed (w : PicoevStreamWriter) {written : Int} (h : written ≤ 0) (hne : text ≠ [])
    (error : ByteString) :
    Puts w text ({ w with
      connected := false
      results := w.results ++ [written]
      wire := w.wire ++ text.take written.toNat }, .error error) := by
  refine ⟨[], List.forall_mem_nil _, Or.inr ⟨written, [], text, error, h, rfl, hne, ?_⟩⟩
  rw [Int.toNat_of_nonpos h, List.take_zero, List.append_nil, List.append_nil]

theorem writeFrom_puts : ∀ (fuel : Nat) (w : PicoevStreamWriter) (rest : ByteString),
    rest.length ≤ fuel → Puts w rest (writeFrom fuel w rest)
  | 0, w, rest, h => by
      obtain rfl := List.length_eq_zero_iff.mp (Nat.le_zero.mp h)
      exact .nil w
  | fuel + 1, w, rest, h => by
      rw [writeFrom]
      split
      · rename_i hnil
        rw [hnil]
        exact .nil w
      · rename_i hne
        dsimp only [send]
        generalize min (w.sends w.results.length) (rest.length : Int) = written
        split
        · rename_i hneg
          exact .failed w (Int.le_of_lt hneg) hne _
        · split
          · rename_i hzero
            exact .failed w (Int.le_of_eq hzero) hne _
          · -- a byte was taken, so less remains
            have hpos : 0 < written := by omega
            have hshort : (rest.drop written.toNat).length ≤ fuel := by
              rw [List.length_drop]
              omega
            have hrest := writeFrom_puts fuel
              { w with results := w.results ++ [written], wire := w.wire ++ rest.take written.toNat }
              (rest.drop written.toNat) hshort
            have hall := hrest.after (List.forall_mem_singleton.mpr hpos)
            rw [List.take_append_drop] at hall
            exact hall

theorem writeToFd_puts (w : PicoevStreamWriter) (data : ByteString) :
    Puts w data (w.writeToFd data) := by
  rw [writeToFd]
  split
  · rename_i hnil
    rw [hnil]
    exact .nil w
  · exact writeFrom_puts _ w data le_rfl

/-- A write of some data puts a chunk. -/
theorem write_puts {w : PicoevStreamWriter} (hw : w.connected = true) {data : ByteString}
    (h : data ≠ []) : Puts w (chunk data) (w.write data) := by
  have hchunk : chunk data = (formatChunkSize data.length ++ data) ++ ascii "\r\n" := rfl
  rw [write, hw, if_neg (by decide), if_neg h, hchunk]
  exact ((writeToFd_puts w _).andThen (fun w' => writeToFd_puts w' _)).andThen
    (fun w' => writeToFd_puts w' _)

/-! ## The state of a writer -/

/-- All went well so far, and the chunks are on the socket. -/
structure Live (w : PicoevStreamWriter) (pieces : List ByteString) : Prop where
  connected : w.connected = true
  sent      : ∀ result ∈ w.results, 0 < result
  wire      : w.wire = chunks pieces

/-- The last send failed, and a part of a body is on the socket. -/
structure Broken (w : PicoevStreamWriter) : Prop where
  connected : w.connected = false
  failed    : ∃ answers last, (∀ answer ∈ answers, 0 < answer) ∧ last ≤ 0 ∧
    w.results = answers ++ [last]
  cut       : ∃ pieces rest, (∀ piece ∈ pieces, piece ≠ []) ∧ rest ≠ [] ∧
    w.wire ++ rest = chunks pieces ++ finalChunk

/-- The body is ended. -/
structure Ended (w : PicoevStreamWriter) (pieces : List ByteString) : Prop where
  connected : w.connected = false
  sent      : ∀ result ∈ w.results, 0 < result
  wire      : w.wire = chunks pieces ++ finalChunk

theorem live_new (sends : Nat → Int) : Live (new sends) [] :=
  ⟨rfl, List.forall_mem_nil _, rfl⟩

/-- The pieces that make a chunk. -/
def nonempty (strings : List ByteString) : List ByteString :=
  strings.filter (fun s => decide (s ≠ []))

theorem ne_nil_of_mem_nonempty {strings : List ByteString} :
    ∀ piece ∈ nonempty strings, piece ≠ [] :=
  fun _ hmem => of_decide_eq_true (List.mem_filter.mp hmem).2

theorem flatten_nonempty (strings : List ByteString) :
    (nonempty strings).flatten = strings.flatten := by
  induction strings with
  | nil => rfl
  | cons s strings ih =>
      by_cases hs : s = []
      · rw [nonempty, List.filter_cons_of_neg (by simpa using hs), ← nonempty, ih, hs]
        rfl
      · rw [nonempty, List.filter_cons_of_pos (by simpa using hs), ← nonempty, List.flatten_cons,
          List.flatten_cons, ih]

/-- What is put after the chunks of a live writer, where it would be a part of a body. -/
theorem Live.puts {pieces : List ByteString} (h : Live w pieces)
    {outcome : Attempt PicoevStreamWriter} (hputs : Puts w text outcome)
    (hbody : ∃ more after, (∀ piece ∈ more, piece ≠ []) ∧
      chunks pieces ++ text ++ after = chunks more ++ finalChunk) :
    (outcome.2 = .ok () ∧ outcome.1.connected = true ∧
      (∀ result ∈ outcome.1.results, 0 < result) ∧ outcome.1.wire = chunks pieces ++ text) ∨
    ((∃ error, outcome.2 = .error error) ∧ Broken outcome.1) := by
  obtain ⟨more, after, hmore, hbody⟩ := hbody
  obtain ⟨answers, hpos, rfl | ⟨last, p, q, error, hlast, hpq, hq, rfl⟩⟩ := hputs
  · exact Or.inl ⟨rfl, h.connected, List.forall_mem_append.mpr ⟨h.sent, hpos⟩, by rw [h.wire]⟩
  · refine Or.inr ⟨⟨error, rfl⟩, rfl, ⟨w.results ++ answers, last, ?_, hlast, rfl⟩, ?_⟩
    · exact List.forall_mem_append.mpr ⟨h.sent, hpos⟩
    · refine ⟨more, q ++ after, hmore, List.append_ne_nil_of_left_ne_nil hq _, ?_⟩
      rw [← hbody, ← hpq, h.wire]
      simp only [List.append_assoc]

theorem Live.write {strings : List ByteString} (h : Live w (nonempty strings)) (data : ByteString) :
    ((w.write data).2 = .ok () ∧ Live (w.write data).1 (nonempty (strings ++ [data]))) ∨
    ((∃ error, (w.write data).2 = .error error) ∧ Broken (w.write data).1) := by
  by_cases hdata : data = []
  · have hsame : w.write data = (w, .ok ()) := by
      rw [PicoevStreamWriter.write, h.connected, if_neg (by decide), if_pos hdata]
    have hpieces : nonempty (strings ++ [data]) = nonempty strings := by
      rw [nonempty, List.filter_append, hdata]
      exact List.append_nil _
    rw [hsame, hpieces]
    exact Or.inl ⟨rfl, h⟩
  · have hpieces : nonempty (strings ++ [data]) = nonempty strings ++ [data] := by
      rw [nonempty, List.filter_append, ← nonempty,
        List.filter_cons_of_pos (by simpa using hdata), List.filter_nil]
    have hchunks : chunks (nonempty strings ++ [data]) = chunks (nonempty strings) ++ chunk data := by
      rw [chunks, List.flatMap_append, ← chunks]
      simp
    rcases h.puts (write_puts h.connected hdata) ⟨nonempty (strings ++ [data]), finalChunk,
      ne_nil_of_mem_nonempty, by rw [hpieces, hchunks]⟩ with ⟨hok, hconnected, hsent, hwire⟩ | hbroken
    · exact Or.inl ⟨hok, hconnected, hsent, by rw [hwire, hpieces, hchunks]⟩
    · exact Or.inr hbroken

theorem Live.close {strings : List ByteString} (h : Live w (nonempty strings)) :
    Ended w.close.1 (nonempty strings) ∨ Broken w.close.1 := by
  rw [PicoevStreamWriter.close, if_pos h.connected]
  rcases h.puts (writeToFd_puts w (ascii "0\r\n\r\n")) ⟨nonempty strings, [],
    ne_nil_of_mem_nonempty, List.append_nil _⟩ with ⟨-, -, hsent, hwire⟩ | ⟨-, hbroken⟩
  · exact Or.inl ⟨rfl, hsent, hwire⟩
  · exact Or.inr ⟨rfl, hbroken.failed, hbroken.cut⟩

theorem Broken.close (h : Broken w) : w.close.1 = w := by
  rw [PicoevStreamWriter.close, if_neg (by rw [h.connected]; decide)]

end PicoevStreamWriter

/-! ## The calls of a callback -/

section Calls

open PicoevStreamWriter StreamContext

variable {ctx : StreamContext PicoevStreamWriter} {strings more : List ByteString}

/-- What an attempt to write leaves: it went well and the stream is open, or a send failed. -/
def Wrote (strings : List ByteString) (outcome : Attempt (StreamContext PicoevStreamWriter)) :
    Prop :=
  (outcome.2 = .ok () ∧ outcome.1.isClosed = false ∧ Live outcome.1.writer (nonempty strings)) ∨
  ((∃ error, outcome.2 = .error error) ∧ Broken outcome.1.writer)

/-- The stream is open and all went well, or a send failed. -/
def Going (strings : List ByteString) (ctx : StreamContext PicoevStreamWriter) : Prop :=
  (ctx.isClosed = false ∧ Live ctx.writer (nonempty strings)) ∨ Broken ctx.writer

theorem Wrote.going {outcome : Attempt (StreamContext PicoevStreamWriter)}
    (h : Wrote strings outcome) : Going strings outcome.1 := by
  rcases h with ⟨-, hopen, hlive⟩ | ⟨-, hbroken⟩
  · exact Or.inl ⟨hopen, hlive⟩
  · exact Or.inr hbroken

/-- After a failed send no body is run. -/
theorem whenOpen_broken (h : Broken ctx.writer)
    (body : PicoevStreamWriter → Attempt PicoevStreamWriter) :
    (∃ error, (ctx.whenOpen body).2 = .error error) ∧ Broken (ctx.whenOpen body).1.writer := by
  rw [whenOpen]
  split
  · exact ⟨⟨_, rfl⟩, h⟩
  · have hlost : StreamWriter.isConnected ctx.writer = false := h.connected
    rw [hlost]
    exact ⟨⟨_, rfl⟩, h⟩

theorem whenOpen_wrote (h : Going strings ctx)
    {body : PicoevStreamWriter → Attempt PicoevStreamWriter}
    (hbody : ∀ w, Live w (nonempty strings) →
      ((body w).2 = .ok () ∧ Live (body w).1 (nonempty (strings ++ more))) ∨
      ((∃ error, (body w).2 = .error error) ∧ Broken (body w).1)) :
    Wrote (strings ++ more) (ctx.whenOpen body) := by
  rcases h with ⟨hopen, hlive⟩ | hbroken
  · have hconnected : StreamWriter.isConnected ctx.writer = true := hlive.connected
    rw [whenOpen, hopen, if_neg Bool.false_ne_true, hconnected]
    rcases hbody ctx.writer hlive with ⟨hok, hlive'⟩ | hfailed
    · exact Or.inl ⟨hok, rfl, hlive'⟩
    · exact Or.inr hfailed
  · exact Or.inr (whenOpen_broken hbroken body)

theorem writeStrings_live : ∀ (more : List ByteString) {strings : List ByteString}
    {w : PicoevStreamWriter}, Live w (nonempty strings) →
      ((writeStrings more w).2 = .ok () ∧
        Live (writeStrings more w).1 (nonempty (strings ++ more))) ∨
      ((∃ error, (writeStrings more w).2 = .error error) ∧ Broken (writeStrings more w).1)
  | [], strings, w, h => by
      rw [List.append_nil]
      exact Or.inl ⟨rfl, h⟩
  | s :: more, strings, w, h => by
      rw [writeStrings, Attempt.andThen.eq_def]
      have hwrite : ((StreamWriter.writeString w s).2 = .ok () ∧
            Live (StreamWriter.writeString w s).1 (nonempty (strings ++ [s]))) ∨
          ((∃ error, (StreamWriter.writeString w s).2 = .error error) ∧
            Broken (StreamWriter.writeString w s).1) := h.write s
      split
      · rename_i w' heq
        rw [heq] at hwrite
        rcases hwrite with ⟨-, hlive⟩ | ⟨⟨error, herror⟩, -⟩
        · have hmore := writeStrings_live more hlive
          rw [List.append_assoc] at hmore
          exact hmore
        · cases herror
      · rename_i w' error heq
        rw [heq] at hwrite
        rcases hwrite with ⟨hok, -⟩ | ⟨-, hbroken⟩
        · cases hok
        · exact Or.inr ⟨⟨error, rfl⟩, hbroken⟩

theorem Wrote.andThen {outcome : Attempt (StreamContext PicoevStreamWriter)}
    {next : StreamContext PicoevStreamWriter → Attempt (StreamContext PicoevStreamWriter)}
    (h : Wrote strings outcome) (hnext : ∀ ctx, Going strings ctx → Wrote (strings ++ more) (next ctx)) :
    Wrote (strings ++ more) (outcome.andThen next) := by
  have hgoing := h.going
  obtain ⟨ctx, answer⟩ := outcome
  cases answer with
  | ok _ => exact hnext ctx hgoing
  | error error =>
      rcases h with ⟨hok, -⟩ | ⟨-, hbroken⟩
      · cases hok
      · exact Or.inr ⟨⟨error, rfl⟩, hbroken⟩

/-- One call. -/
theorem run_wrote (h : Going strings ctx) (call : StreamWrite) :
    Wrote (strings ++ call.strings) (call.run ctx) := by
  cases call with
  | write data => exact whenOpen_wrote h (fun w hlive => hlive.write data)
  | writeString data => exact whenOpen_wrote h (fun w hlive => hlive.write data)
  | writeln data =>
      have hline : strings ++ (StreamWrite.writeln data).strings
          = (strings ++ [data]) ++ [ascii "\n"] :=
        (List.append_assoc strings [data] [ascii "\n"]).symm
      rw [hline]
      exact (whenOpen_wrote h (fun w hlive => hlive.write data)).andThen
        (fun ctx hgoing => whenOpen_wrote hgoing (fun w hlive => hlive.write _))
  | writeSse event =>
      refine whenOpen_wrote h (fun w hlive => ?_)
      have hwrite := writeStrings_live (sseStrings event) hlive
      rw [Attempt.andThen.eq_def]
      split
      · rename_i w' heq
        rw [heq] at hwrite
        exact hwrite
      · rename_i w' error heq
        rw [heq] at hwrite
        exact hwrite

theorem writes_going : ∀ (writes : List StreamWrite) {strings : List ByteString}
    {ctx : StreamContext PicoevStreamWriter}, Going strings ctx →
      Going (strings ++ writes.flatMap StreamWrite.strings)
        (writes.foldl (fun ctx call => (call.run ctx).1) ctx)
  | [], strings, ctx, h => by
      rw [List.flatMap_nil, List.append_nil]
      exact h
  | call :: writes, strings, ctx, h => by
      rw [List.flatMap_cons, ← List.append_assoc]
      exact writes_going writes (run_wrote h call).going

/-! ## Closing -/

/-- The stream is closed: the body is ended, or a send failed. -/
def Over (strings : List ByteString) (ctx : StreamContext PicoevStreamWriter) : Prop :=
  ctx.isClosed = true ∧ (Ended ctx.writer (nonempty strings) ∨ Broken ctx.writer)

theorem close_going (h : Going strings ctx) : Over strings ctx.close := by
  rw [StreamContext.close]
  rcases h with ⟨hopen, hlive⟩ | hbroken
  · rw [if_neg (by rw [hopen]; decide)]
    exact ⟨rfl, hlive.close⟩
  · split
    · rename_i hclosed
      exact ⟨hclosed, Or.inr hbroken⟩
    · refine ⟨rfl, Or.inr ?_⟩
      rw [show (StreamWriter.close ctx.writer).1 = ctx.writer from hbroken.close]
      exact hbroken

theorem close_over (h : Over strings ctx) : Over strings ctx.close := by
  rw [StreamContext.close, if_pos h.1]
  exact h

theorem closes_over (closes : Nat) (h : Going strings ctx) :
    Over strings (Nat.repeat StreamContext.close (closes + 1) ctx) := by
  induction closes with
  | zero => exact close_going h
  | succ closes ih => exact close_over ih

end Calls

/-! ## The result -/

/-- No send failed. -/
def PicoevStreamWriter.AllSent (w : PicoevStreamWriter) : Prop := ∀ result ∈ w.results, 0 < result

/-- The data of all the calls. -/
def streamData (writes : List StreamWrite) : ByteString := writes.flatMap StreamWrite.data

theorem flatten_strings (writes : List StreamWrite) :
    (writes.flatMap StreamWrite.strings).flatten = streamData writes := by
  induction writes with
  | nil => rfl
  | cons call writes ih =>
      rw [List.flatMap_cons, List.flatten_append, ih, streamData, streamData, List.flatMap_cons]
      rfl

namespace PicoevStreamWriter

variable {w : PicoevStreamWriter}

/-- Nothing is sent after a failed send, and no body is complete. -/
theorem Broken.silent (h : Broken w) :
    (¬ w.AllSent) ∧ decode w.wire = none ∧
    ∀ before result after, w.results = before ++ result :: after → result ≤ 0 → after = [] := by
  obtain ⟨answers, last, hpos, hlast, hresults⟩ := h.failed
  obtain ⟨pieces, rest, hpieces, hrest, hcut⟩ := h.cut
  refine ⟨fun hall => ?_, ?_, ?_⟩
  · have hmem : last ∈ w.results := by rw [hresults]; exact List.mem_concat_self
    exact absurd (hall last hmem) (by omega)
  · have hbody := decode_chunks hpieces []
    rw [List.append_nil, ← hcut] at hbody
    exact decode_cut hbody hrest
  · intro before result after heq hfailed
    rw [hresults] at heq
    rcases List.eq_nil_or_concat after with hnil | ⟨front, b, hafter⟩
    · exact hnil
    · -- then the failed send is one of those that went well
      rw [hafter, List.concat_eq_append, ← List.cons_append, ← List.append_assoc] at heq
      have hfront := (List.append_inj' heq rfl).1
      have hmem : result ∈ answers := by
        rw [hfront]
        exact List.mem_append_right _ List.mem_cons_self
      exact absurd (hpos result hmem) (by omega)

theorem AllSent.no_failure (h : w.AllSent) (before : List Int) (result : Int) (after : List Int)
    (heq : w.results = before ++ result :: after) (hfailed : result ≤ 0) : after = [] := by
  have hmem : result ∈ w.results := by
    rw [heq]
    exact List.mem_append_right _ List.mem_cons_self
  exact absurd (h result hmem) (by omega)

/-- What is on the socket after the writes reads as their data, once it is ended. -/
theorem decode_written (writes : List StreamWrite) :
    decode (chunks (nonempty ([] ++ writes.flatMap StreamWrite.strings)) ++ finalChunk)
      = some (streamData writes, []) := by
  have hbody := decode_chunks (ne_nil_of_mem_nonempty :
    ∀ piece ∈ nonempty (writes.flatMap StreamWrite.strings), piece ≠ []) []
  rw [List.append_nil, flatten_nonempty, flatten_strings] at hbody
  exact hbody

end PicoevStreamWriter

section Result

open PicoevStreamWriter

variable (sends : Nat → Int) (writes : List StreamWrite)

/-- The writer after a run on a new stream. -/
def streamWriter (closes : Nat) : PicoevStreamWriter :=
  (runStream (StreamContext.new (PicoevStreamWriter.new sends)) writes closes).writer

theorem going_written : Going ([] ++ writes.flatMap StreamWrite.strings)
    (writes.foldl (fun ctx call => (call.run ctx).1)
      (StreamContext.new (PicoevStreamWriter.new sends))) :=
  writes_going writes (Or.inl ⟨rfl, PicoevStreamWriter.live_new sends⟩)

theorem open_stream : decode ((streamWriter sends writes 0).wire ++ finalChunk)
      = some (streamData writes, []) ∧ (streamWriter sends writes 0).AllSent ∨
    Broken (streamWriter sends writes 0) := by
  rcases going_written sends writes with ⟨-, hlive⟩ | hbroken
  · refine Or.inl ⟨?_, hlive.sent⟩
    rw [show (streamWriter sends writes 0).wire = _ from hlive.wire]
    exact decode_written writes
  · exact Or.inr hbroken

theorem closed_stream (closes : Nat) : decode (streamWriter sends writes (closes + 1)).wire
      = some (streamData writes, []) ∧ (streamWriter sends writes (closes + 1)).AllSent ∨
    Broken (streamWriter sends writes (closes + 1)) := by
  obtain ⟨-, hended | hbroken⟩ := closes_over closes (going_written sends writes)
  · refine Or.inl ⟨?_, hended.sent⟩
    rw [show (streamWriter sends writes (closes + 1)).wire = _ from hended.wire]
    exact decode_written writes
  · exact Or.inr hbroken

/-- **THE STREAM IS FRAMED** for any writes, any number of closes and any answers of the socket. -/
theorem stream_framed (closes : Nat) :
    let w := streamWriter sends writes closes
    (w.AllSent →
      (0 < closes → decode w.wire = some (streamData writes, [])) ∧
      (closes = 0 → decode (w.wire ++ finalChunk) = some (streamData writes, []))) ∧
    (¬ w.AllSent → decode w.wire = none) ∧
    ∀ before result after, w.results = before ++ result :: after → result ≤ 0 → after = [] := by
  intro w
  cases closes with
  | zero =>
      rcases open_stream sends writes with ⟨hdecode, hsent⟩ | hbroken
      · exact ⟨fun _ => ⟨nofun, fun _ => hdecode⟩, fun hfailed => absurd hsent hfailed,
          hsent.no_failure⟩
      · exact ⟨fun hall => absurd hall hbroken.silent.1, fun _ => hbroken.silent.2.1,
          hbroken.silent.2.2⟩
  | succ closes =>
      rcases closed_stream sends writes closes with ⟨hdecode, hsent⟩ | hbroken
      · exact ⟨fun _ => ⟨fun _ => hdecode, nofun⟩, fun hfailed => absurd hsent hfailed,
          hsent.no_failure⟩
      · exact ⟨fun hall => absurd hall hbroken.silent.1, fun _ => hbroken.silent.2.1,
          hbroken.silent.2.2⟩

end Result

end VHono
