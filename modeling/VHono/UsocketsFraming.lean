import VHono.Dispatch
import VHono.QueryStrings
import VHono.ResponseGrammar

/-! # Request framing of the uSockets backend

    uSockets calls `usockets_on_data` with whatever bytes a read returned, and
    the callback keeps nothing of a connection: it parses each read as if it
    were one request.  A connection is a run of such callbacks.  The requests
    come out as they were sent if every read is one of them; a read that stops
    inside a body or runs on into the next request gives a request with another
    body, and a read without a line end gives none. -/

namespace HttpGrammar

open ByteString

namespace Request

/-- The message up to and with its empty line. -/
def head (r : Request) : ByteString := r.line ++ (crlf ++ (r.headerBlock ++ crlf))

theorem render_eq_head (r : Request) : r.render = r.head ++ r.body := by
  simp only [render, head, List.append_assoc]

theorem render_ne_nil (r : Request) : r.render ≠ [] := by
  intro h
  exact r.method_ne (List.append_eq_nil_iff.mp (List.append_eq_nil_iff.mp h).1).1

/-- A request of HTTP/1.1 whose body is as long as its `Content-Length` says; without
    one it has none. -/
structure Delimited (r : Request) : Prop where
  http11  : r.minor = byte '1'
  length  : ((r.fields.map Field.pair).filter isContentLength).map (fun p => readDecimal p.2)
      = [some r.body.length] ∨
    ((r.fields.map Field.pair).filter isContentLength = [] ∧ r.body = [])
  uncoded : ∀ p ∈ r.fields.map Field.pair, isTransferEncoding p = false

end Request

/-- The bytes of requests sent one after the other. -/
def requestStream (rs : List Request) : ByteString := rs.flatMap Request.render

end HttpGrammar

namespace VHono

open ByteString HttpGrammar MachineRuns

/-! ## Requests as they are handed on -/

/-- What the callback takes from a read to build a context from. -/
structure Dispatched where
  method : ByteString
  path   : ByteString
  query  : InsertionMap ByteString ByteString
  body   : ByteString

def UsocketsRequest.dispatched (req : UsocketsRequest) : Dispatched where
  method := req.method
  path := req.path
  query := req.query
  body := req.body

/-- The query of a target: what stands after its first question mark. -/
def targetQuery (target : ByteString) : InsertionMap ByteString ByteString :=
  queryOf (target.dropWhile (· != byte '?')).tail

/-- A request as it was sent. -/
def sent (r : Request) : Dispatched where
  method := r.method
  path := r.target.takeWhile (· != byte '?')
  query := targetQuery r.target
  body := r.body

/-- The query is read from the target. -/
theorem usocketsTarget_targetQuery (r : Request) :
    (usocketsTarget r.render (r.method.length + 1)
      (r.method.length + 1 + r.target.length)).2 = targetQuery r.target := by
  by_cases hmark : byte '?' ∈ r.target
  · have htarget := cut_first hmark
    rw [usocketsTarget, spanEnd, target_render, targetQuery]
    generalize r.target.takeWhile (· != byte '?') = path at htarget ⊢
    generalize (r.target.dropWhile (· != byte '?')).tail = query at htarget ⊢
    have hlen := congrArg List.length htarget
    rw [List.length_append, List.length_cons] at hlen
    have hrender : r.render = (r.method ++ [32] ++ path ++ [byte '?']) ++ (query ++ 32 :: (r.version
        ++ (crlf ++ (r.headerBlock ++ (crlf ++ r.body))))) := by
      rw [render_eq_target, htarget]
      simp only [List.append_assoc, List.cons_append, List.nil_append]
    have hstart : (r.method ++ [32] ++ path ++ [byte '?']).length
        = r.method.length + 1 + path.length + 1 := by
      simp only [List.length_append, List.length_cons, List.length_nil]
    have hend : r.method.length + 1 + path.length + 1 + query.length
        = r.method.length + 1 + r.target.length := by omega
    have hlt : r.method.length + 1 + path.length < r.method.length + 1 + r.target.length := by
      omega
    have hread := parseQueryRange_eq hrender
    rw [hstart, hend] at hread
    rw [if_pos hlt]
    exact hread
  · rw [usocketsTarget_query r hmark, targetQuery,
      List.dropWhile_eq_nil_iff.mpr (bne_of_not_mem hmark)]
    rfl

/-- **ONE REQUEST.**  A read that is one whole request is that request. -/
theorem dispatched_render (r : Request) :
    (parseHttpRequestUsockets r.render).dispatched = sent r := by
  obtain ⟨hmethod, hpath, hbody, -⟩ := parseHttpRequestUsockets_render r
  have hquery : (parseHttpRequestUsockets r.render).query = targetQuery r.target := by
    rw [parseHttpRequestUsockets_eq]
    exact usocketsTarget_targetQuery r
  rw [UsocketsRequest.dispatched, hmethod, hpath, hquery, hbody]
  rfl

/-- What a read makes the callback hand on; a read without a request line is answered with
    an error. -/
def dispatchOf (raw : ByteString) : Option Dispatched :=
  if (parseHttpRequestUsockets raw).method.length = 0 then none
  else some (parseHttpRequestUsockets raw).dispatched

theorem dispatchOf_render (r : Request) : dispatchOf r.render = some (sent r) := by
  have hmethod : (parseHttpRequestUsockets r.render).method = r.method :=
    (parseHttpRequestUsockets_render r).1
  have hne : ¬ r.method.length = 0 := fun h => r.method_ne (List.length_eq_zero_iff.mp h)
  rw [dispatchOf, hmethod, if_neg hne, dispatched_render]

/-- Whatever follows the head of a request is taken for its body. -/
theorem dispatchOf_head (r : Request) (bytes : ByteString) :
    dispatchOf (r.head ++ bytes) = some { sent r with body := bytes } := by
  have hrender : r.head ++ bytes = Request.render { r with body := bytes } :=
    (Request.render_eq_head { r with body := bytes }).symm
  rw [hrender, dispatchOf_render]
  rfl

/-- A read of at most one byte has no request line. -/
theorem dispatchOf_short {raw : ByteString} (h : raw.length ≤ 1) : dispatchOf raw = none := by
  have hline : indexFrom crlf raw 0 = none := by
    rcases raw with - | ⟨b, - | ⟨c, raw⟩⟩
    · rfl
    · have hskip : startsWith [b] crlf = false := by
        show ((13 : UInt8) == b && false) = false
        rw [Bool.and_false]
      rw [indexFrom, List.drop_zero, indexOf_skip hskip]
      rfl
    · simp only [List.length_cons] at h
      omega
  rw [dispatchOf, parseHttpRequestUsockets, hline]
  rfl

/-! ## Runs of callbacks -/

namespace Hono

variable {E : RegexEngine} {M F : Type}

/-- A dispatch ends in a handler, a 404 or a refused upgrade. -/
theorem lowLevelDispatch_final (app : Hono E M F) (inc : Incoming) (now : Int) :
    (app.lowLevelDispatch inc now).2.final ≠ .badRequest := by
  have hunmatched : ∀ app' : Hono E M F, app'.unmatchedFinal ≠ .badRequest := by
    intro app'
    rw [unmatchedFinal]
    split <;> rintro ⟨⟩
  have hupgrade : ∀ f : F, upgradeFinal inc f ≠ .badRequest := by
    intro f
    rw [upgradeFinal]
    split
    · rintro ⟨⟩
    · split <;> rintro ⟨⟩
  rw [lowLevelDispatch]
  split
  · split
    · exact hupgrade _
    · rintro ⟨⟩
  · exact hunmatched _

/-- One callback as a step of the connection: what it hands on, if anything. -/
def onDataStep (app : Hono E M F) (read : ByteString × Int) :
    Hono E M F × Option Dispatched :=
  let (app', trace) := app.usocketsOnData read.1 read.2
  match trace.final with
  | .badRequest => (app', none)
  | _ => (app', some (parseHttpRequestUsockets read.1).dispatched)

/-- The requests handed on over a run of reads, each with the time it came. -/
def dispatches (app : Hono E M F) (reads : List (ByteString × Int)) : List Dispatched :=
  (outputs onDataStep app reads).filterMap id

/-- What a callback hands on depends on its read alone. -/
theorem onDataStep_output (app : Hono E M F) (read : ByteString × Int) :
    (app.onDataStep read).2 = dispatchOf read.1 := by
  rw [onDataStep, usocketsOnData, dispatchOf]
  by_cases hmethod : (parseHttpRequestUsockets read.1).method.length = 0
  · rw [if_pos hmethod, if_pos hmethod]
  · rw [if_neg hmethod, if_neg hmethod]
    have hfinal := app.lowLevelDispatch_final (usocketsIncoming read.1) read.2
    generalize app.lowLevelDispatch (usocketsIncoming read.1) read.2 = answer at hfinal ⊢
    obtain ⟨app', middlewares, final⟩ := answer
    cases final with
    | badRequest => exact absurd rfl hfinal
    | handler f => rfl
    | notFound f => rfl
    | default404 => rfl
    | rejected status => rfl

theorem dispatches_eq (app : Hono E M F) (reads : List (ByteString × Int)) :
    app.dispatches reads = (reads.map Prod.fst).filterMap dispatchOf := by
  induction reads generalizing app with
  | nil => rfl
  | cons read reads ih =>
      have hnow := app.onDataStep_output read
      rw [dispatches, outputs, List.filterMap_cons, hnow, List.map_cons, List.filterMap_cons, ← ih]
      rfl

end Hono

/-! ## Reads of a stream -/

/-- Every read that holds anything is one whole request. -/
def OnePerRead (rs : List Request) (reads : List ByteString) : Prop :=
  reads.filter (· ≠ []) = rs.map Request.render

/-- Two reads meet inside the head of a request. -/
def CutInHead (rs : List Request) (reads : List ByteString) : Prop :=
  ∃ before after earlier r later, reads = before ++ after ∧ rs = earlier ++ r :: later ∧
    (requestStream earlier).length < before.flatten.length ∧
    before.flatten.length < (requestStream earlier).length + r.head.length

theorem OnePerRead.flatten {rs : List Request} {reads : List ByteString}
    (h : OnePerRead rs reads) : reads.flatten = requestStream rs := by
  rw [requestStream, List.flatMap_def, ← h]
  exact List.flatten_filter_ne_nil.symm

theorem dispatchOf_nil : dispatchOf [] = none := dispatchOf_short (Nat.zero_le 1)

/-- **ONE REQUEST A READ.**  Then each is handed on once, in order and whole. -/
theorem delivers_of_onePerRead {rs : List Request} {reads : List ByteString}
    (h : OnePerRead rs reads) : reads.filterMap dispatchOf = rs.map sent := by
  have hskip : (reads.filter (· ≠ [])).filterMap dispatchOf = reads.filterMap dispatchOf := by
    rw [List.filterMap_filter]
    refine List.filterMap_congr (fun read _ => ?_)
    by_cases hread : read = []
    · rw [hread, dispatchOf_nil]
      rfl
    · rw [if_pos (decide_eq_true hread)]
  have hwhole : dispatchOf ∘ Request.render = some ∘ sent := funext dispatchOf_render
  rw [← hskip, h, List.filterMap_map, hwhole, List.filterMap_eq_map]

/-- Leaving out an empty read moves no cut. -/
theorem CutInHead.of_tail {rs : List Request} {reads : List ByteString}
    (h : CutInHead rs reads) : CutInHead rs ([] :: reads) := by
  obtain ⟨before, after, earlier, r, later, hreads, hrs, hlo, hhi⟩ := h
  exact ⟨[] :: before, after, earlier, r, later, congrArg ([] :: ·) hreads, hrs, hlo, hhi⟩

theorem CutInHead.of_rest {rs : List Request} {reads : List ByteString} {r : Request}
    (h : CutInHead rs reads) : CutInHead (r :: rs) (r.render :: reads) := by
  obtain ⟨before, after, earlier, r', later, hreads, hrs, hlo, hhi⟩ := h
  refine ⟨r.render :: before, after, r :: earlier, r', later, congrArg (r.render :: ·) hreads,
    congrArg (r :: ·) hrs, ?_, ?_⟩
  · rw [requestStream, List.flatMap_cons, List.flatten_cons, List.length_append,
      List.length_append]
    exact Nat.add_lt_add_left hlo _
  · rw [requestStream, List.flatMap_cons, List.flatten_cons, List.length_append,
      List.length_append, Nat.add_assoc]
    exact Nat.add_lt_add_left hhi _

/-- Without a cut in its head the first request's head comes in one read. -/
theorem head_prefix {rs : List Request} {r : Request} {read : ByteString}
    {reads : List ByteString} (hcut : ¬ CutInHead (r :: rs) (read :: reads)) (hne : read ≠ [])
    (hsplit : (read :: reads).flatten = requestStream (r :: rs)) :
    ∃ bytes, read = r.head ++ bytes := by
  have hpos := List.length_pos_of_ne_nil hne
  have hlong : r.head.length ≤ read.length := by
    by_contra hshort
    refine hcut ⟨[read], reads, [], r, rs, rfl, rfl, ?_, ?_⟩
    · rw [List.flatten_singleton]
      exact hpos
    · rw [List.flatten_singleton]
      show read.length < 0 + r.head.length
      omega
  have hhead : r.head <+: (read :: reads).flatten := by
    rw [hsplit, requestStream, List.flatMap_cons, Request.render_eq_head, List.append_assoc]
    exact List.prefix_append _ _
  obtain ⟨bytes, hbytes⟩ := List.prefix_of_prefix_length_le hhead (List.prefix_append _ _) hlong
  exact ⟨bytes, hbytes.symm⟩

/-- **THE READS.**  Where no cut falls into a head, the requests come out as they went in exactly
    if every read is one of them. -/
theorem delivers_iff {reads : List ByteString} :
    ∀ {rs : List Request}, reads.flatten = requestStream rs → ¬ CutInHead rs reads →
      (reads.filterMap dispatchOf = rs.map sent ↔ OnePerRead rs reads) := by
  induction reads with
  | nil =>
      intro rs hsplit _
      cases rs with
      | nil => exact ⟨fun _ => rfl, fun _ => rfl⟩
      | cons r rs => exact absurd (List.append_eq_nil_iff.mp hsplit.symm).1 r.render_ne_nil
  | cons read reads ih =>
      intro rs hsplit hcut
      by_cases hread : read = []
      · rw [hread] at hsplit hcut ⊢
        rw [List.filterMap_cons_none dispatchOf_nil]
        exact ih hsplit (fun h => hcut h.of_tail)
      · cases rs with
        | nil => exact absurd (List.append_eq_nil_iff.mp hsplit).1 hread
        | cons r rs =>
            obtain ⟨bytes, rfl⟩ := head_prefix hcut hread hsplit
            have hkept : ((r.head ++ bytes) :: reads).filter (· ≠ [])
                = (r.head ++ bytes) :: reads.filter (· ≠ []) :=
              List.filter_cons_of_pos (decide_eq_true hread)
            rw [List.filterMap_cons_some (dispatchOf_head r bytes), List.map_cons, OnePerRead, hkept,
              List.map_cons, List.cons.injEq, List.cons.injEq, r.render_eq_head]
            by_cases hbytes : bytes = r.body
            · subst hbytes
              rw [requestStream, List.flatMap_cons, List.flatten_cons, ← r.render_eq_head] at hsplit
              have hrest := ih (List.append_cancel_left hsplit)
                (fun h => hcut (r.render_eq_head ▸ h.of_rest))
              exact ⟨fun h => ⟨rfl, hrest.mp h.2⟩, fun h => ⟨rfl, hrest.mpr h.2⟩⟩
            · refine ⟨fun h => absurd (congrArg Dispatched.body h.1) hbytes, fun h => ?_⟩
              exact absurd (List.append_cancel_left h.1) hbytes

/-- A connection read byte by byte hands on nothing. -/
theorem delivers_bytewise (bytes : ByteString) :
    (bytes.map (fun b => [b])).filterMap dispatchOf = [] := by
  rw [List.filterMap_eq_nil_iff]
  intro read hread
  obtain ⟨b, -, rfl⟩ := List.mem_map.mp hread
  exact dispatchOf_short (le_refl 1)

/-- Of no requests there are only empty reads. -/
theorem onePerRead_nil {reads : List ByteString} (h : reads.flatten = requestStream []) :
    OnePerRead [] reads := by
  refine List.filter_eq_nil_iff.mpr (fun read hread => ?_)
  rw [decide_eq_true_eq, not_not]
  exact List.flatten_eq_nil_iff.mp h read hread

/-! ## Connections -/

namespace Hono

variable {E : RegexEngine} {M F : Type}

/-- The requests handed on are those that were sent. -/
def Delivers (app : Hono E M F) (rs : List Request) (reads : List (ByteString × Int)) : Prop :=
  app.dispatches reads = rs.map sent

/-- The reads of a connection make up the stream of its requests. -/
def Carries (rs : List Request) (reads : List (ByteString × Int)) : Prop :=
  (reads.map Prod.fst).flatten = requestStream rs

/-- Requests arrive as they were sent if every read is one of them, and where no cut falls into
    a head only then; no requests but none survive every way of cutting their stream. -/
theorem delivers_iff_onePerRead (app : Hono E M F) (rs : List Request) :
    (∀ reads, OnePerRead rs (reads.map Prod.fst) → Carries rs reads ∧ app.Delivers rs reads) ∧
    (∀ reads, Carries rs reads → ¬ CutInHead rs (reads.map Prod.fst) →
      (app.Delivers rs reads ↔ OnePerRead rs (reads.map Prod.fst))) ∧
    ((∀ reads, Carries rs reads → app.Delivers rs reads) ↔ rs = []) := by
  have hdelivers : ∀ reads, app.Delivers rs reads ↔
      (reads.map Prod.fst).filterMap dispatchOf = rs.map sent := by
    intro reads
    rw [Delivers, dispatches_eq]
  refine ⟨fun reads h => ?_, fun reads hcarries hcut => ?_, ?_⟩
  · exact ⟨h.flatten, (hdelivers reads).mpr (delivers_of_onePerRead h)⟩
  · rw [hdelivers]
    exact delivers_iff hcarries hcut
  · constructor
    · intro h
      -- the stream read byte by byte
      have hreads : (((requestStream rs).map (fun b => ([b], (0 : Int)))).map Prod.fst)
          = (requestStream rs).map (fun b => [b]) := by
        rw [List.map_map]
        rfl
      have hcarries : Carries rs ((requestStream rs).map (fun b => ([b], 0))) := by
        rw [Carries, hreads, ← List.flatMap_def, List.flatMap_singleton']
      have hnone := (hdelivers _).mp (h _ hcarries)
      rw [hreads, delivers_bytewise] at hnone
      exact List.map_eq_nil_iff.mp hnone.symm
    · rintro rfl reads hcarries
      exact (hdelivers reads).mpr (delivers_of_onePerRead (onePerRead_nil hcarries))

/-! ## A body in a read of its own -/

theorem length_name_ne : ascii "Content-Length" ≠ [] := by decide

/-- `Content-Length: 2` -/
def lengthField : Field where
  name := ascii "Content-Length"
  value := ascii "2"
  before := [32]
  after := []
  name_ne := length_name_ne
  name_token := List.all_eq_true.mp (by decide)
  value_bytes := List.all_eq_true.mp (by decide)
  value_head := by
    rintro b hb
    rw [← Option.some.inj hb]
    rfl
  value_last := by
    rintro b hb
    rw [← Option.some.inj hb]
    rfl
  before_blank := List.all_eq_true.mp (by decide)
  after_blank := List.all_eq_true.mp (by decide)

theorem post_ne : ascii "POST" ≠ [] := by decide

theorem post_token : ∀ b ∈ ascii "POST", HttpGrammar.isTokenByte b = true :=
  List.all_eq_true.mp (by decide)

theorem notes_ne : ascii "/notes" ≠ [] := by decide

theorem notes_bytes : ∀ b ∈ ascii "/notes", HttpGrammar.isTargetByte b = true :=
  List.all_eq_true.mp (by decide)

theorem one_digit : byte '0' ≤ byte '1' ∧ byte '1' ≤ byte '9' := by decide

/-- `POST /notes HTTP/1.1` with the body `hi`. -/
def noteRequest : Request where
  method := ascii "POST"
  target := ascii "/notes"
  minor := byte '1'
  fields := [lengthField]
  body := ascii "hi"
  method_ne := post_ne
  method_token := post_token
  target_ne := notes_ne
  target_bytes := notes_bytes
  minor_digit := one_digit

theorem noteRequest_delimited : noteRequest.Delimited where
  http11 := rfl
  length := .inl (by decide)
  uncoded := by decide

/-- Two requests in a read each. -/
theorem delivers_noteRequest_twice :
    (new 0 : Hono segmentEngine Nat Nat).Delivers [noteRequest, noteRequest]
      [(noteRequest.render, 0), (noteRequest.render, 1)] := by
  have hreads : OnePerRead [noteRequest, noteRequest]
      ([(noteRequest.render, (0 : Int)), (noteRequest.render, 1)].map Prod.fst) := rfl
  exact ((delivers_iff_onePerRead (new 0) [noteRequest, noteRequest]).1 _ hreads).2

/-- Read up to the empty line and then the body, the request is handed on without it. -/
theorem body_lost_between_reads :
    ¬ ∀ (app : Hono segmentEngine Nat Nat) (rs : List Request) (reads : List (ByteString × Int)),
      (∀ r ∈ rs, r.Delimited) → Carries rs reads → app.Delivers rs reads := by
  intro h
  have hcarries : Carries [noteRequest] [(noteRequest.head, 0), (noteRequest.body, 1)] := by
    rw [Carries, requestStream, List.flatMap_singleton, noteRequest.render_eq_head]
    simp
  have hall : ∀ r ∈ [noteRequest], r.Delimited := by
    intro r hr
    rw [List.mem_singleton.mp hr]
    exact noteRequest_delimited
  have hrun := h (.new 0) _ _ hall hcarries
  have hhead := dispatchOf_head noteRequest []
  rw [List.append_nil] at hhead
  rw [Delivers, dispatches_eq, List.map_cons, List.filterMap_cons_some hhead] at hrun
  exact absurd (congrArg Dispatched.body (List.cons.inj hrun).1) (by decide)

end Hono

end VHono
