import VHono.Compress
import VHono.PicoevRequest

/-! # What reaches the client

    A recipient reads the bytes of a sender as a response by the grammar.  It reads
    the response the handlers returned exactly when the context says the same: the
    status it carries is that of the response or none, and every field of the
    response is printed, which the senders do for the fields of the context, the
    content type and what they add themselves. -/

namespace VHono

open ByteString HttpGrammar

/-- The senders, each with what it is told about the connection. -/
inductive Sender
  | picoev (keepalive : Bool) (config : PicoevConfig)
  | usockets (isHttp11 : Bool)

namespace Sender

def send (s : Sender) (ctx : Context) (response : HttpResponse) : Option ByteString :=
  match s with
  | picoev keepalive config => sendPicoevResponse ctx response keepalive config
  | usockets isHttp11 => sendUsocketsResponse ctx response isHttp11

/-- The headers the server adds. -/
def own (s : Sender) (ctx : Context) (response : HttpResponse) :
    List (ByteString × ByteString) :=
  match s with
  | picoev keepalive config => picoevOwn ctx response keepalive config
  | usockets isHttp11 => usocketsOwn ctx response isHttp11

end Sender

/-- The field is among the pairs, whatever blanks stand around its value. -/
def Carries (pairs : List (ByteString × ByteString)) (h : ByteString × ByteString) : Prop :=
  ∃ p ∈ pairs, named p h.1 = true ∧ p.2 = trimSpace h.2

/-- Is the context that of a `HEAD` request? -/
def toHead (ctx : Context) : Bool := decide (ctx.req.method = .head)

/-- The bytes are read as the response, in answer to the request of the context. -/
def Faithful (ctx : Context) (bytes : ByteString) (response : HttpResponse) : Prop :=
  ∃ p : HttpGrammar.Response (toHead ctx), p.render = bytes ∧
    (p.status : Int) = response.statusCode ∧
    (∀ h ∈ response.header, isContentLength h = false → Carries (p.fields.map Field.pair) h) ∧
    p.body = response.body

/-- The context says what the response says. -/
structure Delivered (s : Sender) (ctx : Context) (response : HttpResponse) : Prop where
  /-- The context carries no other status, and it has three digits. -/
  status : ctx.statusCode = 0 ∨ ctx.statusCode = response.statusCode
  digits : 100 ≤ response.statusCode ∧ response.statusCode ≤ 999
  /-- The headers of the handlers are printed as header fields, none of which frames the
      message otherwise, and with the server's they are those of the response. -/
  fields : ∃ fs : List Field, headerText fs = pairText (written ctx response) ∧
    (if bodyless (toHead ctx) response.statusCode.toNat = true then response.body = []
      else ∀ p ∈ fs.map Field.pair, isContentLength p = false ∧ isTransferEncoding p = false) ∧
    ∀ h ∈ response.header, isContentLength h = false →
      Carries (fs.map Field.pair ++ (s.own ctx response).map trimmed) h

/-! ## The headers of the server -/

variable (s : Sender) (ctx : Context) (response : HttpResponse)

theorem validPair_of_value {key value : ByteString}
    (hkey : key ≠ [] ∧ key.all isTokenByte = true)
    (hvalue : ∀ b ∈ value, isFieldByte b = true) : ValidPair (key, value) :=
  ⟨hkey.1, List.all_eq_true.mp hkey.2, hvalue⟩

/-- A pair of fixed texts. -/
theorem validPair_of_texts {key value : ByteString}
    (hkey : key ≠ [] ∧ key.all isTokenByte = true) (hvalue : value.all isFieldByte = true) :
    ValidPair (key, value) :=
  validPair_of_value hkey (List.all_eq_true.mp hvalue)

theorem mem_ownContentType {q : ByteString × ByteString} (h : q ∈ ownContentType ctx response) :
    q = (ascii "Content-Type", ascii "text/plain; charset=utf-8") := by
  rw [ownContentType] at h
  split at h
  · cases h
  · exact List.mem_singleton.mp h

/-- What a server adds: a content type, its length, and what keeps the connection. -/
theorem mem_own {q : ByteString × ByteString} (h : q ∈ s.own ctx response) :
    q = lengthPair response ∨ q = (ascii "Content-Type", ascii "text/plain; charset=utf-8") ∨
      q = (ascii "Connection", ascii "keep-alive") ∨ q = (ascii "Connection", ascii "close") ∨
      ∃ t m : Int, q = (ascii "Keep-Alive", ascii "timeout=" ++ (intStr t
        ++ (ascii ", max=" ++ intStr m))) := by
  cases s with
  | picoev keepalive config =>
      rcases List.mem_append.mp h with htype | h
      · exact Or.inr (Or.inl (mem_ownContentType ctx response htype))
      · rcases List.mem_append.mp h with hconn | hlength
        · split at hconn
          · cases hconn
          · split at hconn
            · rcases List.mem_cons.mp hconn with rfl | hkeep
              · exact Or.inr (Or.inr (Or.inl rfl))
              · exact Or.inr (Or.inr (Or.inr (Or.inr ⟨_, _, List.mem_singleton.mp hkeep⟩)))
            · exact Or.inr (Or.inr (Or.inr (Or.inl (List.mem_singleton.mp hconn))))
        · exact Or.inl (List.mem_singleton.mp hlength)
  | usockets isHttp11 =>
      rcases List.mem_append.mp h with htype | h
      · exact Or.inr (Or.inl (mem_ownContentType ctx response htype))
      · rcases List.mem_cons.mp h with hlength | hconn
        · exact Or.inl hlength
        · rw [List.mem_singleton.mp hconn]
          cases isHttp11 with
          | true => exact Or.inr (Or.inr (Or.inl rfl))
          | false => exact Or.inr (Or.inr (Or.inr (Or.inl rfl)))

/-- They are header fields. -/
theorem own_valid {q : ByteString × ByteString} (h : q ∈ s.own ctx response) : ValidPair q := by
  rcases mem_own s ctx response h with rfl | rfl | rfl | rfl | ⟨t, m, rfl⟩
  · exact validPair_of_value (by decide) (fun b hb => (intStr_bytes (n := response.body.length)
      (by rw [intStr_ofNat]; exact hb)).1)
  · exact validPair_of_texts (by decide) (by decide)
  · exact validPair_of_texts (by decide) (by decide)
  · exact validPair_of_texts (by decide) (by decide)
  · refine validPair_of_value (by decide) ?_
    intro b hb
    simp only [List.mem_append] at hb
    rcases hb with hb | hb | hb | hb
    · exact List.all_eq_true.mp (by decide) b hb
    · exact (intStr_bytes hb).1
    · exact List.all_eq_true.mp (by decide) b hb
    · exact (intStr_bytes hb).1

/-- No transfer coding is among them. -/
theorem own_coding {q : ByteString × ByteString} (h : q ∈ s.own ctx response) :
    isTransferEncoding q = false := by
  rcases mem_own s ctx response h with rfl | rfl | rfl | rfl | ⟨t, m, rfl⟩
  · show eqIgnoreCase (ascii "Content-Length") (ascii "Transfer-Encoding") = false
    decide
  · decide
  · decide
  · decide
  · show eqIgnoreCase (ascii "Keep-Alive") (ascii "Transfer-Encoding") = false
    decide

/-- The length is declared once. -/
theorem own_length : (s.own ctx response).filter isContentLength = [lengthPair response] := by
  have htype : (ownContentType ctx response).filter isContentLength = [] := by
    rw [List.filter_eq_nil_iff]
    intro q hq
    rw [mem_ownContentType ctx response hq]
    decide
  have hlength : isContentLength (lengthPair response) = true := by
    show eqIgnoreCase (ascii "Content-Length") (ascii "Content-Length") = true
    decide
  cases s with
  | picoev keepalive config =>
      have hconn : (if namesConnection ctx = true then []
          else if keepalive = true then keepAlivePairs config
          else [(ascii "Connection", ascii "close")]).filter isContentLength = [] := by
        split
        · rfl
        · split
          · rfl
          · rfl
      show (ownContentType ctx response ++ (_ ++ _)).filter isContentLength = _
      rw [List.filter_append, htype, List.filter_append, hconn,
        List.filter_cons_of_pos hlength]
      rfl
  | usockets isHttp11 =>
      show (ownContentType ctx response ++ _).filter isContentLength = _
      rw [List.filter_append, htype, List.filter_cons_of_pos hlength]
      cases isHttp11 with
      | true => rfl
      | false => rfl

theorem own_framed :
    (((s.own ctx response).map trimmed).filter isContentLength).map (fun p => readDecimal p.2)
      = [some response.body.length] ∧
    ∀ p ∈ (s.own ctx response).map trimmed, isTransferEncoding p = false := by
  have hspace : ∀ b ∈ decimal response.body.length, isSpace b = false := by
    intro b hb
    rw [← intStr_ofNat] at hb
    exact isSpace_field (intStr_bytes hb).1 (intStr_bytes hb).2
  have htrim : trimSpace (decimal response.body.length) = decimal response.body.length := by
    have := trimSpace_padded (s := decimal response.body.length)
      (fun b (hb : b ∈ []) => by cases hb) (fun b (hb : b ∈ []) => by cases hb)
      (fun b hb => hspace b (List.mem_of_mem_head? hb))
      (fun b hb => hspace b (List.mem_of_mem_getLast? hb))
    rw [List.nil_append, List.append_nil] at this
    exact this
  refine ⟨?_, ?_⟩
  · have hfilter : ((s.own ctx response).map trimmed).filter isContentLength
        = ((s.own ctx response).filter isContentLength).map trimmed := List.filter_map
    rw [hfilter, own_length, List.map_singleton, List.map_singleton]
    show [readDecimal (trimSpace (decimal response.body.length))] = _
    rw [htrim, readDecimal_decimal]
  · intro p hp
    obtain ⟨q, hq, rfl⟩ := List.mem_map.mp hp
    show isTransferEncoding q = false
    exact own_coding s ctx response hq

/-! ## The reading -/

variable {s ctx response}

/-- **WHAT A SENDER SENDS.** -/
theorem send_eq (h : isStreamingResponse ctx = false) :
    s.send ctx response
      = some (printed (sentStatus ctx response) (statusText (sentStatus ctx response))
          (written ctx response ++ s.own ctx response) response.body) := by
  cases s with
  | picoev keepalive config => exact sendPicoevResponse_eq h
  | usockets isHttp11 => exact sendUsocketsResponse_eq h

theorem sentStatus_eq_iff :
    sentStatus ctx response = response.statusCode
      ↔ ctx.statusCode = 0 ∨ ctx.statusCode = response.statusCode := by
  rw [sentStatus]
  by_cases hzero : ctx.statusCode = 0
  · rw [if_neg (not_not_intro hzero)]
    exact ⟨fun _ => Or.inl hzero, fun _ => rfl⟩
  · rw [if_pos hzero]
    exact ⟨Or.inr, fun h => h.resolve_left hzero⟩

/-- A reading of the bytes with the right body fixes the status, and splits the fields. -/
theorem reading_of_sent {p : HttpGrammar.Response (toHead ctx)}
    (hrender : p.render = printed (sentStatus ctx response) (statusText (sentStatus ctx response))
      (written ctx response ++ s.own ctx response) response.body)
    (hbody : p.body = response.body) :
    (p.status : Int) = sentStatus ctx response ∧
      ∃ fs : List Field, headerText fs = pairText (written ctx response) ∧
        p.fields.map Field.pair = fs.map Field.pair ++ (s.own ctx response).map trimmed :=
  Response.reads_printed (statusText_bytes _) (fun _ hq => own_valid s ctx response hq) hrender
    hbody

/-- **DELIVERY.**  What a sender sends is read as the response of the handlers if and only
    if the context says the same as the response. -/
theorem faithful_iff (h : isStreamingResponse ctx = false) :
    (∃ bytes, s.send ctx response = some bytes ∧ Faithful ctx bytes response)
      ↔ Delivered s ctx response := by
  have hown := own_framed s ctx response
  constructor
  · rintro ⟨bytes, hsend, p, hrender, hstatus, hfields, hbody⟩
    rw [send_eq h, Option.some.injEq] at hsend
    rw [← hsend] at hrender
    obtain ⟨hsent, fs, hfs, hpairs⟩ := reading_of_sent hrender hbody
    have hcode : p.status = response.statusCode.toNat := by omega
    refine ⟨sentStatus_eq_iff.mp (hsent.symm.trans hstatus), ?_, fs, hfs, ?_, ?_⟩
    · have := p.status_digits
      omega
    · have hframed := p.framed
      rw [hpairs, hbody, hcode] at hframed
      exact (framed_append hown.1 hown.2).mp hframed
    · intro f hf hlength
      have := hfields f hf hlength
      rw [hpairs] at this
      exact this
  · rintro ⟨hstatus, hdigits, fs, hfs, hframed, hfields⟩
    have hsent := sentStatus_eq_iff.mpr hstatus
    have hcode : ((response.statusCode.toNat : Nat) : Int) = response.statusCode := by omega
    have hthree : 100 ≤ response.statusCode.toNat ∧ response.statusCode.toNat ≤ 999 := by omega
    have hwhole : Framed (toHead ctx) response.statusCode.toNat
        (fs.map Field.pair ++ (s.own ctx response).map trimmed) response.body :=
      (framed_append hown.1 hown.2).mpr hframed
    obtain ⟨p, hrender, hpstatus, hpairs, hbody⟩ :=
      exists_response (statusText_bytes (sentStatus ctx response))
        (fun _ hq => own_valid s ctx response hq) hthree hfs hwhole
    refine ⟨_, send_eq h, p, ?_, ?_, ?_, hbody⟩
    · rw [hrender, hcode, hsent]
    · rw [hpstatus, hcode]
    · intro f hf hlength
      rw [hpairs]
      exact hfields f hf hlength

/-! ## A handler that answers through the context -/

theorem named_self (h : ByteString × ByteString) : named h h.1 = true := beq_self_eq_true _

theorem carries_of_mem {pairs : List (ByteString × ByteString)} {h : ByteString × ByteString}
    (hmem : h ∈ pairs) : Carries (pairs.map trimmed) h :=
  ⟨trimmed h, List.mem_map_of_mem hmem, named_self h, rfl⟩

/-- The header of `c.text`: content type, connection, and the headers of the context. -/
theorem text_header {data : ByteString} (hvalid : ∀ q ∈ ctx.headers.entries, ValidPair q) :
    (ctx.text data).header = (ascii "Content-Type", ascii "text/plain; charset=utf-8")
      :: (ascii "Connection", ascii "keep-alive") :: ctx.headers.entries := by
  show Header.addAll [] _ = _
  rw [Header.addAll_valid, List.nil_append]
  intro q hq
  rcases List.mem_cons.mp hq with rfl | hq
  · decide
  · rcases List.mem_cons.mp hq with rfl | hq
    · decide
    · obtain ⟨hne, htoken, -⟩ := hvalid q hq
      rw [Header.validName, Bool.and_eq_true, decide_eq_true_eq, List.all_eq_true]
      exact ⟨hne, htoken⟩

/-- **`c.text` ARRIVES**, under both backends on a connection that is kept, when the headers
    of the context are header fields that name neither a content type nor a coding. -/
theorem text_delivered {data : ByteString}
    (hvalid : ∀ q ∈ ctx.headers.entries, ValidPair q)
    (htype : ∀ q ∈ ctx.headers.entries, named q (ascii "Content-Type") = false)
    (hcoding : ∀ q ∈ ctx.headers.entries, isTransferEncoding q = false)
    (hdigits : 100 ≤ ctx.statusCode ∧ ctx.statusCode ≤ 999)
    (hbody : bodyless (toHead ctx) ctx.statusCode.toNat = false)
    (hkeep : (ascii "Connection", ascii "keep-alive") ∈ s.own ctx (ctx.text data)) :
    Delivered s ctx (ctx.text data) := by
  have hcontext : ∀ q ∈ contextPairs ctx, q ∈ ctx.headers.entries := fun q hq =>
    List.mem_of_mem_filter hq
  have hnames : namesContentType ctx = false := by
    rw [namesContentType, List.any_eq_false]
    intro q hq
    rw [htype q (hcontext q hq)]
    decide
  have hwritten : written ctx (ctx.text data)
      = contextPairs ctx ++ [(ascii "Content-Type", ascii "text/plain; charset=utf-8")] := by
    have hget : (ctx.text data).header.getCustom (ascii "Content-Type")
        = some (ascii "text/plain; charset=utf-8") := by
      rw [text_header hvalid]
      rfl
    rw [written, copiedContentType, hget, hnames]
    rfl
  have hfields : ∀ q ∈ written ctx (ctx.text data), ValidPair q := by
    intro q hq
    rw [hwritten] at hq
    rcases List.mem_append.mp hq with hq | hq
    · exact hvalid q (hcontext q hq)
    · rw [List.mem_singleton.mp hq]
      exact validPair_of_texts (by decide) (by decide)
  obtain ⟨fs, hfs, hpairs⟩ := exists_fields _ hfields
  refine ⟨Or.inr rfl, hdigits, fs, hfs, ?_, ?_⟩
  · rw [if_neg (by rw [show (ctx.text data).statusCode = ctx.statusCode from rfl, hbody]; decide),
      hpairs, hwritten]
    intro p hp
    obtain ⟨q, hq, rfl⟩ := List.mem_map.mp hp
    show isContentLength q = false ∧ isTransferEncoding q = false
    rcases List.mem_append.mp hq with hq | hq
    · have hlength : (!isContentLength q) = true := (List.mem_filter.mp hq).2
      exact ⟨Bool.not_eq_true' _ |>.mp hlength, hcoding q (hcontext q hq)⟩
    · rw [List.mem_singleton.mp hq]
      decide
  · intro h hh hlength
    rw [hpairs, ← List.map_append]
    refine carries_of_mem ?_
    rw [text_header hvalid] at hh
    rcases List.mem_cons.mp hh with rfl | hh
    · rw [hwritten]
      exact List.mem_append_left _ (List.mem_append_right _ (List.mem_singleton.mpr rfl))
    · rcases List.mem_cons.mp hh with rfl | hh
      · exact List.mem_append_right _ hkeep
      · rw [hwritten]
        exact List.mem_append_left _ (List.mem_append_left _
          (List.mem_filter.mpr ⟨hh, by rw [hlength]; rfl⟩))

/-! ## Responses that are not delivered -/

/-- **A COMPRESSED BODY NEEDS THE CONTEXT.**  A response that the middleware put together is
    not delivered with any context whose headers do not name the coding. -/
theorem compressed_not_faithful
    {compressBody : ByteString → CompressEncoding → Int → Option ByteString}
    {opts : CompressOptions} {c : Context} {next : Context → HttpResponse × Context}
    (hreplaced : compress compressBody opts c next ≠ next c)
    (hresponse : (compress compressBody opts c next).1 = response)
    (hstream : isStreamingResponse ctx = false)
    (hvalid : ∀ q ∈ written ctx response, ValidPair q)
    (hnone : ∀ q ∈ contextPairs ctx, named q (ascii "Content-Encoding") = false) :
    ¬ ∃ bytes, s.send ctx response = some bytes ∧ Faithful ctx bytes response := by
  rintro ⟨bytes, hsend, p, hrender, -, hfields, hbody⟩
  rw [send_eq hstream, Option.some.injEq] at hsend
  rw [← hsend] at hrender
  obtain ⟨-, fs, hfs, hpairs⟩ := reading_of_sent hrender hbody
  obtain ⟨encoding, body, -, -, -, -, hcompress⟩ :=
    (compress_cases compressBody opts c next).resolve_left hreplaced
  have hcoded : (ascii "Content-Encoding", encoding.str) ∈ response.header := by
    rw [← hresponse, hcompress]
    exact mem_compressedHeader ..
  obtain ⟨q, hq, hname, -⟩ := hfields _ hcoded (by
    show eqIgnoreCase (ascii "Content-Encoding") (ascii "Content-Length") = false
    decide)
  obtain ⟨gs, hgs, hgpairs⟩ := exists_fields _ hvalid
  rw [hpairs, pairs_of_headerText (hfs.trans hgs.symm), hgpairs, ← List.map_append] at hq
  obtain ⟨k, hk, rfl⟩ := List.mem_map.mp hq
  have hno : named k (ascii "Content-Encoding") = false := by
    rcases List.mem_append.mp hk with hk | hk
    · rcases List.mem_append.mp hk with hk | hk
      · exact hnone k hk
      · rw [copiedContentType] at hk
        split at hk
        · cases hk
        · obtain ⟨v, -, rfl⟩ := Option.mem_map.mp (Option.mem_toList.mp hk)
          show eqIgnoreCase (ascii "Content-Type") (ascii "Content-Encoding") = false
          decide
    · rcases mem_own s ctx response hk with rfl | rfl | rfl | rfl | ⟨t, m, rfl⟩
      · show eqIgnoreCase (ascii "Content-Length") (ascii "Content-Encoding") = false
        decide
      · decide
      · decide
      · decide
      · show eqIgnoreCase (ascii "Keep-Alive") (ascii "Content-Encoding") = false
        decide
  exact absurd (hno.symm.trans hname) (by decide)

/-- The context of `GET /` under picoev. -/
def rootContext : Context :=
  createPicoevContext ⟨ascii "GET", ascii "/", [], []⟩ .empty .empty

/-- `c.text('ok')` arrives. -/
theorem text_faithful :
    ∃ bytes, (Sender.usockets true).send rootContext (rootContext.text (ascii "ok")) = some bytes ∧
      Faithful rootContext bytes (rootContext.text (ascii "ok")) :=
  (faithful_iff (by decide)).mpr (text_delivered (fun _ hq => by cases hq) (fun _ hq => by cases hq)
    (fun _ hq => by cases hq) (by decide) (by decide) (by decide))

/-- `Response.error(404, 'no such pet')` is sent with the status 200 of the context. -/
theorem error_sent_as_200 :
    ¬ ∃ bytes, (Sender.picoev true {}).send rootContext
        (Response.error 404 (ascii "no such pet")) = some bytes ∧
      Faithful rootContext bytes (Response.error 404 (ascii "no such pet")) := by
  rintro ⟨bytes, hsend, p, hrender, hstatus, -, hbody⟩
  rw [send_eq (by decide), Option.some.injEq] at hsend
  rw [← hsend] at hrender
  obtain ⟨hsent, -⟩ := reading_of_sent hrender hbody
  exact absurd (hsent.symm.trans hstatus) (by decide)

end VHono
