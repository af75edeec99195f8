import VHono.Context
import VHono.ResponseGrammar

/-! # Responses and their senders

    A handler returns a response, and leaves a status and headers in the context
    as well.  The senders of the two backends print the status and the headers of
    the context; of the response they use the body, and its content type where the
    context names none.  The compress middleware replaces the response. -/

namespace VHono

open ByteString HttpGrammar

/-- `http.Response` -/
structure HttpResponse where
  statusCode : Int
  header     : Header
  body       : ByteString

namespace Header

/-- `header.get_custom(name)`: the value under the first key that is the name up to case. -/
def getCustom (h : Header) (name : ByteString) : Option ByteString :=
  (h.find? (named · name)).map Prod.snd

/-- `header.keys()` -/
def keys (h : Header) : List ByteString := (h.map Prod.fst).eraseDups

/-- `header.custom_values(key)` -/
def customValues (h : Header) (key : ByteString) : List ByteString :=
  (h.filter (named · key)).map Prod.snd

theorem addAll_eq_filter (fields : List (ByteString × ByteString)) :
    ∀ header : Header, header.addAll fields
      = header ++ fields.filter (fun f => Header.validName f.1) := by
  induction fields with
  | nil => intro header; exact (List.append_nil header).symm
  | cons f fields ih =>
      intro header
      show (header.addCustom f.1 f.2).addAll fields = _
      rw [ih, Header.addCustom, List.filter_cons]
      split
      · rw [List.append_assoc]
        rfl
      · rfl

/-- A field with a valid name is among those added. -/
theorem mem_addAll {header : Header} {fields : List (ByteString × ByteString)}
    {f : ByteString × ByteString} (hvalid : validName f.1 = true) (h : f ∈ fields) :
    f ∈ header.addAll fields := by
  rw [addAll_eq_filter]
  exact List.mem_append_right _ (List.mem_filter.mpr ⟨h, hvalid⟩)

end Header

/-- `Response.error(status_code, message)` -/
def Response.error (statusCode : Int) (message : ByteString) : HttpResponse where
  statusCode := statusCode
  header := []
  body := message

/-- `c.text(data)` -/
def Context.text (c : Context) (data : ByteString) : HttpResponse where
  statusCode := c.statusCode
  header := Header.addAll [] ((ascii "Content-Type", ascii "text/plain; charset=utf-8")
    :: (ascii "Connection", ascii "keep-alive") :: c.headers.entries)
  body := data

/-- `c.json(data)` -/
def Context.json (c : Context) (data : ByteString) : HttpResponse where
  statusCode := c.statusCode
  header := Header.addAll [] ((ascii "Content-Type", ascii "application/json; charset=utf-8")
    :: (ascii "Connection", ascii "keep-alive") :: c.headers.entries)
  body := data

/-- `c.status(code)` -/
def Context.status (c : Context) (code : Int) : Context := { c with statusCode := code }

/-- `c.headers[name] = value` -/
def Context.setHeader (c : Context) (name value : ByteString) : Context :=
  { c with headers := c.headers.insert name value }

/-- A response whose body is produced by a stream callback. -/
def isStreamingResponse (ctx : Context) : Bool :=
  ctx.store.get? (ascii "_stream") == some (ascii "true")

/-! ## Status texts -/

def statusText (code : Int) : ByteString :=
  match code with
  | 101 => ascii "Switching Protocols"
  | 200 => ascii "OK"
  | 201 => ascii "Created"
  | 204 => ascii "No Content"
  | 301 => ascii "Moved Permanently"
  | 302 => ascii "Found"
  | 304 => ascii "Not Modified"
  | 400 => ascii "Bad Request"
  | 401 => ascii "Unauthorized"
  | 403 => ascii "Forbidden"
  | 404 => ascii "Not Found"
  | 405 => ascii "Method Not Allowed"
  | 426 => ascii "Upgrade Required"
  | 500 => ascii "Internal Server Error"
  | 502 => ascii "Bad Gateway"
  | 503 => ascii "Service Unavailable"
  | _ => ascii "Unknown"

def getStatusText (code : Int) : ByteString := statusText code

def getStatusTextUsockets (code : Int) : ByteString := statusText code

/-- Every text may stand in a status line. -/
theorem statusText_bytes (code : Int) : ∀ b ∈ statusText code, isFieldByte b = true := by
  fun_cases statusText code
  all_goals exact List.all_eq_true.mp (by decide)

/-! ## The header loop -/

/-- What is written so far, and what the loop has seen. -/
structure HeaderLoop where
  out            : ByteString
  hasContentType : Bool
  hasConnection  : Bool

/-- `res.header(key, value)` -/
def resHeader (out key value : ByteString) : ByteString :=
  out ++ (key ++ (ascii ": " ++ (value ++ crlf)))

def picoevHeaderStep (st : HeaderLoop) (h : ByteString × ByteString) : HeaderLoop :=
  if h.1.length = 14 ∧ eqIgnoreCase h.1 (ascii "content-length") = true then st
  else
    let st := { st with out := resHeader st.out h.1 h.2 }
    if h.1.length = 12 ∧ eqIgnoreCase h.1 (ascii "content-type") = true then
      { st with hasContentType := true }
    else if h.1.length = 10 ∧ eqIgnoreCase h.1 (ascii "connection") = true then
      { st with hasConnection := true }
    else st

/-- This loop does not look for a `Connection` header. -/
def usocketsHeaderStep (st : HeaderLoop) (h : ByteString × ByteString) : HeaderLoop :=
  if h.1.length = 14 ∧ eqIgnoreCase h.1 (ascii "content-length") = true then st
  else
    let st := { st with out := resHeader st.out h.1 h.2 }
    if h.1.length = 12 ∧ eqIgnoreCase h.1 (ascii "content-type") = true then
      { st with hasContentType := true }
    else st

/-- Both senders: the content type of the response, where the context names none. -/
def copyContentType (st : HeaderLoop) (response : HttpResponse) : HeaderLoop :=
  if st.hasContentType = false then
    match response.header.getCustom (ascii "Content-Type") with
    | some contentType =>
      { st with
          out := resHeader st.out (ascii "Content-Type") contentType
          hasContentType := true }
    | none => st
  else st

/-- Both senders: the default, where neither names one. -/
def defaultContentType (st : HeaderLoop) : HeaderLoop :=
  if st.hasContentType = false then
    { st with out := resHeader st.out (ascii "Content-Type") (ascii "text/plain; charset=utf-8") }
  else st

/-! ## The senders -/

/-- The part of the picoev configuration that the sender prints. -/
structure PicoevConfig where
  keepaliveTimeout : Int := 30
  maxKeepaliveReq  : Int := 10000

def writeConnection (st : HeaderLoop) (keepalive : Bool) (config : PicoevConfig) : ByteString :=
  if st.hasConnection = false then
    if keepalive = true then
      resHeader (resHeader st.out (ascii "Connection") (ascii "keep-alive")) (ascii "Keep-Alive")
        (ascii "timeout=" ++ (intStr config.keepaliveTimeout
          ++ (ascii ", max=" ++ intStr config.maxKeepaliveReq)))
    else resHeader st.out (ascii "Connection") (ascii "close")
  else st.out

/-- `res.body(body)` -/
def resBody (out body : ByteString) : ByteString :=
  out ++ (ascii "Content-Length: " ++ (decimal body.length ++ (crlf ++ (crlf ++ body))))

/-- The bytes sent; a streaming response is left to its own handler. -/
def sendPicoevResponse (ctx : Context) (response : HttpResponse) (keepalive : Bool)
    (config : PicoevConfig) : Option ByteString :=
  if isStreamingResponse ctx = true then none
  else
    let statusCode := if ctx.statusCode ≠ 0 then ctx.statusCode else response.statusCode
    let status :=
      if statusCode = 200 then ascii "HTTP/1.1 200 OK" ++ crlf
      else ascii "HTTP/1.1 " ++ (intStr statusCode ++ 32 :: getStatusText statusCode) ++ crlf
    let st := ctx.headers.entries.foldl picoevHeaderStep ⟨status, false, false⟩
    let st := defaultContentType (copyContentType st response)
    some (resBody (writeConnection st keepalive config) response.body)

def sendUsocketsResponse (ctx : Context) (response : HttpResponse) (isHttp11 : Bool) :
    Option ByteString :=
  if isStreamingResponse ctx = true then none
  else
    let statusCode := if ctx.statusCode ≠ 0 then ctx.statusCode else response.statusCode
    let status := ascii "HTTP/1.1 " ++ (intStr statusCode ++ 32 :: getStatusTextUsockets statusCode)
      ++ crlf
    let st := ctx.headers.entries.foldl usocketsHeaderStep ⟨status, false, false⟩
    let st := defaultContentType (copyContentType st response)
    let out := resHeader st.out (ascii "Content-Length") (decimal response.body.length)
    let out :=
      if isHttp11 = true then resHeader out (ascii "Connection") (ascii "keep-alive")
      else resHeader out (ascii "Connection") (ascii "close")
    some (out ++ (crlf ++ response.body))

/-! ## What the senders print -/

/-- The status that is sent. -/
def sentStatus (ctx : Context) (response : HttpResponse) : Int :=
  if ctx.statusCode ≠ 0 then ctx.statusCode else response.statusCode

/-- The headers of the context that are sent. -/
def contextPairs (ctx : Context) : List (ByteString × ByteString) :=
  ctx.headers.entries.filter (fun h => !isContentLength h)

def namesContentType (ctx : Context) : Bool :=
  (contextPairs ctx).any (named · (ascii "Content-Type"))

def namesConnection (ctx : Context) : Bool :=
  (contextPairs ctx).any (named · (ascii "Connection"))

/-- The content type taken from the response. -/
def copiedContentType (ctx : Context) (response : HttpResponse) :
    List (ByteString × ByteString) :=
  if namesContentType ctx = true then []
  else ((response.header.getCustom (ascii "Content-Type")).map (ascii "Content-Type", ·)).toList

/-- The headers sent that come from the handlers. -/
def written (ctx : Context) (response : HttpResponse) : List (ByteString × ByteString) :=
  contextPairs ctx ++ copiedContentType ctx response

/-- The content type of the server, where the handlers give none. -/
def ownContentType (ctx : Context) (response : HttpResponse) : List (ByteString × ByteString) :=
  if namesContentType ctx = true ∨ (response.header.getCustom (ascii "Content-Type")).isSome then []
  else [(ascii "Content-Type", ascii "text/plain; charset=utf-8")]

def lengthPair (response : HttpResponse) : ByteString × ByteString :=
  (ascii "Content-Length", decimal response.body.length)

def keepAlivePairs (config : PicoevConfig) : List (ByteString × ByteString) :=
  [(ascii "Connection", ascii "keep-alive"),
    (ascii "Keep-Alive", ascii "timeout=" ++ (intStr config.keepaliveTimeout
      ++ (ascii ", max=" ++ intStr config.maxKeepaliveReq)))]

/-- The headers picoev adds. -/
def picoevOwn (ctx : Context) (response : HttpResponse) (keepalive : Bool)
    (config : PicoevConfig) : List (ByteString × ByteString) :=
  ownContentType ctx response
    ++ ((if namesConnection ctx = true then []
      else if keepalive = true then keepAlivePairs config
      else [(ascii "Connection", ascii "close")])
    ++ [lengthPair response])

/-- The headers uSockets adds. -/
def usocketsOwn (ctx : Context) (response : HttpResponse) (isHttp11 : Bool) :
    List (ByteString × ByteString) :=
  ownContentType ctx response
    ++ [lengthPair response,
      (ascii "Connection", if isHttp11 = true then ascii "keep-alive" else ascii "close")]

/-! ## The loops print the headers of the context -/

/-- The test on the length of a key is part of the comparison. -/
theorem length_and_eqIgnoreCase {key name : ByteString} {n : Nat} (hn : name.length = n) :
    (key.length = n ∧ eqIgnoreCase key name = true) ↔ eqIgnoreCase key name = true := by
  constructor
  · exact And.right
  · intro h
    refine ⟨?_, h⟩
    have hlower : toLower key = toLower name := eq_of_beq h
    have hlength := congrArg List.length hlower
    rw [toLower, toLower, List.length_map, List.length_map] at hlength
    exact hlength.trans hn

theorem pairText_cons (h : ByteString × ByteString) (hs : List (ByteString × ByteString)) :
    pairText (h :: hs) = h.1 ++ (ascii ": " ++ (h.2 ++ crlf)) ++ pairText hs := rfl

theorem resHeader_eq (out key value : ByteString) :
    resHeader out key value = out ++ pairText [(key, value)] := by
  rw [pairText_cons, resHeader]
  show _ = out ++ (_ ++ [])
  rw [List.append_nil]

theorem eqIgnoreCase_named {h : ByteString × ByteString} {lower n : ByteString}
    (hname : toLower lower = toLower n) : eqIgnoreCase h.1 lower = named h n := by
  rw [named, eqIgnoreCase, eqIgnoreCase, hname]

/-- A header does not have two names. -/
theorem named_unique {h : ByteString × ByteString} {name name' : ByteString}
    (hne : toLower name ≠ toLower name') (hname : named h name = true) :
    named h name' = false := by
  have hlower : toLower h.1 = toLower name := eq_of_beq hname
  rw [named, eqIgnoreCase, hlower]
  exact beq_eq_false_iff_ne.mpr hne

theorem isContentLength_step (h : ByteString × ByteString) :
    (h.1.length = 14 ∧ eqIgnoreCase h.1 (ascii "content-length") = true)
      ↔ isContentLength h = true := by
  rw [length_and_eqIgnoreCase (by decide),
    eqIgnoreCase_named (n := ascii "Content-Length") (by decide), isContentLength]

theorem namesContentType_step (h : ByteString × ByteString) :
    (h.1.length = 12 ∧ eqIgnoreCase h.1 (ascii "content-type") = true)
      ↔ named h (ascii "Content-Type") = true := by
  rw [length_and_eqIgnoreCase (by decide),
    eqIgnoreCase_named (n := ascii "Content-Type") (by decide)]

theorem namesConnection_step (h : ByteString × ByteString) :
    (h.1.length = 10 ∧ eqIgnoreCase h.1 (ascii "connection") = true)
      ↔ named h (ascii "Connection") = true := by
  rw [length_and_eqIgnoreCase (by decide),
    eqIgnoreCase_named (n := ascii "Connection") (by decide)]

/-- One header of the picoev loop. -/
theorem picoevHeaderStep_eq (st : HeaderLoop) (h : ByteString × ByteString) :
    picoevHeaderStep st h
      = if isContentLength h = true then st
        else ⟨st.out ++ pairText [h], st.hasContentType || named h (ascii "Content-Type"),
          st.hasConnection || named h (ascii "Connection")⟩ := by
  rw [picoevHeaderStep]
  simp only [isContentLength_step, namesContentType_step, namesConnection_step, resHeader_eq]
  by_cases hlength : isContentLength h = true
  · rw [if_pos hlength, if_pos hlength]
  · rw [if_neg hlength, if_neg hlength]
    have hconn : named h (ascii "Content-Type") = true → named h (ascii "Connection") = false :=
      named_unique (by decide)
    by_cases htype : named h (ascii "Content-Type") = true
    · rw [if_pos htype, htype, hconn htype, Bool.or_true, Bool.or_false]
    · rw [if_neg htype, (Bool.not_eq_true _).mp htype, Bool.or_false]
      by_cases hc : named h (ascii "Connection") = true
      · rw [if_pos hc, hc, Bool.or_true]
      · rw [if_neg hc, (Bool.not_eq_true _).mp hc, Bool.or_false]

/-- One header of the uSockets loop. -/
theorem usocketsHeaderStep_eq (st : HeaderLoop) (h : ByteString × ByteString) :
    usocketsHeaderStep st h
      = if isContentLength h = true then st
        else { st with
          out := st.out ++ pairText [h]
          hasContentType := st.hasContentType || named h (ascii "Content-Type") } := by
  rw [usocketsHeaderStep]
  simp only [isContentLength_step, namesContentType_step, resHeader_eq]
  by_cases hlength : isContentLength h = true
  · rw [if_pos hlength, if_pos hlength]
  · rw [if_neg hlength, if_neg hlength]
    by_cases htype : named h (ascii "Content-Type") = true
    · rw [if_pos htype, htype, Bool.or_true]
    · rw [if_neg htype, (Bool.not_eq_true _).mp htype, Bool.or_false]

/-- The picoev loop prints the headers and remembers which of the two it saw. -/
theorem foldl_picoevHeaderStep :
    ∀ (hs : List (ByteString × ByteString)) (st : HeaderLoop),
      hs.foldl picoevHeaderStep st
        = ⟨st.out ++ pairText (hs.filter (fun h => !isContentLength h)),
          st.hasContentType || (hs.filter (fun h => !isContentLength h)).any
            (named · (ascii "Content-Type")),
          st.hasConnection || (hs.filter (fun h => !isContentLength h)).any
            (named · (ascii "Connection"))⟩ := by
  intro hs
  induction hs with
  | nil =>
      intro st
      simp [pairText]
  | cons h hs ih =>
      intro st
      rw [List.foldl_cons, ih, picoevHeaderStep_eq]
      by_cases hlength : isContentLength h = true
      · rw [if_pos hlength, List.filter_cons_of_neg (by simp [hlength])]
      · rw [if_neg hlength, List.filter_cons_of_pos (by simp [hlength])]
        simp only [List.any_cons, Bool.or_assoc, pairText_cons h (List.filter _ hs)]
        simp only [pairText, List.flatMap_cons, List.flatMap_nil, List.append_nil,
          List.append_assoc]

theorem foldl_usocketsHeaderStep :
    ∀ (hs : List (ByteString × ByteString)) (st : HeaderLoop),
      hs.foldl usocketsHeaderStep st
        = { st with
          out := st.out ++ pairText (hs.filter (fun h => !isContentLength h))
          hasContentType := st.hasContentType || (hs.filter (fun h => !isContentLength h)).any
            (named · (ascii "Content-Type")) } := by
  intro hs
  induction hs with
  | nil =>
      intro st
      simp [pairText]
  | cons h hs ih =>
      intro st
      rw [List.foldl_cons, ih, usocketsHeaderStep_eq]
      by_cases hlength : isContentLength h = true
      · rw [if_pos hlength, List.filter_cons_of_neg (by simp [hlength])]
      · rw [if_neg hlength, List.filter_cons_of_pos (by simp [hlength])]
        simp only [List.any_cons, Bool.or_assoc, pairText_cons h (List.filter _ hs)]
        simp only [pairText, List.flatMap_cons, List.flatMap_nil, List.append_nil,
          List.append_assoc]

/-- The content type is the context's, the response's or the default. -/
theorem contentType_out (ctx : Context) (response : HttpResponse) (out : ByteString)
    (conn : Bool) :
    (defaultContentType (copyContentType ⟨out, namesContentType ctx, conn⟩ response)).out
      = out ++ (pairText (copiedContentType ctx response)
          ++ pairText (ownContentType ctx response)) := by
  rw [copyContentType, copiedContentType, ownContentType]
  cases namesContentType ctx with
  | true => simp [defaultContentType, pairText]
  | false =>
      cases response.header.getCustom (ascii "Content-Type") with
      | none => simp [defaultContentType, resHeader_eq, pairText]
      | some ct => simp [defaultContentType, resHeader_eq, pairText]

theorem copyContentType_connection (st : HeaderLoop) (response : HttpResponse) :
    (copyContentType st response).hasConnection = st.hasConnection := by
  rw [copyContentType]
  split
  · split
    · rfl
    · rfl
  · rfl

theorem defaultContentType_connection (st : HeaderLoop) :
    (defaultContentType st).hasConnection = st.hasConnection := by
  rw [defaultContentType]
  split
  · rfl
  · rfl

/-- A status line, followed by headers, a length and a body, is a printed message. -/
theorem printed_eq (code : Int) (reason body : ByteString)
    (pairs : List (ByteString × ByteString)) :
    printed code reason pairs body
      = ascii "HTTP/1.1 " ++ (intStr code ++ 32 :: reason) ++ crlf
        ++ (pairText pairs ++ (crlf ++ body)) := by
  rw [printed, List.append_assoc _ crlf]

theorem writeConnection_eq (st : HeaderLoop) (keepalive : Bool) (config : PicoevConfig) :
    writeConnection st keepalive config
      = st.out ++ pairText (if st.hasConnection = true then []
          else if keepalive = true then keepAlivePairs config
          else [(ascii "Connection", ascii "close")]) := by
  rw [writeConnection]
  cases st.hasConnection with
  | true => simp [pairText]
  | false =>
      cases keepalive with
      | true => simp [resHeader_eq, keepAlivePairs, pairText]
      | false => simp [resHeader_eq]

theorem resBody_eq (out : ByteString) (response : HttpResponse) :
    resBody out response.body
      = out ++ (pairText [lengthPair response] ++ (crlf ++ response.body)) := by
  rw [resBody, pairText_cons]
  show _ = out ++ ((ascii "Content-Length" ++ (ascii ": " ++ (decimal response.body.length ++ crlf)))
    ++ [] ++ (crlf ++ response.body))
  have hkey : ascii "Content-Length: " = ascii "Content-Length" ++ ascii ": " := by decide
  rw [hkey]
  simp only [List.append_assoc, List.append_nil]

/-- **WHAT PICOEV SENDS.** -/
theorem sendPicoevResponse_eq {ctx : Context} {response : HttpResponse} {keepalive : Bool}
    {config : PicoevConfig} (h : isStreamingResponse ctx = false) :
    sendPicoevResponse ctx response keepalive config
      = some (printed (sentStatus ctx response) (statusText (sentStatus ctx response))
          (written ctx response ++ picoevOwn ctx response keepalive config) response.body) := by
  have hstatus : (if sentStatus ctx response = 200 then ascii "HTTP/1.1 200 OK" ++ crlf
      else ascii "HTTP/1.1 " ++ (intStr (sentStatus ctx response)
        ++ 32 :: getStatusText (sentStatus ctx response)) ++ crlf)
      = ascii "HTTP/1.1 " ++ (intStr (sentStatus ctx response)
        ++ 32 :: statusText (sentStatus ctx response)) ++ crlf := by
    by_cases h200 : sentStatus ctx response = 200
    · rw [if_pos h200, h200]
      decide
    · rw [if_neg h200]
      rfl
  rw [sendPicoevResponse, if_neg (by simp [h])]
  dsimp only
  have hcode : (if ctx.statusCode ≠ 0 then ctx.statusCode else response.statusCode)
      = sentStatus ctx response := rfl
  rw [hcode, hstatus, foldl_picoevHeaderStep, resBody_eq, writeConnection_eq,
    defaultContentType_connection, copyContentType_connection, printed_eq]
  simp only [Bool.false_or]
  have htype := contentType_out ctx response
  rw [namesContentType, contextPairs] at htype
  rw [htype, written, picoevOwn, contextPairs, namesConnection, contextPairs]
  simp only [pairText_append, List.append_assoc]

/-- **WHAT USOCKETS SENDS.** -/
theorem sendUsocketsResponse_eq {ctx : Context} {response : HttpResponse} {isHttp11 : Bool}
    (h : isStreamingResponse ctx = false) :
    sendUsocketsResponse ctx response isHttp11
      = some (printed (sentStatus ctx response) (statusText (sentStatus ctx response))
          (written ctx response ++ usocketsOwn ctx response isHttp11) response.body) := by
  have hconn : ∀ out : ByteString,
      (if isHttp11 = true then resHeader out (ascii "Connection") (ascii "keep-alive")
        else resHeader out (ascii "Connection") (ascii "close"))
      = out ++ pairText [(ascii "Connection",
          if isHttp11 = true then ascii "keep-alive" else ascii "close")] := by
    intro out
    cases isHttp11 with
    | true => exact resHeader_eq ..
    | false => exact resHeader_eq ..
  rw [sendUsocketsResponse, if_neg (by simp [h])]
  dsimp only
  rw [hconn, foldl_usocketsHeaderStep, resHeader_eq, printed_eq]
  simp only [Bool.false_or]
  have htype := contentType_out ctx response
  rw [namesContentType, contextPairs] at htype
  rw [htype, written, usocketsOwn, contextPairs]
  have hpair : ∀ q : ByteString × ByteString,
      pairText [lengthPair response, q] = pairText [lengthPair response] ++ pairText [q] :=
    fun q => pairText_append [lengthPair response] [q]
  simp only [pairText_append, hpair, List.append_assoc]
  rfl

end VHono
