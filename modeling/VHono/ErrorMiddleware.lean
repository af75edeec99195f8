import VHono.JsonText
import VHono.Responses

/-! # The error middleware

    It runs the rest of the chain and looks at the status the chain left.  An
    error whose body does not mention an error member is answered anew, with a
    JSON text that has the old body for its message; the new status is that of
    an error type, and only seven statuses have one of their own. -/

namespace VHono

open ByteString

inductive ErrorType
  | badRequest
  | unauthorized
  | forbidden
  | notFound
  | methodNotAllowed
  | conflict
  | payloadTooLarge
  | unsupportedMediaType
  | unprocessableEntity
  | internalServerError
  | notImplemented
  | badGateway
  | serviceUnavailable
  deriving DecidableEq, Repr

/-- `int(error_type)` -/
def ErrorType.code : ErrorType → Int
  | badRequest => 400
  | unauthorized => 401
  | forbidden => 403
  | notFound => 404
  | methodNotAllowed => 405
  | conflict => 409
  | payloadTooLarge => 413
  | unsupportedMediaType => 415
  | unprocessableEntity => 422
  | internalServerError => 500
  | notImplemented => 501
  | badGateway => 502
  | serviceUnavailable => 503

def getErrorName : ErrorType → ByteString
  | .badRequest => ascii "Bad Request"
  | .unauthorized => ascii "Unauthorized"
  | .forbidden => ascii "Forbidden"
  | .notFound => ascii "Not Found"
  | .methodNotAllowed => ascii "Method Not Allowed"
  | .conflict => ascii "Conflict"
  | .payloadTooLarge => ascii "Payload Too Large"
  | .unsupportedMediaType => ascii "Unsupported Media Type"
  | .unprocessableEntity => ascii "Unprocessable Entity"
  | .internalServerError => ascii "Internal Server Error"
  | .notImplemented => ascii "Not Implemented"
  | .badGateway => ascii "Bad Gateway"
  | .serviceUnavailable => ascii "Service Unavailable"

structure ErrorResponse where
  error     : ByteString
  message   : ByteString
  code      : Int
  timestamp : ByteString
  path      : ByteString
  details   : InsertionMap ByteString ByteString

def getCurrentTimestamp : ByteString := ascii "2025-12-26T00:00:00Z"

section
variable (encode : ErrorResponse → ByteString)

/-- `DefaultErrorHandler.handle_error`; `encode` is the JSON library's. -/
def handleError (c : Context) (errorType : ErrorType) (message : ByteString)
    (details : InsertionMap ByteString ByteString) : HttpResponse × Context :=
  let errorResponse : ErrorResponse := {
    error := getErrorName errorType
    message := message
    code := errorType.code
    timestamp := getCurrentTimestamp
    path := c.path
    details := details }
  let c := c.status errorType.code
  (c.json (encode errorResponse), c)

def errorResponse (c : Context) (errorType : ErrorType) (message : ByteString) :
    HttpResponse × Context :=
  handleError encode c errorType message .empty

/-- The type a status is answered with. -/
def errorTypeOf (statusCode : Int) : ErrorType :=
  if statusCode = 400 then .badRequest
  else if statusCode = 401 then .unauthorized
  else if statusCode = 403 then .forbidden
  else if statusCode = 404 then .notFound
  else if statusCode = 409 then .conflict
  else if statusCode = 422 then .unprocessableEntity
  else if statusCode = 500 then .internalServerError
  else .internalServerError

/-- The middleware; `next` returns the response and the context it leaves behind. -/
def errorHandlingMiddleware (c : Context) (next : Context → HttpResponse × Context) :
    HttpResponse × Context :=
  let (response, c) := next c
  if c.statusCode ≥ 400 then
    if containsStr response.body (ascii "\"error\"") = false then
      errorResponse encode c (errorTypeOf c.statusCode) response.body
    else (response, c)
  else (response, c)

/-! ## Outcomes that are kept -/

/-- The body is a JSON object with an error member. -/
def HasErrorMember (body : ByteString) : Prop :=
  ∃ members, JsonText.decode body = some (.object members) ∧ ascii "error" ∈ members.map Prod.fst

/-- The statuses stay, and the body too, unless it is an error's and not yet told as one. -/
structure OutcomeKept (before after : HttpResponse × Context) : Prop where
  context  : after.2.statusCode = before.2.statusCode
  response : after.1.statusCode = before.1.statusCode
  plain    : before.2.statusCode < 400 → after.1.body = before.1.body
  told     : 400 ≤ before.2.statusCode → ¬ HasErrorMember before.1.body →
    ∃ r : ErrorResponse, after.1.body = encode r ∧ r.code = before.2.statusCode ∧
      r.message = before.1.body

/-- The statuses that an error type is chosen for. -/
def OwnType (statusCode : Int) : Prop :=
  statusCode ∈ ([400, 401, 403, 404, 409, 422, 500] : List Int)

theorem code_errorTypeOf (statusCode : Int) :
    (errorTypeOf statusCode).code = statusCode ↔ OwnType statusCode := by
  rw [OwnType, errorTypeOf]
  split_ifs with h400 h401 h403 h404 h409 h422 h500
  · exact iff_of_true h400.symm (by rw [h400]; decide)
  · exact iff_of_true h401.symm (by rw [h401]; decide)
  · exact iff_of_true h403.symm (by rw [h403]; decide)
  · exact iff_of_true h404.symm (by rw [h404]; decide)
  · exact iff_of_true h409.symm (by rw [h409]; decide)
  · exact iff_of_true h422.symm (by rw [h422]; decide)
  · exact iff_of_true h500.symm (by rw [h500]; decide)
  · refine iff_of_false (fun h => h500 h.symm) (fun h => ?_)
    simp only [List.mem_cons, List.not_mem_nil, or_false] at h
    omega

variable {encode} {c : Context} {next : Context → HttpResponse × Context}

/-- What the middleware leaves alone, and what it answers anew. -/
theorem errorHandlingMiddleware_cases (c : Context) (next : Context → HttpResponse × Context) :
    errorHandlingMiddleware encode c next
      = if 400 ≤ (next c).2.statusCode ∧
          containsStr (next c).1.body (ascii "\"error\"") = false then
          errorResponse encode (next c).2 (errorTypeOf (next c).2.statusCode) (next c).1.body
        else next c := by
  rw [errorHandlingMiddleware]
  obtain ⟨response, c'⟩ := next c
  dsimp only
  by_cases hstatus : c'.statusCode ≥ 400
  · rw [if_pos hstatus]
    by_cases hbody : containsStr response.body (ascii "\"error\"") = false
    · rw [if_pos hbody, if_pos ⟨hstatus, hbody⟩]
    · rw [if_neg hbody, if_neg (fun h => hbody h.2)]
  · rw [if_neg hstatus, if_neg (fun h => hstatus h.1)]

/-- A response that is passed on is kept if it is no error, or told as one already. -/
theorem outcomeKept_same (hown : ∀ r : ErrorResponse, encode r ≠ r.message)
    (before : HttpResponse × Context) : OutcomeKept encode before before ↔
      (before.2.statusCode < 400 ∨ HasErrorMember before.1.body) := by
  constructor
  · intro h
    by_contra hnot
    obtain ⟨hstatus, hmember⟩ := not_or.mp hnot
    obtain ⟨r, hbody, -, hmessage⟩ := h.told (Int.not_lt.mp hstatus) hmember
    exact hown r (hbody.symm.trans hmessage.symm)
  · intro h
    refine ⟨rfl, rfl, fun _ => rfl, fun hstatus hmember => ?_⟩
    rcases h with hplain | htold
    · exact absurd hplain (Int.not_lt.mpr hstatus)
    · exact absurd htold hmember

/-- A response that is answered anew is kept if its status has an error type. -/
theorem outcomeKept_answered {before : HttpResponse × Context}
    (hstatus : 400 ≤ before.2.statusCode) :
    OutcomeKept encode before
        (errorResponse encode before.2 (errorTypeOf before.2.statusCode) before.1.body) ↔
      (OwnType before.2.statusCode ∧ before.1.statusCode = before.2.statusCode) := by
  rw [← code_errorTypeOf]
  constructor
  · intro h
    have hcontext : (errorTypeOf before.2.statusCode).code = before.2.statusCode := h.context
    have hresponse : (errorTypeOf before.2.statusCode).code = before.1.statusCode := h.response
    exact ⟨hcontext, hresponse.symm.trans hcontext⟩
  · rintro ⟨hcode, hsame⟩
    refine ⟨hcode, hcode.trans hsame.symm, fun hplain => absurd hstatus (Int.not_le.mpr hplain),
      fun _ _ => ⟨_, rfl, hcode, rfl⟩⟩

end

/-- **OUTCOMES.**  An outcome is kept exactly if it is no error; or mentions an error member and
    has one; or does not, and its status is one of seven and the response's own. -/
theorem outcomeKept_iff (encode : ErrorResponse → ByteString)
    (hown : ∀ r : ErrorResponse, encode r ≠ r.message) (c : Context)
    (next : Context → HttpResponse × Context) :
    OutcomeKept encode (next c) (errorHandlingMiddleware encode c next) ↔
      ((next c).2.statusCode < 400 ∨
        (containsStr (next c).1.body (ascii "\"error\"") = true ∧
          HasErrorMember (next c).1.body) ∨
        (containsStr (next c).1.body (ascii "\"error\"") = false ∧
          OwnType (next c).2.statusCode ∧ (next c).1.statusCode = (next c).2.statusCode)) := by
  rw [errorHandlingMiddleware_cases]
  split
  · rename_i h
    obtain ⟨hstatus, hbody⟩ := h
    have herror : ¬ (next c).2.statusCode < 400 := Int.not_lt.mpr hstatus
    rw [outcomeKept_answered hstatus, hbody, or_iff_right herror]
    simp only [Bool.false_eq_true, false_and, false_or, true_and]
  · rename_i h
    rw [outcomeKept_same hown]
    by_cases hplain : (next c).2.statusCode < 400
    · exact iff_of_true (.inl hplain) (.inl hplain)
    · have hmentions : containsStr (next c).1.body (ascii "\"error\"") = true := by
        by_contra hbody
        exact h ⟨Int.not_lt.mp hplain, Bool.not_eq_true _ ▸ hbody⟩
      rw [hmentions, or_iff_right hplain, or_iff_right hplain]
      simp only [true_and, Bool.true_eq_false, false_and, or_false]

/-! ## A status without a type -/

/-- The text of a response without details, where no text needs an escape. -/
def plainErrorText (r : ErrorResponse) : ByteString :=
  ascii "\x7b\"error\":\"" ++ (r.error ++ (ascii "\",\"message\":\"" ++ (r.message ++
    (ascii "\",\"code\":" ++ (intStr r.code ++ (ascii ",\"timestamp\":\"" ++ (r.timestamp ++
      (ascii "\",\"path\":\"" ++ (r.path ++ ascii "\",\"details\":\x7b\x7d\x7d")))))))))

theorem plainErrorText_ne (r : ErrorResponse) : plainErrorText r ≠ r.message := by
  intro h
  have hlength := congrArg List.length h
  have hopen : (ascii "\x7b\"error\":\"").length = 10 := by decide
  rw [plainErrorText, List.length_append, List.length_append, List.length_append,
    List.length_append, hopen] at hlength
  omega

/-- A handler that answers with a status and a text. -/
def answering (statusCode : Int) (body : ByteString) (c : Context) : HttpResponse × Context :=
  ((c.status statusCode).text body, c.status statusCode)

def plainContext : Context where
  req := { method := .get, url := ascii "/", data := [], header := [] }
  params := .empty
  query := .empty
  url := ascii "/"
  path := ascii "/"
  statusCode := 200
  headers := .empty
  body := []
  store := .empty

theorem outcomeKept_notFound : OutcomeKept plainErrorText
    (answering 404 (ascii "no such note") plainContext)
    (errorHandlingMiddleware plainErrorText plainContext (answering 404 (ascii "no such note"))) :=
  (outcomeKept_iff plainErrorText plainErrorText_ne plainContext _).mpr
    (.inr (.inr ⟨by decide, by unfold OwnType; decide, rfl⟩))

/-- A 405 becomes a 500. -/
theorem method_not_allowed_lost :
    ¬ ∀ (encode : ErrorResponse → ByteString), (∀ r : ErrorResponse, encode r ≠ r.message) →
      ∀ (c : Context) (next : Context → HttpResponse × Context),
        OutcomeKept encode (next c) (errorHandlingMiddleware encode c next) := by
  intro h
  have hkept := (h plainErrorText plainErrorText_ne plainContext
    (answering 405 (ascii "Method Not Allowed"))).context
  exact absurd hkept (by decide)

end VHono
