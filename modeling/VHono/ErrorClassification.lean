import VHono.BackoffDelays
import VHono.ByteCompare
import VHono.ByteScan
import VHono.StorageErrors

/-! # Errors classified by their text

    The storage operations fail with a text.  The retry executor makes an error
    of it again, of a kind that words and digits in the text decide: whatever
    names a timeout, a limit or a retry counts, in the message as well as in the
    name of a bucket or a key.  What the kind itself prints is found again for
    two of the five retryable kinds only. -/

namespace VHono

open ByteString

/-- `e.kind in [..]` -/
def StorageErrorKind.isRetryable : StorageErrorKind → Bool
  | networkTimeout | serviceUnavailable | rateLimited | connectionReset | temporaryFailure => true
  | _ => false

def StorageError.isRetryable (e : StorageError) : Bool := e.kind.isRetryable

def newStorageErrorWithStatus (kind : StorageErrorKind)
    (message provider operation : ByteString) (httpStatus : Int) : StorageError where
  kind := kind
  message := message
  provider := provider
  operation := operation
  httpStatus := httpStatus

/-! ## Responses -/

/-- The text between two tags; `none` where the slice ends before it starts. -/
def betweenTags (body opening closing : ByteString) : Option (Option ByteString) :=
  match indexOf opening body, indexOf closing body with
  | some start, some stop =>
    if start + opening.length ≤ stop then some (some (slice body (start + opening.length) stop))
    else none
  | _, _ => some none

/-- `S3Storage.extract_error_message`; `none` is a panic. -/
def s3ExtractErrorMessage (body : ByteString) : Option ByteString :=
  (betweenTags body (ascii "<Message>") (ascii "</Message>")).map (·.getD body)

/-- The kind that stands for a status. -/
def kindOfStatus (status : Int) : StorageErrorKind :=
  if status = 403 then .accessDenied
  else if status = 404 then .objectNotFound
  else if status = 409 then .bucketNotFound
  else if status = 429 then .rateLimited
  else if status = 500 ∨ status = 502 ∨ status = 503 ∨ status = 504 then .serviceUnavailable
  else .unknown

/-- `S3Storage.parse_error_response` -/
def s3ParseErrorResponse (status : Int) (body operation : ByteString) : Option StorageError :=
  let message :=
    if body.length > 0 then s3ExtractErrorMessage body else some (ascii "HTTP " ++ intStr status)
  message.map (fun message =>
    newStorageErrorWithStatus (kindOfStatus status) message (ascii "s3") operation status)

/-! ## Texts read back -/

def hasWord (lowerMsg : ByteString) (word : String) : Bool := containsStr lowerMsg (ascii word)

/-- The tests for errors that no retry helps. -/
def permanentKindOf (lowerMsg : ByteString) : StorageErrorKind :=
  let has := hasWord lowerMsg
  if has "invalid credentials" || has "401" || has "unauthorized" then .invalidCredentials
  else if has "access denied" || has "403" || has "forbidden" then .accessDenied
  else if has "bucket not found" || has "nosuchbucket" then .bucketNotFound
  else if has "not found" || has "404" || has "nosuchkey" then .objectNotFound
  else if has "invalid" && (has "key" || has "name") then .invalidObjectKey
  else if has "quota" || has "limit exceeded" then .quotaExceeded
  else if has "config" then .invalidConfig
  else .unknown

def detectErrorKindFromMessage (msg : ByteString) : StorageErrorKind :=
  let lowerMsg := toLower msg
  let has := hasWord lowerMsg
  if has "timeout" || has "timed out" then .networkTimeout
  else if has "service unavailable" || has "503" then .serviceUnavailable
  else if has "rate limit" || has "too many requests" || has "429" then .rateLimited
  else if has "connection reset" || has "connection refused" then .connectionReset
  else if has "temporary" || has "retry" then .temporaryFailure
  else permanentKindOf lowerMsg

/-- `s.int()` of digits and what may follow them; the library stops at the largest `int`. -/
def leadingInt (s : ByteString) : Int :=
  min ((readDecimal (s.takeWhile isDigitByte)).getD 0) (2 ^ 31 - 1)

def statusCodes : List Nat := [400, 401, 403, 404, 409, 413, 429, 500, 502, 503, 504]

def extractHttpStatusFromMessage (msg : ByteString) : Int :=
  match indexOf (ascii "http_status:") msg with
  | some statusIdx =>
    let start := statusIdx + 12
    let stop := spanEnd (fun b => isDigitByte b || b == 32) msg start msg.length
    leadingInt (trimSpace (slice msg start stop))
  | none => ((statusCodes.find? (fun code => containsStr msg (decimal code))).getD 0 : Nat)

def parseErrorMessage (errorMsg provider operation : ByteString) : StorageError where
  kind := detectErrorKindFromMessage errorMsg
  message := errorMsg
  provider := provider
  operation := operation
  httpStatus := extractHttpStatusFromMessage errorMsg

/-! ## Words that make a text retryable -/

def retryWords : List ByteString :=
  ["timeout", "timed out", "service unavailable", "503", "rate limit", "too many requests", "429",
    "connection reset", "connection refused", "temporary", "retry"].map ascii

/-- Does the text name something that is worth a retry? -/
def hinted (text : ByteString) : Bool := retryWords.any (containsStr (toLower text))

theorem isRetryable_permanentKindOf (lowerMsg : ByteString) :
    (permanentKindOf lowerMsg).isRetryable = false := by
  rw [permanentKindOf]
  repeat
    rw [apply_ite StorageErrorKind.isRetryable]
    refine ite_eq_iff'.mpr ⟨fun _ => rfl, fun _ => ?_⟩
  rfl

/-- A test for a retryable kind adds its words. -/
theorem isRetryable_ite {found rest : Bool} {kind other : StorageErrorKind}
    (hkind : kind.isRetryable = true) (hother : other.isRetryable = rest) :
    (if found = true then kind else other).isRetryable = (found || rest) := by
  cases found with
  | true => exact hkind
  | false => exact hother

/-- The kind that is read back is retryable if and only if the text says so. -/
theorem isRetryable_detect (msg : ByteString) :
    (detectErrorKindFromMessage msg).isRetryable = hinted msg := by
  have hrest := isRetryable_permanentKindOf (toLower msg)
  have hwords : hinted msg
      = ((hasWord (toLower msg) "timeout" || hasWord (toLower msg) "timed out") ||
        ((hasWord (toLower msg) "service unavailable" || hasWord (toLower msg) "503") ||
        ((hasWord (toLower msg) "rate limit" || hasWord (toLower msg) "too many requests" ||
          hasWord (toLower msg) "429") ||
        ((hasWord (toLower msg) "connection reset" || hasWord (toLower msg) "connection refused") ||
        ((hasWord (toLower msg) "temporary" || hasWord (toLower msg) "retry") || false))))) := by
    simp only [hinted, retryWords, hasWord, List.map_cons, List.map_nil, List.any_cons,
      List.any_nil, Bool.or_assoc]
  rw [hwords, detectErrorKindFromMessage]
  exact isRetryable_ite rfl (isRetryable_ite rfl (isRetryable_ite rfl
    (isRetryable_ite rfl (isRetryable_ite rfl hrest))))

theorem isRetryable_parse (msg provider operation : ByteString) :
    (parseErrorMessage msg provider operation).isRetryable = hinted msg :=
  isRetryable_detect msg

/-! ## The text of an error -/

theorem toLower_append (s t : ByteString) : toLower (s ++ t) = toLower s ++ toLower t :=
  List.map_append

/-- The bytes between the parts of an error's text. -/
def separators : List UInt8 := [byte '/', byte ':', byte '(', byte ',', byte ')']

theorem separator_spec : ∀ c ∈ separators, lowerByte c = c ∧ ∀ word ∈ retryWords, c ∉ word := by
  decide

theorem retryWords_spec :
    ∀ word ∈ retryWords, word ≠ [] ∧ word.head? ≠ some 32 ∧ word.getLast? ≠ some 32 := by
  decide

theorem hinted_iff {text : ByteString} :
    hinted text = true ↔ ∃ word ∈ retryWords, containsStr (toLower text) word = true :=
  List.any_eq_true

/-- No word goes across a separator. -/
theorem hinted_sep {c : UInt8} (hc : c ∈ separators) (s t : ByteString) :
    hinted (s ++ c :: t) = (hinted s || hinted t) := by
  obtain ⟨hlower, hnot⟩ := separator_spec c hc
  have hshape : toLower (s ++ c :: t) = toLower s ++ c :: toLower t := by
    rw [toLower_append]
    exact congrArg (fun b => toLower s ++ b :: toLower t) hlower
  have hword : ∀ word ∈ retryWords, containsStr (toLower (s ++ c :: t)) word
      = (containsStr (toLower s) word || containsStr (toLower t) word) := by
    intro word hmem
    rw [hshape]
    exact containsStr_sep (hnot word hmem) (retryWords_spec word hmem).1 _ _
  rw [Bool.eq_iff_iff, Bool.or_eq_true, hinted_iff, hinted_iff, hinted_iff]
  constructor
  · rintro ⟨word, hmem, h⟩
    rw [hword word hmem, Bool.or_eq_true] at h
    exact h.imp (fun h => ⟨word, hmem, h⟩) (fun h => ⟨word, hmem, h⟩)
  · rintro (⟨word, hmem, h⟩ | ⟨word, hmem, h⟩)
    · exact ⟨word, hmem, by rw [hword word hmem, h, Bool.true_or]⟩
    · exact ⟨word, hmem, by rw [hword word hmem, h, Bool.or_true]⟩

theorem hinted_congr {s t : ByteString}
    (h : ∀ word ∈ retryWords, containsStr (toLower s) word = containsStr (toLower t) word) :
    hinted s = hinted t := by
  rw [Bool.eq_iff_iff, hinted_iff, hinted_iff]
  exact exists_congr (fun word => and_congr_right (fun hmem => by rw [h word hmem]))

theorem hinted_space (s : ByteString) : hinted (32 :: s) = hinted s :=
  hinted_congr (fun word hmem =>
    containsStr_cons_ne (retryWords_spec word hmem).2.1 (retryWords_spec word hmem).1 _)

theorem hinted_concat_space (s : ByteString) : hinted (s ++ [32]) = hinted s := by
  refine hinted_congr (fun word hmem => ?_)
  rw [toLower_append]
  exact containsStr_concat_ne (retryWords_spec word hmem).2.2 (retryWords_spec word hmem).1 _

/-- The kinds whose own name is such a word. -/
theorem hinted_kind (kind : StorageErrorKind) :
    hinted kind.str = (kind = .networkTimeout || kind = .temporaryFailure) := by
  cases kind <;> decide

/-- The digits of a status that are taken for a retryable one. -/
def statusHint (status : Int) : Bool :=
  containsStr (intStr status) (ascii "503") || containsStr (intStr status) (ascii "429")

/-- Only two of the words are made of digits. -/
theorem retryWords_digits : retryWords.all (fun word =>
    word == ascii "503" || word == ascii "429" ||
      word.any (fun b => !(b == byte '-') && !isDigitByte b)) = true := by
  decide

theorem lowerByte_digit {b : UInt8} (h : isDigitByte b = true) : lowerByte b = b := by
  rw [isDigitByte, Bool.and_eq_true, decide_eq_true_eq, decide_eq_true_eq] at h
  exact if_neg (fun hupper => absurd (UInt8.le_trans hupper.1 h.2) (by decide))

theorem toLower_intStr (n : Int) : toLower (intStr n) = intStr n := by
  refine (List.map_congr_left (fun b hb => ?_)).trans (List.map_id _)
  rcases mem_intStr hb with rfl | hdigit
  · rfl
  · exact lowerByte_digit hdigit

theorem hinted_intStr (status : Int) : hinted (intStr status) = statusHint status := by
  have hlower := toLower_intStr status
  rw [Bool.eq_iff_iff, hinted_iff, hlower, statusHint, Bool.or_eq_true]
  constructor
  · rintro ⟨word, hmem, h⟩
    have hdigits := List.all_eq_true.mp retryWords_digits word hmem
    rw [Bool.or_eq_true, Bool.or_eq_true, beq_iff_eq, beq_iff_eq, List.any_eq_true] at hdigits
    rcases hdigits with (rfl | rfl) | ⟨b, hb, htest⟩
    · exact .inl h
    · exact .inr h
    rw [Bool.and_eq_true, Bool.not_eq_true', beq_eq_false_iff_ne, Bool.not_eq_true'] at htest
    have hnot : b ∉ intStr status := by
      intro hin
      rcases mem_intStr hin with hdash | hdigit
      · exact htest.1 hdash
      · rw [hdigit] at htest
        cases htest.2
    rw [not_containsStr_of_mem hb hnot] at h
    cases h
  · rintro (h | h)
    · exact ⟨_, by decide, h⟩
    · exact ⟨_, by decide, h⟩

/-- **THE TEXT.**  A word in the text of an error is in one of its parts. -/
theorem hinted_msg (e : StorageError) :
    hinted e.msg = (hinted e.provider || (hinted e.operation || (hinted e.message ||
      (hinted e.kind.str || statusHint e.httpStatus)))) := by
  have hshape : e.msg = e.provider ++ byte '/' :: (e.operation ++ byte ':' ::
      ((32 :: e.message ++ [32]) ++ byte '(' :: (ascii "kind" ++ byte ':' ::
        (32 :: e.kind.str ++ byte ',' :: (ascii " http_status" ++ byte ':' ::
          (32 :: intStr e.httpStatus ++ byte ')' :: [])))))) := by
    rw [StorageError.msg]
    simp [ascii, byte]
  rw [hshape, hinted_sep (c := byte '/') (by decide), hinted_sep (c := byte ':') (by decide),
    hinted_sep (c := byte '(') (by decide), hinted_sep (c := byte ':') (by decide),
    hinted_sep (c := byte ',') (by decide), hinted_sep (c := byte ':') (by decide),
    hinted_sep (c := byte ')') (by decide), hinted_concat_space, hinted_space, hinted_space, hinted_space,
    hinted_intStr]
  have hkind : hinted (ascii "kind") = false := by decide
  have hstatus : hinted (ascii " http_status") = false := by decide
  have hnil : hinted [] = false := by decide
  rw [hkind, hstatus, hnil, Bool.false_or, Bool.false_or, Bool.or_false]

/-! ## The executor -/

structure RetryAttempt where
  attemptNumber : Nat
  timestamp     : Int
  errorMessage  : ByteString
  delayMs       : Int

/-- An error with the attempts that came before it. -/
structure RetriedError where
  error        : StorageError
  retryHistory : List RetryAttempt

/-- `StorageError{}` -/
def noStorageError : RetriedError := ⟨newStorageError .networkTimeout [] [] [], []⟩

/-- `RetryResult[T]`; the zero value of `T` is none. -/
structure RetryResult (α : Type) where
  success      : Bool
  value        : Option α
  totalRetries : Int
  totalDelay   : Int
  finalError   : RetriedError
  history      : List RetryAttempt

section
variable {α : Type}

def newRetrySuccess (value : α) (totalRetries totalDelay : Int) (history : List RetryAttempt) :
    RetryResult α where
  success := true
  value := some value
  totalRetries := totalRetries
  totalDelay := totalDelay
  finalError := noStorageError
  history := history

def newRetryFailure (finalError : RetriedError) (totalRetries totalDelay : Int)
    (history : List RetryAttempt) : RetryResult α where
  success := false
  value := none
  totalRetries := totalRetries
  totalDelay := totalDelay
  finalError := finalError
  history := history

end

/-- The executor, with the delays that its configuration gives the attempts and the clock. -/
structure RetryExecutor where
  maxRetries     : Int
  calculateDelay : Nat → Int
  now            : Nat → Int

/-- What the loop carries from one attempt to the next. -/
structure RetryState where
  history    : List RetryAttempt
  totalDelay : Int
  lastError  : RetriedError

namespace RetryExecutor

variable {α β : Type} (r : RetryExecutor)

/-- A failure that may pass. -/
def record (st : RetryState) (attempt : Nat) (errorMsg : ByteString) (storageErr : StorageError) :
    RetryState :=
  if (attempt : Int) < r.maxRetries then
    { history := st.history ++ [⟨attempt + 1, r.now attempt, errorMsg, r.calculateDelay attempt⟩]
      totalDelay := wrapInt (st.totalDelay + r.calculateDelay attempt)
      lastError := ⟨storageErr, []⟩ }
  else { st with lastError := ⟨storageErr, []⟩ }

/-- The loop over the attempts that are left; `answer` is what is returned of a result.  The first
    component counts the calls. -/
def attempts (operation : Nat → Except ByteString α) (answer : α → β)
    (provider opName : ByteString) : Nat → Nat → RetryState → Nat × RetryResult β
  | 0, attempt, st =>
    (attempt, newRetryFailure { st.lastError with retryHistory := st.history } r.maxRetries
      st.totalDelay st.history)
  | left + 1, attempt, st =>
    match operation attempt with
    | .ok result =>
      (attempt + 1, newRetrySuccess (answer result) attempt st.totalDelay st.history)
    | .error errorMsg =>
      let storageErr := parseErrorMessage errorMsg provider opName
      if ¬ storageErr.isRetryable then
        (attempt + 1, newRetryFailure ⟨storageErr, []⟩ attempt st.totalDelay st.history)
      else attempts operation answer provider opName left (attempt + 1)
        (r.record st attempt errorMsg storageErr)

/-- `0 .. r.config.max_retries + 1` -/
def roundCount : Nat := (wrapInt (r.maxRetries + 1)).toNat

/-- `execute_bytes` and its siblings -/
def execute (operation : Nat → Except ByteString α) (answer : α → β)
    (provider opName : ByteString) : Nat × RetryResult β :=
  r.attempts operation answer provider opName r.roundCount 0 ⟨[], 0, noStorageError⟩

variable {r} {operation : Nat → Except ByteString α} {answer : α → β}
  {provider opName msg : ByteString}

/-- An operation that fails with a retryable text is called as often as it may be. -/
theorem attempts_retryable (hfail : ∀ n, operation n = .error msg) (h : hinted msg = true) :
    ∀ (left attempt : Nat) (st : RetryState),
      (r.attempts operation answer provider opName left attempt st).1 = attempt + left := by
  intro left
  induction left with
  | zero => intro attempt st; rfl
  | succ left ih =>
      intro attempt st
      have hkind : (parseErrorMessage msg provider opName).isRetryable = true :=
        (isRetryable_parse msg provider opName).trans h
      rw [attempts, hfail]
      dsimp only
      rw [if_neg (not_not.mpr hkind), ih]
      omega

/-- One that fails with another text is called once. -/
theorem attempts_permanent (hfail : ∀ n, operation n = .error msg) (h : hinted msg = false)
    (left attempt : Nat) (st : RetryState) :
    (r.attempts operation answer provider opName (left + 1) attempt st).1 = attempt + 1 := by
  have hkind : (parseErrorMessage msg provider opName).isRetryable = false :=
    (isRetryable_parse msg provider opName).trans h
  rw [attempts, hfail]
  dsimp only
  rw [if_pos (by rw [hkind]; exact Bool.false_ne_true)]

end RetryExecutor

/-! ## The round trip -/

/-- The error read back from the text is retryable if and only if the error is. -/
def StorageError.Survives (e : StorageError) : Prop :=
  ∀ provider operation,
    (parseErrorMessage e.msg provider operation).isRetryable = e.isRetryable

/-- An operation that keeps failing with the error is called again as long as it may be if the
    error is retryable, and never otherwise. -/
def StorageError.RetriedRightly (e : StorageError) : Prop :=
  ∀ (r : RetryExecutor) (provider opName : ByteString),
    (r.execute (fun _ => (.error e.msg : Except ByteString ByteString)) id provider opName).1
      = if e.isRetryable then r.roundCount else min 1 r.roundCount

/-- The error is retryable exactly if its text says so: by the name of its kind, by a word in a
    part, or by the digits of its status. -/
def StorageError.TextAgrees (e : StorageError) : Prop :=
  e.isRetryable = true ↔
    (e.kind = .networkTimeout ∨ e.kind = .temporaryFailure) ∨
      (hinted e.provider = true ∨ hinted e.operation = true ∨ hinted e.message = true) ∨
      statusHint e.httpStatus = true

theorem textAgrees_iff_hinted (e : StorageError) :
    e.TextAgrees ↔ hinted e.msg = e.isRetryable := by
  have hkind : hinted e.kind.str = true ↔ e.kind = .networkTimeout ∨ e.kind = .temporaryFailure := by
    rw [hinted_kind, Bool.or_eq_true, decide_eq_true_eq, decide_eq_true_eq]
  have hmsg : hinted e.msg = true ↔ (e.kind = .networkTimeout ∨ e.kind = .temporaryFailure) ∨
      (hinted e.provider = true ∨ hinted e.operation = true ∨ hinted e.message = true) ∨
      statusHint e.httpStatus = true := by
    rw [hinted_msg, Bool.or_eq_true, Bool.or_eq_true, Bool.or_eq_true, Bool.or_eq_true, hkind]
    constructor
    · rintro (h | h | h | h | h)
      · exact .inr (.inl (.inl h))
      · exact .inr (.inl (.inr (.inl h)))
      · exact .inr (.inl (.inr (.inr h)))
      · exact .inl h
      · exact .inr (.inr h)
    · rintro (h | (h | h | h) | h)
      · exact .inr (.inr (.inr (.inl h)))
      · exact .inl h
      · exact .inr (.inl h)
      · exact .inr (.inr (.inl h))
      · exact .inr (.inr (.inr (.inr h)))
  rw [StorageError.TextAgrees, ← hmsg]
  exact iff_comm.trans Bool.eq_iff_iff.symm

theorem survives_iff_hinted (e : StorageError) : e.Survives ↔ hinted e.msg = e.isRetryable := by
  constructor
  · intro h
    rw [← isRetryable_parse e.msg [] []]
    exact h [] []
  · intro h provider operation
    rw [isRetryable_parse]
    exact h

/-- What the executor does with the text of an error. -/
theorem execute_calls (r : RetryExecutor) (provider opName msg : ByteString) :
    (r.execute (fun _ => (.error msg : Except ByteString ByteString)) id provider opName).1
      = if hinted msg then r.roundCount else min 1 r.roundCount := by
  rw [RetryExecutor.execute]
  by_cases h : hinted msg = true
  · rw [if_pos h, RetryExecutor.attempts_retryable (fun _ => rfl) h, Nat.zero_add]
  · rw [if_neg h]
    cases r.roundCount with
    | zero => rfl
    | succ left =>
        rw [RetryExecutor.attempts_permanent (fun _ => rfl) (Bool.eq_false_iff.mpr h)]
        omega

theorem retriedRightly_iff_hinted (e : StorageError) :
    e.RetriedRightly ↔ hinted e.msg = e.isRetryable := by
  constructor
  · intro h
    have honce := h ⟨1, fun _ => 0, fun _ => 0⟩ [] []
    rw [execute_calls] at honce
    cases hm : hinted e.msg <;> cases hr : e.isRetryable <;> rw [hm, hr] at honce
    · exact absurd honce (by decide)
    · exact absurd honce (by decide)
  · intro h r provider opName
    rw [execute_calls, h]

/-- **THE ROUND TRIP.**  Read back from its text, an error is retryable as before, and retried
    accordingly, exactly if its text agrees with its kind. -/
theorem survives_iff (e : StorageError) :
    (e.Survives ↔ e.TextAgrees) ∧ (e.RetriedRightly ↔ e.TextAgrees) :=
  ⟨(survives_iff_hinted e).trans (textAgrees_iff_hinted e).symm,
    (retriedRightly_iff_hinted e).trans (textAgrees_iff_hinted e).symm⟩

/-- A response with the status 500 and no body is worth a retry and gets none. -/
theorem internal_error_not_retried :
    ¬ ∀ (status : Int) (body operation : ByteString) (e : StorageError),
      s3ParseErrorResponse status body operation = some e → e.Survives := by
  intro h
  have hsurvives := h 500 [] (ascii "upload") _ rfl
  exact absurd ((survives_iff_hinted _).mp hsurvives) (by decide +kernel)

end VHono
