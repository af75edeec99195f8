import VHono.ErrorClassification
import VHono.LocalStorage

/-! # Traces of the retry executor

    Five functions run an operation again while it fails with an error that
    may pass.  They are one loop, told here with its ints: the number of its
    rounds is an int too, one more than the retries that are allowed, and after
    the largest int comes the smallest.  What a run leaves behind does not
    depend on what the operation returns. -/

namespace VHono

open ByteString

namespace RetryExecutor

variable (r : RetryExecutor)

def executeBytes (operation : Nat → Except ByteString ByteString) (provider opName : ByteString) :
    Nat × RetryResult ByteString := r.execute operation id provider opName

def executeStorageResult (operation : Nat → Except ByteString StorageResult)
    (provider opName : ByteString) : Nat × RetryResult StorageResult :=
  r.execute operation id provider opName

def executeBool (operation : Nat → Except ByteString Bool) (provider opName : ByteString) :
    Nat × RetryResult Bool := r.execute operation id provider opName

/-- An operation without a result returns `true`. -/
def executeVoid (operation : Nat → Except ByteString Unit) (provider opName : ByteString) :
    Nat × RetryResult Bool := r.execute operation (fun _ => true) provider opName

def executeString (operation : Nat → Except ByteString ByteString) (provider opName : ByteString) :
    Nat × RetryResult ByteString := r.execute operation id provider opName

end RetryExecutor

/-! ## The failures that are retried -/

/-- A call that failed with an error that may pass. -/
def Retryable {α : Type} (provider opName : ByteString) : Except ByteString α → Bool
  | .ok _          => false
  | .error message => (parseErrorMessage message provider opName).isRetryable

/-- The text of the error that a call failed with. -/
def errorText {α : Type} : Except ByteString α → ByteString
  | .ok _          => []
  | .error message => message

section Retried

variable {α : Type} (r : RetryExecutor) (provider opName : ByteString)
  (outcomes : Nat → Except ByteString α)

/-- How many failures are retried: those before the first outcome that is final, and no more than
    the retries that are allowed. -/
def retriedFailures : Nat :=
  Nat.findGreatest (fun n => ∀ k < n, Retryable provider opName (outcomes k) = true)
    r.maxRetries.toNat

/-- The entry of a retried failure. -/
def retryEntry (k : Nat) : RetryAttempt :=
  ⟨k + 1, r.now k, errorText (outcomes k), r.calculateDelay k⟩

/-- The sum of the delays of the first attempts. -/
def delaySum (n : Nat) : Int := ((List.range n).map r.calculateDelay).sum

/-- The calls end after `n` failures that are retried. -/
structure EndsAfter (n : Nat) : Prop where
  bound   : (n : Int) ≤ r.maxRetries
  retried : ∀ k < n, Retryable provider opName (outcomes k) = true
  final   : (n : Int) = r.maxRetries ∨ Retryable provider opName (outcomes n) = false

/-- What the loop carries into the call after `n` failures. -/
def stateAfter (n : Nat) : RetryState where
  history    := (List.range n).map (retryEntry r outcomes)
  totalDelay := wrapInt (delaySum r n)
  lastError  :=
    if n = 0 then noStorageError
    else ⟨parseErrorMessage (errorText (outcomes (n - 1))) provider opName, []⟩

/-- What is returned after `n` failures that were retried. -/
def reportAfter {β : Type} (answer : α → β) (n : Nat) : RetryResult β :=
  let history := (List.range n).map (retryEntry r outcomes)
  let totalDelay := wrapInt (delaySum r n)
  match outcomes n with
  | .ok result => newRetrySuccess (answer result) n totalDelay history
  | .error message =>
    let storageErr := parseErrorMessage message provider opName
    newRetryFailure ⟨storageErr, if storageErr.isRetryable then history else []⟩ n totalDelay
      history

end Retried

section

variable {α β : Type} {r : RetryExecutor} {provider opName : ByteString}
  {outcomes : Nat → Except ByteString α}

theorem retriedFailures_endsAfter (h : 0 ≤ r.maxRetries) :
    EndsAfter r provider opName outcomes (retriedFailures r provider opName outcomes) := by
  have hbound := Nat.findGreatest_le
    (P := fun n => ∀ k < n, Retryable provider opName (outcomes k) = true) r.maxRetries.toNat
  have hretried := Nat.findGreatest_spec
    (P := fun n => ∀ k < n, Retryable provider opName (outcomes k) = true)
    (Nat.zero_le r.maxRetries.toNat) (fun k hk => absurd hk (Nat.not_lt_zero k))
  rw [← retriedFailures] at hbound hretried
  refine ⟨by omega, hretried, ?_⟩
  rcases Nat.lt_or_eq_of_le hbound with hlt | heq
  · refine Or.inr (Bool.eq_false_iff.mpr fun hnext => ?_)
    have hmore : retriedFailures r provider opName outcomes + 1
        ≤ retriedFailures r provider opName outcomes := by
      refine Nat.le_findGreatest hlt fun k hk => ?_
      rcases Nat.lt_succ_iff_lt_or_eq.mp hk with hbefore | rfl
      · exact hretried k hbefore
      · exact hnext
    exact absurd hmore (Nat.not_succ_le_self _)
  · exact Or.inl (by omega)

/-- The calls end at one place only. -/
theorem EndsAfter.unique {n m : Nat} (hn : EndsAfter r provider opName outcomes n)
    (hm : EndsAfter r provider opName outcomes m) : n = m := by
  rcases Nat.lt_trichotomy n m with hlt | heq | hlt
  · rcases hn.final with hlast | hstop
    · have := hm.bound
      omega
    · exact absurd (hm.retried n hlt) (by rw [hstop]; decide)
  · exact heq
  · rcases hm.final with hlast | hstop
    · have := hn.bound
      omega
    · exact absurd (hn.retried m hlt) (by rw [hstop]; decide)

theorem delaySum_succ (n : Nat) : delaySum r (n + 1) = delaySum r n + r.calculateDelay n := by
  rw [delaySum, List.range_succ, List.map_append, List.sum_append]
  exact congrArg _ (List.sum_singleton)

theorem wrapInt_add (n m : Int) : wrapInt (wrapInt n + m) = wrapInt (n + m) :=
  Int.bmod_add_bmod

/-- One failure that may pass, with retries left. -/
theorem record_stateAfter {n : Nat} {message : ByteString} (hlt : (n : Int) < r.maxRetries)
    (hmessage : outcomes n = .error message) :
    r.record (stateAfter r provider opName outcomes n) n message
        (parseErrorMessage message provider opName)
      = stateAfter r provider opName outcomes (n + 1) := by
  rw [RetryExecutor.record, if_pos hlt, stateAfter, stateAfter, if_neg (Nat.succ_ne_zero n),
    Nat.add_sub_cancel, hmessage, List.range_succ, List.map_append, delaySum_succ]
  congr 1
  · rw [List.map_singleton, retryEntry, hmessage]
    rfl
  · exact wrapInt_add _ _

/-- By induction on the rounds that are left. -/
theorem attempts_stateAfter (answer : α → β) {n : Nat}
    (h : EndsAfter r provider opName outcomes n) :
    ∀ {left attempt : Nat}, attempt ≤ n → (left + attempt : Int) = r.maxRetries + 1 →
      r.attempts outcomes answer provider opName left attempt
          (stateAfter r provider opName outcomes attempt)
        = (n + 1, reportAfter r provider opName outcomes answer n) := by
  intro left
  induction left with
  | zero =>
      intro attempt hle hrounds
      have := h.bound
      omega
  | succ left ih =>
      intro attempt hle hrounds
      rw [RetryExecutor.attempts]
      rcases Nat.lt_or_eq_of_le hle with hlt | rfl
      · have hretry := h.retried attempt hlt
        have hbound := h.bound
        cases hcall : outcomes attempt with
        | ok result =>
            rw [hcall] at hretry
            exact absurd hretry Bool.false_ne_true
        | error message =>
            rw [hcall, Retryable] at hretry
            dsimp only
            rw [if_neg (not_not_intro hretry), record_stateAfter (by omega) hcall]
            exact ih hlt (by omega)
      · rw [reportAfter]
        cases hcall : outcomes attempt with
        | ok result => rfl
        | error message =>
            dsimp only
            cases hretry : (parseErrorMessage message provider opName).isRetryable with
            | false => rfl
            | true =>
                have hlast : (attempt : Int) = r.maxRetries := by
                  rcases h.final with hlast | hstop
                  · exact hlast
                  · rw [hcall] at hstop
                    exact absurd (hstop.symm.trans hretry) Bool.false_ne_true
                have hnone : left = 0 := by omega
                subst hnone
                rw [if_neg (not_not_intro rfl), if_pos rfl, RetryExecutor.attempts,
                  RetryExecutor.record, if_neg (by omega), ← hlast]
                rfl

end

/-! ## What the executor promises -/

/-- What a run leaves behind beside the value. -/
def traceOf {α : Type} (run : Nat × RetryResult α) : Nat × RetryResult Unit :=
  (run.1, { success := run.2.success
            value := run.2.value.map (fun _ => ())
            totalRetries := run.2.totalRetries
            totalDelay := run.2.totalDelay
            finalError := run.2.finalError
            history := run.2.history })

/-- The run makes its calls until the first outcome that is final, returns that outcome, and
    records the failures before it. -/
structure FollowsOutcomes {α β : Type} (r : RetryExecutor) (provider opName : ByteString)
    (outcomes : Nat → Except ByteString α) (answer : α → β) (run : Nat × RetryResult β) : Prop where
  called   : 0 < run.1 ∧ (run.1 : Int) ≤ r.maxRetries + 1
  retried  : ∀ k < run.1 - 1, Retryable provider opName (outcomes k) = true
  final    : (run.1 : Int) = r.maxRetries + 1
    ∨ Retryable provider opName (outcomes (run.1 - 1)) = false
  returned : ∀ result, outcomes (run.1 - 1) = .ok result →
    run.2.success = true ∧ run.2.value = some (answer result)
  failed   : ∀ message, outcomes (run.1 - 1) = .error message →
    run.2.success = false ∧ run.2.finalError.error = parseErrorMessage message provider opName
  recorded : run.2.history = (List.range (run.1 - 1)).map (retryEntry r outcomes)
  total    : run.2.totalDelay = (run.2.history.map RetryAttempt.delayMs).sum

/-- The results of one call, of every kind that an operation may have. -/
structure CallValues where
  bytes         : ByteString
  storageResult : StorageResult
  bool          : Bool
  string        : ByteString

/-- Each of the five functions follows the outcomes of its calls, and they leave the same trace. -/
structure ExecutorKept (r : RetryExecutor) (provider opName : ByteString)
    (outcomes : Nat → Except ByteString CallValues) : Prop where
  bytes : FollowsOutcomes r provider opName outcomes CallValues.bytes
    (r.executeBytes (fun k => (outcomes k).map CallValues.bytes) provider opName)
  storageResult : FollowsOutcomes r provider opName outcomes CallValues.storageResult
    (r.executeStorageResult (fun k => (outcomes k).map CallValues.storageResult) provider opName)
  bool : FollowsOutcomes r provider opName outcomes CallValues.bool
    (r.executeBool (fun k => (outcomes k).map CallValues.bool) provider opName)
  void : FollowsOutcomes r provider opName outcomes (fun _ => true)
    (r.executeVoid (fun k => (outcomes k).map (fun _ => ())) provider opName)
  string : FollowsOutcomes r provider opName outcomes CallValues.string
    (r.executeString (fun k => (outcomes k).map CallValues.string) provider opName)
  sameTrace :
    let trace := traceOf
      (r.executeBytes (fun k => (outcomes k).map CallValues.bytes) provider opName)
    traceOf (r.executeStorageResult (fun k => (outcomes k).map CallValues.storageResult) provider
        opName) = trace
      ∧ traceOf (r.executeBool (fun k => (outcomes k).map CallValues.bool) provider opName) = trace
      ∧ traceOf (r.executeVoid (fun k => (outcomes k).map (fun _ => ())) provider opName) = trace
      ∧ traceOf (r.executeString (fun k => (outcomes k).map CallValues.string) provider opName)
        = trace

section

variable {α β γ : Type} {r : RetryExecutor} {provider opName : ByteString}
  {outcomes : Nat → Except ByteString γ}

/-- What is read of a result does not matter to the rounds. -/
theorem attempts_map (f : γ → α) (answer : α → β) :
    ∀ (left attempt : Nat) (st : RetryState),
      r.attempts (fun k => (outcomes k).map f) answer provider opName left attempt st
        = r.attempts outcomes (answer ∘ f) provider opName left attempt st := by
  intro left
  induction left with
  | zero => exact fun _ _ => rfl
  | succ left ih =>
      intro attempt st
      rw [RetryExecutor.attempts, RetryExecutor.attempts]
      cases outcomes attempt with
      | ok result => rfl
      | error message =>
          dsimp only [Except.map]
          split
          · rfl
          · exact ih _ _

/-- The trace depends on which calls succeed and on the texts of the errors only. -/
theorem traceOf_attempts (answer : γ → α) (answer' : γ → β) :
    ∀ (left attempt : Nat) (st : RetryState),
      traceOf (r.attempts outcomes answer provider opName left attempt st)
        = traceOf (r.attempts outcomes answer' provider opName left attempt st) := by
  intro left
  induction left with
  | zero => exact fun _ _ => rfl
  | succ left ih =>
      intro attempt st
      rw [RetryExecutor.attempts, RetryExecutor.attempts]
      cases outcomes attempt with
      | ok result => rfl
      | error message =>
          dsimp only
          split
          · rfl
          · exact ih _ _

theorem execute_map (f : γ → α) (answer : α → β) :
    r.execute (fun k => (outcomes k).map f) answer provider opName
      = r.execute outcomes (answer ∘ f) provider opName :=
  attempts_map f answer _ _ _

/-- The number of rounds is an int. -/
theorem roundCount_eq (h : 0 ≤ r.maxRetries) (hint : r.maxRetries < 2 ^ 31 - 1) :
    (r.roundCount : Int) = r.maxRetries + 1 := by
  rw [RetryExecutor.roundCount, wrapInt_eq (by omega) (by omega)]
  omega

/-- One more than the largest int is negative. -/
theorem roundCount_largest (h : r.maxRetries = 2 ^ 31 - 1) : r.roundCount = 0 := by
  rw [RetryExecutor.roundCount, h]
  decide

/-- Everything a run returns. -/
theorem execute_eq (answer : γ → β) {n : Nat} (h : EndsAfter r provider opName outcomes n)
    (hint : r.maxRetries < 2 ^ 31 - 1) :
    r.execute outcomes answer provider opName
      = (n + 1, reportAfter r provider opName outcomes answer n) := by
  have hbound := h.bound
  have hrounds := roundCount_eq (r := r) (by omega) hint
  exact attempts_stateAfter answer h (Nat.zero_le n) (by omega)

section Report

variable {answer : γ → β} {n : Nat}

@[simp] theorem reportAfter_history :
    (reportAfter r provider opName outcomes answer n).history
      = (List.range n).map (retryEntry r outcomes) := by
  rw [reportAfter]
  cases outcomes n <;> rfl

@[simp] theorem reportAfter_totalDelay :
    (reportAfter r provider opName outcomes answer n).totalDelay = wrapInt (delaySum r n) := by
  rw [reportAfter]
  cases outcomes n <;> rfl

theorem historyDelays_eq :
    (((List.range n).map (retryEntry r outcomes)).map RetryAttempt.delayMs).sum = delaySum r n := by
  rw [List.map_map]
  rfl

end Report

/-- A run that ends within the ints follows its outcomes if the total of the delays is an int. -/
theorem execute_follows_iff (answer : γ → β) {n : Nat}
    (h : EndsAfter r provider opName outcomes n) (hint : r.maxRetries < 2 ^ 31 - 1) :
    FollowsOutcomes r provider opName outcomes answer (r.execute outcomes answer provider opName)
      ↔ -2 ^ 31 ≤ delaySum r n ∧ delaySum r n < 2 ^ 31 := by
  rw [execute_eq answer h hint]
  constructor
  · intro hfollows
    have htotal := hfollows.total
    rw [reportAfter_totalDelay, reportAfter_history, historyDelays_eq] at htotal
    have hlow := Int.le_bmod (x := delaySum r n) (m := 2 ^ 32) (by omega)
    have hhigh := Int.bmod_lt (x := delaySum r n) (m := 2 ^ 32) (by omega)
    rw [wrapInt] at htotal
    omega
  · intro hsum
    have hbound := h.bound
    refine ⟨⟨Nat.succ_pos n, by dsimp only; omega⟩, h.retried, ?_, ?_, ?_, reportAfter_history, ?_⟩
    · refine h.final.imp (fun hlast => ?_) id
      dsimp only
      omega
    · intro result hcall
      rw [Nat.add_sub_cancel] at hcall
      rw [reportAfter, hcall]
      exact ⟨rfl, rfl⟩
    · intro message hcall
      rw [Nat.add_sub_cancel] at hcall
      rw [reportAfter, hcall]
      exact ⟨rfl, rfl⟩
    · rw [reportAfter_totalDelay, reportAfter_history, historyDelays_eq,
        wrapInt_eq hsum.1 hsum.2]

end

/-- With no rounds nothing is called. -/
theorem not_follows_largest {β γ : Type} {r : RetryExecutor} {provider opName : ByteString}
    {outcomes : Nat → Except ByteString γ} (answer : γ → β) (h : r.maxRetries = 2 ^ 31 - 1) :
    ¬ FollowsOutcomes r provider opName outcomes answer
      (r.execute outcomes answer provider opName) := by
  intro hfollows
  have hcalled := hfollows.called.1
  rw [RetryExecutor.execute, roundCount_largest h] at hcalled
  exact absurd hcalled (Nat.lt_irrefl 0)

/-- The executor keeps what it promises where one more than its retries is an int and the delays of
    the failures that are retried add up to an int. -/
theorem executorKept_iff (r : RetryExecutor) (provider opName : ByteString)
    (outcomes : Nat → Except ByteString CallValues) (h : 0 ≤ r.maxRetries)
    (hint : r.maxRetries < 2 ^ 31) :
    ExecutorKept r provider opName outcomes
      ↔ r.maxRetries ≠ 2 ^ 31 - 1
        ∧ -2 ^ 31 ≤ delaySum r (retriedFailures r provider opName outcomes)
        ∧ delaySum r (retriedFailures r provider opName outcomes) < 2 ^ 31 := by
  have hends : EndsAfter r provider opName outcomes
      (retriedFailures r provider opName outcomes) := retriedFailures_endsAfter h
  constructor
  · intro hkept
    have hbytes := hkept.bytes
    rw [RetryExecutor.executeBytes, execute_map] at hbytes
    have hlargest : r.maxRetries ≠ 2 ^ 31 - 1 :=
      fun heq => not_follows_largest _ heq hbytes
    exact ⟨hlargest, (execute_follows_iff _ hends (by omega)).mp hbytes⟩
  · rintro ⟨hlargest, hsum⟩
    have hfollows : ∀ {β : Type} (answer : CallValues → β),
        FollowsOutcomes r provider opName outcomes answer
          (r.execute outcomes answer provider opName) :=
      fun answer => (execute_follows_iff answer hends (by omega)).mpr hsum
    have htrace : ∀ {β : Type} (answer : CallValues → β),
        traceOf (r.execute outcomes answer provider opName)
          = traceOf (r.execute outcomes CallValues.bytes provider opName) :=
      fun answer => traceOf_attempts _ _ _ _ _
    constructor <;>
      simp only [RetryExecutor.executeBytes, RetryExecutor.executeStorageResult,
        RetryExecutor.executeBool, RetryExecutor.executeVoid, RetryExecutor.executeString,
        execute_map, Function.id_comp]
    · exact hfollows _
    · exact hfollows _
    · exact hfollows _
    · exact hfollows _
    · exact hfollows _
    · exact ⟨htrace _, htrace _, htrace _, htrace _⟩

/-- Calls that time out twice, and what the operation then returns. -/
def secondTimeout (k : Nat) : Except ByteString CallValues :=
  if k < 2 then .error (ascii "connection timeout")
  else .ok ⟨ascii "data", ⟨ascii "key", [], 4⟩, true, ascii "data"⟩

theorem executorKept_secondTimeout :
    ExecutorKept ⟨3, fun k => 1000 * 2 ^ k, fun _ => 0⟩ (ascii "s3") (ascii "upload")
      secondTimeout := by
  refine (executorKept_iff _ _ _ _ (by decide) (by decide)).mpr ?_
  rw [(retriedFailures_endsAfter (by decide)).unique (m := 2)
    ⟨by decide, by decide +kernel, Or.inr rfl⟩]
  decide

/-- One more than the largest number of retries is no round at all. -/
theorem largest_retries_no_call :
    ¬ ∀ (r : RetryExecutor) (provider opName : ByteString)
      (outcomes : Nat → Except ByteString CallValues), 0 ≤ r.maxRetries → r.maxRetries < 2 ^ 31 →
        ExecutorKept r provider opName outcomes := by
  intro h
  have hkept := h ⟨2147483647, fun _ => 0, fun _ => 0⟩ [] [] secondTimeout (by decide) (by decide)
  exact absurd hkept.bytes.called.1 (by decide)

end VHono
