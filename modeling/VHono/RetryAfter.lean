import VHono.RateWindows

/-! # How long a limited request waits

    A limited request is told when to come back in two headers, both in whole
    seconds.  The seconds are rounded down, so the first request that comes
    when a header says may still be in the window.  It is admitted exactly if
    there is nothing to round: the window is over on a full second, and the
    wait is one of full seconds.

    The count of a key wraps around behind its last value; the one request in
    which it does so is admitted in any window. -/

namespace VHono

open ByteString MachineRuns

/-- What happens to the store after a limited request: requests of any key, and sweeps. -/
inductive LimiterCall
  | request (r : RateRequest)
  | sweep (now : Int64)

def LimiterCall.time : LimiterCall → Int64
  | .request r => r.now
  | .sweep now => now

namespace RateLimitOptions

variable (options : RateLimitOptions)

def skips (c : Context) : Bool :=
  match options.skip with
  | some skipFn => skipFn c
  | none => false

/-- The entry of the key of a request, with the request counted. -/
def entryAfter (store : MemoryStore) (r : RateRequest) : RateLimitEntry :=
  MemoryStore.counted (store.live r.now (options.keyOf r)) options.windowMs r.now

/-- The store after a call. -/
def afterCall (store : MemoryStore) : LimiterCall → MemoryStore
  | .request r => (options.step store r).1
  | .sweep now => store.cleanupExpired now

def afterCalls (store : MemoryStore) (calls : List LimiterCall) : MemoryStore :=
  calls.foldl options.afterCall store

/-- From a time on, the first request of the key that is not before the deadline is admitted,
    whatever comes before it. -/
def AdmitsFrom (store : MemoryStore) (start : Int64) (key : ByteString) (deadline : Int) : Prop :=
  ∀ (calls : List LimiterCall) (r : RateRequest),
    (start :: (calls.map LimiterCall.time ++ [r.now])).Pairwise (· ≤ ·) →
    (∀ q, LimiterCall.request q ∈ calls → options.keyOf q = key → q.now.toInt < deadline) →
    options.keyOf r = key → deadline ≤ r.now.toInt →
    (options.step (options.afterCalls store calls) r).2.admits = true

/-- The context of the answer to a request; `later` is the clock when the answer is built. -/
def answerContext (store : MemoryStore) (next : Context → HttpResponse × Context)
    (r : RateRequest) (later : Int64) : Context :=
  (rateLimit options store r.context next r.now later).2.2

/-- Both headers of a limited request say when its key is admitted again. -/
structure RetrySuffices (store : MemoryStore) (next : Context → HttpResponse × Context)
    (r : RateRequest) (later : Int64) : Prop where
  retryAfter : ∃ s : Int,
    (options.answerContext store next r later).headers.get? (ascii "Retry-After")
      = some (intStr s) ∧
    options.AdmitsFrom (options.step store r).1 later (options.keyOf r) (r.now.toInt + 1000 * s)
  reset      : options.headers = true → ∃ s : Int,
    (options.answerContext store next r later).headers.get? (ascii "X-RateLimit-Reset")
      = some (intStr s) ∧
    options.AdmitsFrom (options.step store r).1 later (options.keyOf r) (1000 * s)

/-- The deadline is the end of the window, or it has passed when the count is at its last
    value. -/
def Reached (entry : RateLimitEntry) (later : Int64) (deadline : Int) : Prop :=
  deadline = entry.resetAt.toInt ∨ (entry.count = Int32.maxValue ∧ deadline ≤ later.toInt)

variable {options}

/-! ## One request -/

theorem step_skipped {store : MemoryStore} {r : RateRequest}
    (h : options.skips r.context = true) : options.step store r = (store, .next r.context) := by
  rw [step, rateLimitExit]
  exact if_pos h

/-- The context that a request leaves with. -/
def headered (options : RateLimitOptions) (c : Context) (entry : RateLimitEntry) : Context :=
  if options.headers = true then
    setRateLimitHeaders c options.limit
      (if entry.count > options.limit then 0 else options.limit - entry.count) entry.resetAt
  else c

/-- A request that is not skipped writes its entry, and the count decides. -/
theorem step_counted {store : MemoryStore} {r : RateRequest}
    (h : options.skips r.context = false) :
    options.step store r =
      (⟨store.data.insert (options.keyOf r) (options.entryAfter store r)⟩,
        if (options.entryAfter store r).count > options.limit then
          .exceeded (options.headered r.context (options.entryAfter store r))
            ⟨options.limit, 0, (options.entryAfter store r).resetAt⟩
        else .next (options.headered r.context (options.entryAfter store r))) := by
  have hskip : ¬ options.skips r.context = true := by
    rw [h]
    exact Bool.false_ne_true
  rw [step, rateLimitExit]
  refine (if_neg hskip).trans ?_
  dsimp only
  rw [store.increment_eq]
  dsimp only
  by_cases hover : (options.entryAfter store r).count > options.limit
  · rw [if_pos hover]
    exact if_pos hover
  · rw [if_neg hover]
    exact if_neg hover

theorem admits_step {store : MemoryStore} {r : RateRequest} :
    (options.step store r).2.admits = true ↔
      options.skips r.context = true ∨ ¬ (options.entryAfter store r).count > options.limit := by
  by_cases hskip : options.skips r.context = true
  · rw [step_skipped hskip]
    exact iff_of_true rfl (.inl hskip)
  · rw [step_counted (Bool.not_eq_true _ ▸ hskip), or_iff_right hskip]
    by_cases hover : (options.entryAfter store r).count > options.limit
    · rw [if_pos hover]
      exact iff_of_false Bool.false_ne_true (fun hle => hle hover)
    · rw [if_neg hover]
      exact iff_of_true rfl hover

theorem getEntry_step {store : MemoryStore} {r : RateRequest}
    (h : options.skips r.context = false) (key : ByteString) :
    (options.step store r).1.getEntry key =
      if key = options.keyOf r then some (options.entryAfter store r) else store.getEntry key := by
  rw [step_counted h]
  exact InsertionMap.get?_insert _ _ _ _

/-- In the window of its key a request counts on. -/
theorem entryAfter_live {store : MemoryStore} {r : RateRequest} {entry : RateLimitEntry}
    (hentry : store.getEntry (options.keyOf r) = some entry) (hlive : r.now < entry.resetAt) :
    options.entryAfter store r = { entry with count := entry.count + 1 } := by
  have hstored : (some entry).filter (fun entry => decide (r.now < entry.resetAt)) = some entry :=
    Option.filter_some_pos (decide_eq_true hlive)
  rw [entryAfter, MemoryStore.live, hentry, hstored]
  rfl

/-- Behind the window it begins anew. -/
theorem entryAfter_over {store : MemoryStore} {r : RateRequest}
    (hover : ∀ entry, store.getEntry (options.keyOf r) = some entry → entry.resetAt ≤ r.now) :
    options.entryAfter store r = ⟨1, r.now + options.windowMs⟩ := by
  have hlive : store.live r.now (options.keyOf r) = none := by
    refine Option.filter_eq_none_iff.mpr (fun entry hentry => ?_)
    exact fun hlt => Int64.lt_irrefl (Int64.lt_of_lt_of_le (of_decide_eq_true hlt)
      (hover entry hentry))
  rw [entryAfter, hlive]
  rfl

/-! ## Runs of calls -/

/-- The window of the key is as it was, with a count that is one of those given, or it is over
    and its entry swept away. -/
def Kept (key : ByteString) (counts : Int32 → Prop) (resetAt : Int64) (t : Int64)
    (store : MemoryStore) : Prop :=
  (∃ count, counts count ∧ store.getEntry key = some ⟨count, resetAt⟩) ∨
    (store.getEntry key = none ∧ resetAt ≤ t)

variable {key : ByteString} {counts : Int32 → Prop} {resetAt t : Int64} {store : MemoryStore}

theorem Kept.mono (h : Kept key counts resetAt t store) {t' : Int64} (hle : t ≤ t') :
    Kept key counts resetAt t' store :=
  h.imp_right (fun hswept => ⟨hswept.1, Int64.le_trans hswept.2 hle⟩)

/-- What one call does to the window. -/
theorem Kept.call (h : Kept key counts resetAt t store) {call : LimiterCall}
    (hclock : t ≤ call.time)
    (hcall : ∀ q, call = .request q → options.keyOf q = key →
      q.now < resetAt ∧ ∀ count, counts count → counts (count + 1)) :
    Kept key counts resetAt call.time (options.afterCall store call) := by
  cases call with
  | request q =>
      show Kept key counts resetAt q.now (options.step store q).1
      by_cases hskip : options.skips q.context = true
      · rw [step_skipped hskip]
        exact h.mono hclock
      · have hentry : (options.step store q).1.getEntry key = _ :=
          getEntry_step (Bool.not_eq_true _ ▸ hskip) key
        by_cases hkey : key = options.keyOf q
        · obtain ⟨hbefore, hcounts⟩ := hcall q rfl hkey.symm
          rw [if_pos hkey] at hentry
          rcases h with ⟨count, hcount, hstored⟩ | ⟨-, hover⟩
          · rw [hkey] at hstored
            rw [entryAfter_live hstored hbefore] at hentry
            exact .inl ⟨count + 1, hcounts count hcount, hentry⟩
          · -- a window that is over has no request before its end
            exact absurd (Int64.lt_of_lt_of_le hbefore hover)
              (Int64.not_lt.mpr hclock)
        · rw [if_neg hkey] at hentry
          rw [Kept, hentry]
          exact h.mono hclock
  | sweep now =>
      show Kept key counts resetAt now (store.cleanupExpired now)
      rw [Kept, MemoryStore.getEntry_cleanupExpired, MemoryStore.live]
      rcases h.mono hclock with ⟨count, hcount, hstored⟩ | ⟨hnone, hover⟩
      · rw [hstored]
        by_cases hlive : now < resetAt
        · exact .inl ⟨count, hcount, Option.filter_some_pos (decide_eq_true hlive)⟩
        · exact .inr ⟨Option.filter_some_neg (decide_eq_false hlive), Int64.not_lt.mp hlive⟩
      · rw [hnone]
        exact .inr ⟨rfl, hover⟩

/-- What a run of calls does to the window, up to a time that is not before them. -/
theorem Kept.run {calls : List LimiterCall} (h : Kept key counts resetAt t store) {u : Int64}
    (hclock : (t :: (calls.map LimiterCall.time ++ [u])).Pairwise (· ≤ ·))
    (hcalls : ∀ q, LimiterCall.request q ∈ calls → options.keyOf q = key →
      q.now < resetAt ∧ ∀ count, counts count → counts (count + 1)) :
    Kept key counts resetAt u (options.afterCalls store calls) := by
  induction calls generalizing store t with
  | nil => exact h.mono ((List.pairwise_cons.mp hclock).1 u (List.mem_singleton_self u))
  | cons call calls ih =>
      obtain ⟨hfirst, hrest⟩ := List.pairwise_cons.mp hclock
      have hcall := h.call (hfirst _ (List.mem_cons_self ..)) (fun q hq hkey =>
        hcalls q (hq ▸ List.mem_cons_self ..) hkey)
      exact ih hcall hrest (fun q hq => hcalls q (List.mem_cons_of_mem _ hq))

/-- Who comes behind the window is admitted, and who makes a count that the limit allows. -/
theorem Kept.admits (h : Kept key counts resetAt t store) {r : RateRequest}
    (hclock : t ≤ r.now) (hkey : options.keyOf r = key) (hlimit : 1 ≤ options.limit)
    (hadmitted : resetAt ≤ r.now ∨ ∀ count, counts count → ¬ count + 1 > options.limit) :
    (options.step store r).2.admits = true := by
  subst hkey
  have hone : ¬ (1 : Int32) > options.limit := Int32.not_lt.mpr hlimit
  refine admits_step.mpr (.inr ?_)
  by_cases hlive : r.now < resetAt
  · rcases h with ⟨count, hcount, hstored⟩ | ⟨-, hover⟩
    · rw [entryAfter_live hstored hlive]
      refine hadmitted.resolve_left (fun hle => ?_) count hcount
      exact Int64.lt_irrefl (Int64.lt_of_lt_of_le hlive hle)
    · exact absurd (Int64.lt_of_le_of_lt (Int64.le_trans hover hclock) hlive) Int64.lt_irrefl
  · rw [entryAfter_over]
    · exact hone
    · intro entry hentry
      rcases h with ⟨count, -, hstored⟩ | ⟨hnone, -⟩
      · obtain rfl := Option.some.inj (hstored.symm.trans hentry)
        exact Int64.not_lt.mp hlive
      · rw [hnone] at hentry
        cases hentry

/-! ## The deadline -/

theorem lt_succ {n : Int32} (h : n ≠ Int32.maxValue) : n < n + 1 := by
  have hmax : Int32.maxValue.toInt = 2 ^ 31 - 1 := by decide
  have hone : (1 : Int32).toInt = 1 := by decide
  have hne : n.toInt ≠ Int32.maxValue.toInt := fun heq => h (Int32.toInt_inj.mp heq)
  have hlow := Int32.le_toInt n
  have hhigh := Int32.toInt_le n
  rw [Int32.lt_iff_toInt_lt, Int32.toInt_add, hone, Int.bmod_eq_of_le (by omega) (by omega)]
  omega

/-- Every count is reached from every other. -/
theorem exists_steps (n m : Int32) : ∃ k : Nat, n + Int32.ofNat k = m := by
  refine ⟨(m - n).toBitVec.toNat, ?_⟩
  rw [Int32.ofNat_bitVecToNat, Int32.ofBitVec_toBitVec]
  grind

/-- Requests of the key in its window, one after another. -/
theorem getEntry_repeated {r : RateRequest} {entry : RateLimitEntry}
    (hskip : options.skips r.context = false) (hlive : r.now < entry.resetAt) (n : Nat) :
    ∀ (store : MemoryStore) (count : Int32),
      store.getEntry (options.keyOf r) = some { entry with count := count } →
      (options.afterCalls store (List.replicate n (.request r))).getEntry (options.keyOf r)
        = some { entry with count := count + Int32.ofNat n } := by
  induction n with
  | zero =>
      intro store count hentry
      rw [show count + Int32.ofNat 0 = count from Int32.add_zero count]
      exact hentry
  | succ n ih =>
      intro store count hentry
      have hstep : (options.step store r).1.getEntry (options.keyOf r) = _ :=
        getEntry_step hskip (options.keyOf r)
      rw [if_pos rfl, entryAfter_live hentry hlive] at hstep
      have hrest := ih (options.step store r).1 (count + 1) hstep
      rw [show count + Int32.ofNat (n + 1) = count + 1 + Int32.ofNat n by
        rw [Int32.ofNat_add]; grind]
      exact hrest

/-- A deadline that is the end of the window admits, and so does one that has passed when the
    count wraps around. -/
theorem admitsFrom_of_reached {start : Int64} {entry : RateLimitEntry} {deadline : Int}
    (hentry : store.getEntry key = some entry) (hlimit : 1 ≤ options.limit)
    (hreached : Reached entry start deadline) :
    options.AdmitsFrom store start key deadline := by
  intro calls r hclock hcalls hkey hdeadline
  have hlast : ∀ u, u ∈ calls.map LimiterCall.time → start ≤ u := fun u hu =>
    (List.pairwise_cons.mp hclock).1 u (List.mem_append_left _ hu)
  rcases hreached with hend | ⟨hcount, hpassed⟩
  · -- what comes before the deadline comes before the end of the window
    have hkept : Kept key (fun _ => True) entry.resetAt start store :=
      .inl ⟨entry.count, trivial, hentry⟩
    have hrun := hkept.run hclock (fun q hq hqkey => by
      have hbefore := hcalls q hq hqkey
      exact ⟨Int64.lt_iff_toInt_lt.mpr (hend ▸ hbefore), fun _ _ => trivial⟩)
    refine hrun.admits (Int64.le_refl _) hkey hlimit (.inl ?_)
    exact Int64.le_iff_toInt_le.mpr (hend ▸ hdeadline)
  · -- nothing comes before a deadline that has passed
    have hkept : Kept key (· = Int32.maxValue) entry.resetAt start store :=
      .inl ⟨entry.count, hcount, hentry⟩
    have hrun := hkept.run hclock (fun q hq hqkey => by
      have hbefore := hcalls q hq hqkey
      have hafter := Int64.le_iff_toInt_le.mp (hlast _ (List.mem_map_of_mem hq))
      have htime : (LimiterCall.request q).time = q.now := rfl
      rw [htime] at hafter
      exact absurd (Int.lt_of_lt_of_le hbefore (Int.le_trans hpassed hafter)) (Int.lt_irrefl _))
    refine hrun.admits (Int64.le_refl _) hkey hlimit (.inr ?_)
    rintro count rfl hover
    have hwrapped : Int32.maxValue + 1 < (1 : Int32) := by decide
    have hlt := Int32.lt_of_lt_of_le hwrapped hlimit
    exact Int32.lt_irrefl (Int32.lt_trans hover hlt)

section Refused

variable {start : Int64} {entry : RateLimitEntry} {deadline : Int} {c : Context}

/-- Requests at one time, and one that is not before it. -/
theorem pairwise_repeated (c : Context) {u : Int64} (hu : start ≤ u) (n : Nat) :
    (start :: ((List.replicate n (LimiterCall.request ⟨c, start⟩)).map LimiterCall.time
      ++ [u])).Pairwise (· ≤ ·) := by
  have htimes : (List.replicate n (LimiterCall.request ⟨c, start⟩)).map LimiterCall.time
      = List.replicate n start := List.map_replicate
  rw [htimes, List.pairwise_cons, List.pairwise_append]
  refine ⟨fun v hv => ?_, List.pairwise_replicate.mpr (.inr (Int64.le_refl _)),
    List.pairwise_singleton _ _, fun v hv w hw => ?_⟩
  · rcases List.mem_append.mp hv with hv | hv
    · rw [List.eq_of_mem_replicate hv]
      exact Int64.le_refl _
    · rw [List.mem_singleton.mp hv]
      exact hu
  · rw [List.eq_of_mem_replicate hv, List.mem_singleton.mp hw]
    exact hu

/-- In its window a request is refused whose count is above the limit with it. -/
theorem not_admits_live {store : MemoryStore} {r : RateRequest} {count : Int32}
    (hskip : options.skips r.context = false)
    (hentry : store.getEntry (options.keyOf r) = some ⟨count, resetAt⟩) (hlive : r.now < resetAt)
    (hover : options.limit < count + 1) : ¬ (options.step store r).2.admits = true := by
  rw [admits_step, hskip, entryAfter_live hentry hlive]
  rintro (hskipped | hle)
  · exact Bool.false_ne_true hskipped
  · exact hle hover

variable (hentry : store.getEntry key = some entry) (hskip : options.skips c = false)
  (hkey : generateRateLimitKey c options.keyGenerator = key) (hover : entry.count > options.limit)
  (hstart : start < entry.resetAt) (hdeadline : deadline ≤ entry.resetAt.toInt)
  (h : options.AdmitsFrom store start key deadline)

include hentry hskip hkey hstart hdeadline h

/-- Who comes at the end of the window makes a count of one. -/
theorem limit_of_admitsFrom : 1 ≤ options.limit := by
  have hclock : [start, entry.resetAt].Pairwise (· ≤ ·) :=
    List.pairwise_pair.mpr (Int64.le_of_lt hstart)
  have hend := h [] ⟨c, entry.resetAt⟩ hclock (fun q hq => by cases hq) hkey hdeadline
  rw [admits_step, hskip, entryAfter_over] at hend
  · exact Int32.not_lt.mp (hend.resolve_left Bool.false_ne_true)
  · intro entry' hentry'
    have hsame : store.getEntry key = some entry' := hkey ▸ hentry'
    obtain rfl := Option.some.inj (hentry.symm.trans hsame)
    exact Int64.le_refl _

include hover

/-- No other deadline in the window admits. -/
theorem reached_of_admitsFrom : Reached entry start deadline := by
  subst hkey
  by_contra hnot
  rw [Reached, not_or, not_and] at hnot
  obtain ⟨hend, hwraps⟩ := hnot
  have hlow := Int64.le_toInt start
  have hhigh := Int64.toInt_lt entry.resetAt
  have hbefore := Int64.lt_iff_toInt_lt.mp hstart
  by_cases hcount : entry.count = Int32.maxValue
  · -- the count wraps around, and goes on up to the limit before the deadline
    have hlate := Int.not_le.mp (hwraps hcount)
    obtain ⟨n, hn⟩ := exists_steps entry.count options.limit
    have hu : (Int64.ofInt deadline).toInt = deadline :=
      Int64.toInt_ofInt_of_le (by omega) (by omega)
    have hstored := getEntry_repeated (r := ⟨c, start⟩) hskip hstart n store entry.count
      hentry
    rw [hn] at hstored
    have hlive : Int64.ofInt deadline < entry.resetAt := by
      rw [Int64.lt_iff_toInt_lt, hu]
      omega
    have hlimit : options.limit ≠ Int32.maxValue := by
      intro heq
      rw [hcount, heq] at hover
      exact Int32.lt_irrefl hover
    refine not_admits_live (r := ⟨c, Int64.ofInt deadline⟩) hskip hstored hlive (lt_succ hlimit)
      (h _ ⟨c, Int64.ofInt deadline⟩ (pairwise_repeated c ?_ n) (fun q hq _ => ?_) rfl ?_)
    · rw [Int64.le_iff_toInt_le, hu]
      omega
    · have heq := List.eq_of_mem_replicate hq
      rw [LimiterCall.request.inj heq]
      exact hlate
    · exact Int.le_of_eq hu.symm
  · -- the next request is still in the window
    obtain ⟨u, hu, hle, hlive⟩ : ∃ u : Int64, start ≤ u ∧ deadline ≤ u.toInt ∧
        u < entry.resetAt := by
      by_cases hpassed : deadline ≤ start.toInt
      · exact ⟨start, Int64.le_refl _, hpassed, hstart⟩
      · have hu : (Int64.ofInt deadline).toInt = deadline :=
          Int64.toInt_ofInt_of_le (by omega) (by omega)
        refine ⟨Int64.ofInt deadline, ?_, Int.le_of_eq hu.symm, ?_⟩
        · rw [Int64.le_iff_toInt_le, hu]
          omega
        · rw [Int64.lt_iff_toInt_lt, hu]
          omega
    have hclock : [start, u].Pairwise (· ≤ ·) := List.pairwise_pair.mpr hu
    exact not_admits_live (r := ⟨c, u⟩) hskip hentry hlive
      (Int32.lt_trans hover (lt_succ hcount))
      (h [] ⟨c, u⟩ hclock (fun q hq => by cases hq) rfl hle)

end Refused

/-! ## The headers -/

/-- Seconds of a time that is not before 1970. -/
theorem toInt_seconds {t : Int64} (h : 0 ≤ t) : (t / 1000).toInt = t.toInt / 1000 := by
  have hthousand : (1000 : Int64).toInt = 1000 := by decide
  have hmin : t ≠ Int64.minValue := by
    rintro rfl
    exact absurd h (by decide)
  have hnonneg : 0 ≤ t.toInt := Int64.le_iff_toInt_le.mp h
  rw [Int64.toInt_div_of_ne_left t 1000 hmin, hthousand, Int.tdiv_eq_ediv_of_nonneg hnonneg]

/-- The wait is told if it is a second at least. -/
theorem retryAfter_header {c : Context} {resetAt later : Int64} (hlater : 0 ≤ later)
    (hfresh : c.headers.get? (ascii "Retry-After") = none) :
    (rateLimitExceededResponse c resetAt later).2.headers.get? (ascii "Retry-After")
      = if later.toInt + 1000 ≤ resetAt.toInt then
          some (intStr ((resetAt.toInt - later.toInt) / 1000))
        else none := by
  have hzero : (0 : Int64).toInt = 0 := by decide
  rw [rateLimitExceededResponse]
  dsimp only
  by_cases hopen : resetAt > later
  · have hle : later ≤ resetAt := Int64.le_of_lt hopen
    have hwait : (resetAt - later).toInt = resetAt.toInt - later.toInt :=
      Int64.toInt_sub_of_le _ _ hlater hle
    have hnonneg : 0 ≤ resetAt - later := by
      have := Int64.le_iff_toInt_le.mp hle
      rw [Int64.le_iff_toInt_le, hwait, hzero]
      omega
    have hseconds := toInt_seconds hnonneg
    rw [if_pos hopen]
    by_cases hlong : later.toInt + 1000 ≤ resetAt.toInt
    · have hpos : (resetAt - later) / 1000 > 0 := by
        rw [gt_iff_lt, Int64.lt_iff_toInt_lt, hseconds, hwait, hzero]
        omega
      rw [if_pos hpos, if_pos hlong, hseconds, hwait]
      exact InsertionMap.get?_insert_self _ _ _
    · have hnot : ¬ (resetAt - later) / 1000 > 0 := by
        rw [gt_iff_lt, Int64.lt_iff_toInt_lt, hseconds, hwait, hzero]
        omega
      rw [if_neg hnot, if_neg hlong]
      exact hfresh
  · have hlong : ¬ later.toInt + 1000 ≤ resetAt.toInt := by
      have := Int64.le_iff_toInt_le.mp (Int64.not_lt.mp hopen)
      omega
    rw [if_neg hopen, if_neg Int64.lt_irrefl, if_neg hlong]
    exact hfresh

/-- The reset header stands in the answer as it was set. -/
theorem reset_header (c : Context) (limit remaining : Int32) (resetAt resetAt' later : Int64) :
    (rateLimitExceededResponse (setRateLimitHeaders c limit remaining resetAt) resetAt'
      later).2.headers.get? (ascii "X-RateLimit-Reset") = some (intStr (resetAt / 1000).toInt) := by
  have hset : (setRateLimitHeaders c limit remaining resetAt).headers.get?
      (ascii "X-RateLimit-Reset") = some (intStr (resetAt / 1000).toInt) :=
    InsertionMap.get?_insert_self _ _ _
  rw [rateLimitExceededResponse]
  dsimp only
  generalize (if resetAt' > later then (resetAt' - later) / 1000 else 0) = retryAfter
  by_cases hpos : retryAfter > 0
  · rw [if_pos hpos]
    have hne : ascii "X-RateLimit-Reset" ≠ ascii "Retry-After" := by decide
    exact (InsertionMap.get?_insert_ne _ _ hne).trans hset
  · rw [if_neg hpos]
    exact hset

/-- The headers of the limit are others. -/
theorem headered_fresh {c : Context} (h : c.headers.get? (ascii "Retry-After") = none)
    (entry : RateLimitEntry) :
    (options.headered c entry).headers.get? (ascii "Retry-After") = none := by
  have hlimit : ascii "Retry-After" ≠ ascii "X-RateLimit-Limit" := by decide
  have hremaining : ascii "Retry-After" ≠ ascii "X-RateLimit-Remaining" := by decide
  have hreset : ascii "Retry-After" ≠ ascii "X-RateLimit-Reset" := by decide
  rw [headered]
  split
  · show (((c.headers.insert _ _).insert _ _).insert _ _).get? _ = none
    rw [InsertionMap.get?_insert_ne _ _ hreset, InsertionMap.get?_insert_ne _ _ hremaining,
      InsertionMap.get?_insert_ne _ _ hlimit, h]
  · exact h

variable (options)

/-- There is nothing to round: the answer is built in the millisecond of the count, the window
    has whole seconds left, at least one, and ends on a full second. -/
structure WholeSeconds (store : MemoryStore) (r : RateRequest) (later : Int64) : Prop where
  limit      : 1 ≤ options.limit
  wait       : later.toInt + 1000 ≤ (options.entryAfter store r).resetAt.toInt
  retryAfter : (later = r.now ∧
      1000 ∣ (options.entryAfter store r).resetAt.toInt - r.now.toInt) ∨
    ((options.entryAfter store r).count = Int32.maxValue ∧
      r.now.toInt + 1000 * (((options.entryAfter store r).resetAt.toInt - later.toInt) / 1000)
        ≤ later.toInt)
  reset      : options.headers = true → 1000 ∣ (options.entryAfter store r).resetAt.toInt ∨
    ((options.entryAfter store r).count = Int32.maxValue ∧
      1000 * ((options.entryAfter store r).resetAt.toInt / 1000) ≤ later.toInt)

variable {options}

/-- The wait in whole seconds ends with the window if it is one of whole seconds from the
    request on. -/
theorem wait_eq_iff {now later : Int64} {resetAt : Int} (h : now ≤ later) :
    now.toInt + 1000 * ((resetAt - later.toInt) / 1000) = resetAt ↔
      later = now ∧ 1000 ∣ resetAt - now.toInt := by
  have horder := Int64.le_iff_toInt_le.mp h
  constructor
  · intro heq
    have hsame : later.toInt = now.toInt := by omega
    obtain rfl := Int64.toInt_inj.mp hsame
    exact ⟨rfl, (resetAt - later.toInt) / 1000, by omega⟩
  · rintro ⟨rfl, k, hk⟩
    omega

theorem seconds_eq_iff {resetAt : Int} : 1000 * (resetAt / 1000) = resetAt ↔ 1000 ∣ resetAt := by
  constructor
  · intro heq
    exact ⟨resetAt / 1000, heq.symm⟩
  · exact Int.mul_ediv_cancel'

section Limited

variable {r : RateRequest} {later : Int64} {next : Context → HttpResponse × Context}
  (hhandler : options.handler = none) (hlimited : (options.step store r).2.admits = false)

include hlimited

theorem limited_spec : options.skips r.context = false ∧
    (options.entryAfter store r).count > options.limit := by
  have hnot : ¬ (options.step store r).2.admits = true := by
    rw [hlimited]
    exact Bool.false_ne_true
  rw [admits_step, not_or, not_not, Bool.not_eq_true] at hnot
  exact hnot

include hhandler

/-- The answer to a limited request. -/
theorem answerContext_eq : options.answerContext store next r later
    = (rateLimitExceededResponse (options.headered r.context (options.entryAfter store r))
        (options.entryAfter store r).resetAt later).2 := by
  obtain ⟨hskip, hover⟩ := limited_spec hlimited
  have hexit : rateLimitExit options store r.context r.now = _ := step_counted hskip
  rw [answerContext, rateLimit, hexit, if_pos hover]
  dsimp only
  rw [hhandler]

/-- What the header says about the wait. -/
theorem answer_retryAfter (hfresh : r.context.headers.get? (ascii "Retry-After") = none)
    (hlater : 0 ≤ later) (s : Int) :
    (options.answerContext store next r later).headers.get? (ascii "Retry-After")
        = some (intStr s) ↔
      later.toInt + 1000 ≤ (options.entryAfter store r).resetAt.toInt ∧
        s = ((options.entryAfter store r).resetAt.toInt - later.toInt) / 1000 := by
  rw [answerContext_eq hhandler hlimited, retryAfter_header hlater (headered_fresh hfresh _)]
  split
  · rename_i hlong
    refine ⟨fun h => ⟨hlong, (intStr_injective (Option.some.inj h)).symm⟩, ?_⟩
    rintro ⟨-, rfl⟩
    rfl
  · rename_i hlong
    exact ⟨(fun h => by cases h), fun h => absurd h.1 hlong⟩

/-- What the other says about the end of the window. -/
theorem answer_reset (hheaders : options.headers = true)
    (hreset : 0 ≤ (options.entryAfter store r).resetAt) (s : Int) :
    (options.answerContext store next r later).headers.get? (ascii "X-RateLimit-Reset")
        = some (intStr s) ↔
      s = (options.entryAfter store r).resetAt.toInt / 1000 := by
  rw [answerContext_eq hhandler hlimited, headered, if_pos hheaders, reset_header,
    toInt_seconds hreset]
  constructor
  · exact fun h => (intStr_injective (Option.some.inj h)).symm
  · rintro rfl
    rfl

/-- **THE WAIT.**  A limited request is told how long to wait exactly if there is nothing to
    round. -/
theorem retrySuffices_iff (hfresh : r.context.headers.get? (ascii "Retry-After") = none)
    (hclock : 0 ≤ r.now ∧ r.now ≤ later) :
    options.RetrySuffices store next r later ↔ options.WholeSeconds store r later := by
  obtain ⟨hskip, hover⟩ := limited_spec hlimited
  have hlater : 0 ≤ later := Int64.le_trans hclock.1 hclock.2
  have hretry : ∀ s, (options.answerContext store next r later).headers.get? (ascii "Retry-After")
      = some (intStr s) ↔ _ := answer_retryAfter hhandler hlimited hfresh hlater
  have hreset : options.headers = true → 0 ≤ (options.entryAfter store r).resetAt → ∀ s,
      (options.answerContext store next r later).headers.get? (ascii "X-RateLimit-Reset")
        = some (intStr s) ↔ _ := answer_reset hhandler hlimited
  have hentry : (options.step store r).1.getEntry (options.keyOf r)
      = some (options.entryAfter store r) := by
    rw [getEntry_step hskip, if_pos rfl]
  have horder := Int64.le_iff_toInt_le.mp hclock.2
  -- a deadline in the window admits if the limit lets a first request pass
  have hdeadline : later.toInt + 1000 ≤ (options.entryAfter store r).resetAt.toInt →
      ∀ deadline ≤ (options.entryAfter store r).resetAt.toInt,
        (options.AdmitsFrom (options.step store r).1 later (options.keyOf r) deadline ↔
          1 ≤ options.limit ∧ Reached (options.entryAfter store r) later deadline) := by
    intro hlong deadline hle
    have hstart : later < (options.entryAfter store r).resetAt := by
      rw [Int64.lt_iff_toInt_lt]
      omega
    constructor
    · intro h
      exact ⟨limit_of_admitsFrom hentry hskip rfl hstart hle h,
        reached_of_admitsFrom hentry hskip rfl hover hstart hle h⟩
    · exact fun h => admitsFrom_of_reached hentry h.1 h.2
  have hnonneg : later.toInt + 1000 ≤ (options.entryAfter store r).resetAt.toInt →
      0 ≤ (options.entryAfter store r).resetAt := by
    intro hlong
    refine Int64.le_trans hlater (Int64.le_iff_toInt_le.mpr ?_)
    omega
  constructor
  · rintro ⟨⟨s, hs, hadmits⟩, hend⟩
    obtain ⟨hlong, rfl⟩ := (hretry s).mp hs
    obtain ⟨hlimit, hreached⟩ := (hdeadline hlong _ (by omega)).mp hadmits
    refine ⟨hlimit, hlong, hreached.imp_left (wait_eq_iff hclock.2).mp, fun hheaders => ?_⟩
    obtain ⟨s, hs, hadmits⟩ := hend hheaders
    obtain rfl := (hreset hheaders (hnonneg hlong) s).mp hs
    exact ((hdeadline hlong _ (by omega)).mp hadmits).2.imp_left seconds_eq_iff.mp
  · rintro ⟨hlimit, hlong, hwait, hend⟩
    refine ⟨⟨_, (hretry _).mpr ⟨hlong, rfl⟩, (hdeadline hlong _ (by omega)).mpr
      ⟨hlimit, hwait.imp_left (wait_eq_iff hclock.2).mpr⟩⟩, fun hheaders => ?_⟩
    exact ⟨_, (hreset hheaders (hnonneg hlong) _).mpr rfl, (hdeadline hlong _ (by omega)).mpr
      ⟨hlimit, (hend hheaders).imp_left seconds_eq_iff.mpr⟩⟩

end Limited

/-- One request a minute, and the first of them made at zero. -/
def minuteStore : MemoryStore := (step { limit := 1 } .new ⟨rootContext, 0⟩).1

/-- A handler behind the limiter. -/
def rootHandler (c : Context) : HttpResponse × Context := (c.json [], c)

/-- A second request at zero has a full minute to wait. -/
theorem retrySuffices_full_minute :
    RetrySuffices { limit := 1 } minuteStore rootHandler ⟨rootContext, 0⟩ 0 := by
  have hlimited : (step { limit := 1 } minuteStore ⟨rootContext, 0⟩).2.admits = false := by
    decide
  have hreset : (entryAfter { limit := 1 } minuteStore ⟨rootContext, 0⟩).resetAt.toInt = 60000 := by
    decide
  refine (retrySuffices_iff rfl hlimited rfl ⟨Int64.le_refl 0, Int64.le_refl 0⟩).mpr ?_
  refine ⟨by decide, ?_, .inl ⟨rfl, ?_⟩, fun _ => .inl ?_⟩
  · rw [hreset]
    decide
  · rw [hreset]
    decide
  · rw [hreset]
    decide

/-- Half a second later it is told 59 seconds, and is refused again when they have passed. -/
theorem refused_after_retry : (step { limit := 1 } minuteStore ⟨rootContext, 500⟩).2.admits = false ∧
    ¬ RetrySuffices { limit := 1 } minuteStore rootHandler ⟨rootContext, 500⟩ 500 := by
  have hlimited : (step { limit := 1 } minuteStore ⟨rootContext, 500⟩).2.admits = false := by
    decide
  refine ⟨hlimited, ?_⟩
  rintro ⟨⟨s, hs, hadmits⟩, -⟩
  obtain ⟨-, hseconds⟩ := (answer_retryAfter rfl hlimited rfl (by decide) s).mp hs
  have hwait : s = 59 := hseconds.trans (by decide)
  have hrefused : (step { limit := 1 } (step { limit := 1 } minuteStore ⟨rootContext, 500⟩).1
      ⟨rootContext, 59500⟩).2.admits = false := by
    decide
  have hadmitted := hadmits [] ⟨rootContext, 59500⟩ (by decide) (fun q hq => by cases hq) rfl
    (by rw [hwait]; decide)
  exact Bool.false_ne_true (hrefused.symm.trans hadmitted)

end RateLimitOptions

end VHono
