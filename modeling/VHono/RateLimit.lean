import VHono.Responses
import VHono.MachineRuns

/-! # The rate limiter

    A store counts the requests of each key in the window that the first of
    them opened, and the middleware lets a request on while the count is not
    above the limit.  An entry whose window is over is written over by the next
    request of its key; `cleanup_expired` deletes such entries. -/

namespace VHono

open ByteString

structure RateLimitEntry where
  count   : Int32
  resetAt : Int64
  deriving DecidableEq

structure MemoryStore where
  data : InsertionMap ByteString RateLimitEntry

namespace MemoryStore

def new : MemoryStore := ⟨.empty⟩

/-- The count and the reset time after a request; `now` is `time.now().unix_milli()`. -/
def increment (s : MemoryStore) (key : ByteString) (windowMs now : Int64) :
    MemoryStore × (Int32 × Int64) :=
  match s.data.get? key with
  | some entry =>
      let entry : RateLimitEntry :=
        if now ≥ entry.resetAt then ⟨1, now + windowMs⟩
        else { entry with count := entry.count + 1 }
      (⟨s.data.insert key entry⟩, (entry.count, entry.resetAt))
  | none =>
      let entry : RateLimitEntry := ⟨1, now + windowMs⟩
      (⟨s.data.insert key entry⟩, (entry.count, entry.resetAt))

def reset (s : MemoryStore) (key : ByteString) : MemoryStore := ⟨s.data.erase key⟩

def getEntry (s : MemoryStore) (key : ByteString) : Option RateLimitEntry := s.data.get? key

def cleanupExpired (s : MemoryStore) (now : Int64) : MemoryStore :=
  let keysToDelete := (s.data.entries.filter (fun e => decide (now ≥ e.2.resetAt))).map Prod.fst
  ⟨keysToDelete.foldl (fun data key => data.erase key) s.data⟩

/-! ## What the operations do to an entry -/

/-- The entry of a key, if its window is not over. -/
def live (s : MemoryStore) (now : Int64) (key : ByteString) : Option RateLimitEntry :=
  (s.getEntry key).filter (fun entry => decide (now < entry.resetAt))

/-- The entry after a request, from the live one before it. -/
def counted (entry : Option RateLimitEntry) (windowMs now : Int64) : RateLimitEntry :=
  match entry with
  | some entry => { entry with count := entry.count + 1 }
  | none => ⟨1, now + windowMs⟩

/-- A request counts on from the live entry of its key. -/
theorem increment_eq (s : MemoryStore) (key : ByteString) (windowMs now : Int64) :
    s.increment key windowMs now =
      (⟨s.data.insert key (counted (s.live now key) windowMs now)⟩,
        ((counted (s.live now key) windowMs now).count,
          (counted (s.live now key) windowMs now).resetAt)) := by
  rw [increment, live, getEntry]
  cases s.data.get? key with
  | none => rfl
  | some entry =>
      dsimp only
      by_cases hover : now ≥ entry.resetAt
      · rw [if_pos hover, Option.filter_some_neg (by simpa using hover)]
        rfl
      · rw [if_neg hover, Option.filter_some_pos (by simpa using hover)]
        rfl

theorem getEntry_increment (s : MemoryStore) (key key' : ByteString) (windowMs now : Int64) :
    (s.increment key windowMs now).1.getEntry key' =
      if key' = key then some (counted (s.live now key) windowMs now) else s.getEntry key' := by
  rw [increment_eq]
  exact InsertionMap.get?_insert _ _ _ _

theorem getEntry_reset (s : MemoryStore) (key key' : ByteString) :
    (s.reset key).getEntry key' = if key' = key then none else s.getEntry key' :=
  InsertionMap.get?_erase _ _ _

/-- Deleting keys one after another. -/
theorem get?_eraseKeys (keys : List ByteString) (m : InsertionMap ByteString RateLimitEntry)
    (key : ByteString) : (keys.foldl (fun data key => data.erase key) m).get? key =
      if key ∈ keys then none else m.get? key := by
  induction keys generalizing m with
  | nil => simp
  | cons k keys ih =>
      rw [List.foldl_cons, ih, InsertionMap.get?_erase]
      by_cases hmem : key ∈ keys
      · rw [if_pos hmem, if_pos (List.mem_cons_of_mem _ hmem)]
      · rw [if_neg hmem]
        by_cases hk : key = k
        · rw [if_pos hk, if_pos (hk ▸ List.mem_cons_self ..)]
        · rw [if_neg hk, if_neg (by simp [hk, hmem])]

/-- A sweep leaves the entries that are live. -/
theorem getEntry_cleanupExpired (s : MemoryStore) (now : Int64) (key : ByteString) :
    (s.cleanupExpired now).getEntry key = s.live now key := by
  show (List.foldl _ s.data _).get? key = _
  rw [get?_eraseKeys, live, getEntry]
  cases hget : s.data.get? key with
  | none => simp
  | some entry =>
      have hmem : key ∈ (s.data.entries.filter (fun e => decide (now ≥ e.2.resetAt))).map Prod.fst ↔
          now ≥ entry.resetAt := by
        constructor
        · intro h
          obtain ⟨⟨k, entry'⟩, he, rfl⟩ := List.mem_map.mp h
          obtain ⟨he, hover⟩ := List.mem_filter.mp he
          obtain rfl : entry = entry' :=
            Option.some.inj (hget.symm.trans (InsertionMap.get?_of_mem_entries he))
          exact of_decide_eq_true hover
        · intro hover
          exact List.mem_map.mpr ⟨(key, entry),
            List.mem_filter.mpr ⟨InsertionMap.mem_entries_of_get? hget, decide_eq_true hover⟩, rfl⟩
      by_cases hover : now ≥ entry.resetAt
      · rw [if_pos (hmem.mpr hover), Option.filter_some_neg (by simpa using hover)]
      · rw [if_neg (fun h => hover (hmem.mp h)), Option.filter_some_pos (by simpa using hover)]

end MemoryStore

/-! ## The middleware -/

structure RateLimitInfo where
  limit     : Int32
  remaining : Int32
  resetAt   : Int64

structure RateLimitOptions where
  windowMs     : Int64 := 60000
  limit        : Int32 := 100
  keyGenerator : Option (Context → ByteString) := none
  skip         : Option (Context → Bool) := none
  handler      : Option (Context → RateLimitInfo → HttpResponse × Context) := none
  headers      : Bool := true

/-- `c.get_client_ip()` -/
def Context.getClientIp (c : Context) : ByteString :=
  let forwarded := match c.req.header.getCustom (ascii "X-Forwarded-For") with
    | some forwardedFor => trimSpace ((forwardedFor.splitOn (byte ',')).headD [])
    | none => []
  if forwarded ≠ [] then forwarded
  else
    let real := match c.req.header.getCustom (ascii "X-Real-IP") with
      | some realIp => trimSpace realIp
      | none => []
    if real ≠ [] then real else ascii "127.0.0.1"

def generateRateLimitKey (c : Context) (keyGenerator : Option (Context → ByteString)) :
    ByteString :=
  match keyGenerator with
  | some genFn => genFn c
  | none => c.getClientIp

def setRateLimitHeaders (c : Context) (limit remaining : Int32) (resetAt : Int64) : Context :=
  ((c.setHeader (ascii "X-RateLimit-Limit") (intStr limit.toInt)).setHeader
    (ascii "X-RateLimit-Remaining") (intStr remaining.toInt)).setHeader
      (ascii "X-RateLimit-Reset") (intStr (resetAt / 1000).toInt)

/-- The 429 response; `now` is read again. -/
def rateLimitExceededResponse (c : Context) (resetAt now : Int64) : HttpResponse × Context :=
  let c := { c with statusCode := 429 }
  let retryAfter := if resetAt > now then (resetAt - now) / 1000 else 0
  let c := if retryAfter > 0 then c.setHeader (ascii "Retry-After") (intStr retryAfter.toInt) else c
  (c.json (ascii "\x7b\"error\":\"Too Many Requests\",\"message\":\"Rate limit exceeded. Please try again later.\"\x7d"), c)

/-- Where the middleware sends a request, with the context it hands over. -/
inductive RateLimitExit
  | next (c : Context)
  | exceeded (c : Context) (info : RateLimitInfo)

def RateLimitExit.context : RateLimitExit → Context
  | .next c => c
  | .exceeded c _ => c

/-- Does the request reach `next`? -/
def RateLimitExit.admits : RateLimitExit → Bool
  | .next _ => true
  | .exceeded _ _ => false

/-- The middleware up to the call of `next` or of the limited response. -/
def rateLimitExit (options : RateLimitOptions) (store : MemoryStore) (c : Context) (now : Int64) :
    MemoryStore × RateLimitExit :=
  if (match options.skip with
      | some skipFn => skipFn c
      | none => false) = true then (store, .next c)
  else
    let key := generateRateLimitKey c options.keyGenerator
    let (store, count, resetAt) := store.increment key options.windowMs now
    let remaining := if count > options.limit then 0 else options.limit - count
    let c := if options.headers = true then setRateLimitHeaders c options.limit remaining resetAt
      else c
    if count > options.limit then
      (store, .exceeded c { limit := options.limit, remaining := 0, resetAt := resetAt })
    else (store, .next c)

/-- `rate_limit(options)`; `later` is the clock when the default response is built. -/
def rateLimit (options : RateLimitOptions) (store : MemoryStore) (c : Context)
    (next : Context → HttpResponse × Context) (now later : Int64) :
    MemoryStore × (HttpResponse × Context) :=
  match rateLimitExit options store c now with
  | (store, .next c) => (store, next c)
  | (store, .exceeded c info) =>
      match options.handler with
      | some customHandler => (store, customHandler c info)
      | none => (store, rateLimitExceededResponse c info.resetAt later)

section Exit

variable {options : RateLimitOptions} {store : MemoryStore} {c : Context} {now : Int64}

/-- Without a skip function the entry after the request decides. -/
theorem rateLimitExit_eq (hskip : options.skip = none) (hheaders : options.headers = true)
    {entry : RateLimitEntry}
    (hentry : MemoryStore.counted (store.live now (generateRateLimitKey c options.keyGenerator))
      options.windowMs now = entry) :
    rateLimitExit options store c now =
      (⟨store.data.insert (generateRateLimitKey c options.keyGenerator) entry⟩,
        if entry.count > options.limit then
          .exceeded (setRateLimitHeaders c options.limit 0 entry.resetAt)
            ⟨options.limit, 0, entry.resetAt⟩
        else .next (setRateLimitHeaders c options.limit (options.limit - entry.count)
          entry.resetAt)) := by
  rw [rateLimitExit, hskip]
  dsimp only
  rw [if_neg Bool.false_ne_true, store.increment_eq, hentry]
  dsimp only
  rw [if_pos hheaders]
  by_cases hover : entry.count > options.limit
  · rw [if_pos hover, if_pos hover, if_pos hover]
  · rw [if_neg hover, if_neg hover, if_neg hover]

end Exit

theorem remaining_header (c : Context) (limit remaining : Int32) (resetAt : Int64) :
    (setRateLimitHeaders c limit remaining resetAt).headers.get? (ascii "X-RateLimit-Remaining")
      = some (intStr remaining.toInt) := by
  rw [setRateLimitHeaders, Context.setHeader, InsertionMap.get?_insert_ne _ _ (by decide)]
  exact InsertionMap.get?_insert_self _ _ _

end VHono

/-! ## Sweeps change no count

    The store as a machine over its calls.  An entry whose window is over
    counts for nothing: a request of its key begins anew whether a sweep has
    deleted it or not.  So the results of a run are those of the run without its
    sweeps, if the clock does not go back. -/

namespace VHono

open ByteString MachineRuns

inductive StoreCall
  | increment (key : ByteString) (windowMs now : Int64)
  | reset (key : ByteString)
  | cleanupExpired (now : Int64)

namespace StoreCall

/-- The clock when the call is made, if it reads the clock. -/
def time : StoreCall → Option Int64
  | .increment _ _ now => some now
  | .reset _ => none
  | .cleanupExpired now => some now

def isSweep : StoreCall → Bool
  | .increment _ _ _ => false
  | .reset _ => false
  | .cleanupExpired _ => true

end StoreCall

namespace MemoryStore

/-- Only an increment has a result. -/
def step (s : MemoryStore) : StoreCall → MemoryStore × Option (Int32 × Int64)
  | .increment key windowMs now =>
      let (s, result) := s.increment key windowMs now
      (s, some result)
  | .reset key => (s.reset key, none)
  | .cleanupExpired now => (s.cleanupExpired now, none)

/-- The results of a run. -/
def results (s : MemoryStore) (calls : List StoreCall) : List (Int32 × Int64) :=
  (outputs step s calls).filterMap id

/-- The two stores have the same live entries from a time on. -/
def Agree (t : Int64) (s s' : MemoryStore) : Prop :=
  ∀ now, t ≤ now → ∀ key, s.live now key = s'.live now key

variable {s s' : MemoryStore} {t now : Int64}

theorem Agree.mono (h : Agree t s s') (hle : t ≤ now) : Agree now s s' :=
  fun now' hnow' key => h now' (Int64.le_trans hle hnow') key

theorem live_increment (s : MemoryStore) (key key' : ByteString) (windowMs now now' : Int64) :
    (s.increment key windowMs now).1.live now' key' =
      if key' = key then
        (some (counted (s.live now key) windowMs now)).filter (fun e => decide (now' < e.resetAt))
      else s.live now' key' := by
  rw [live, getEntry_increment]
  split
  · rfl
  · rfl

/-- Agreeing stores count alike. -/
theorem Agree.increment (h : Agree t s s') (hle : t ≤ now) (key : ByteString)
    (windowMs : Int64) :
    Agree now (s.increment key windowMs now).1 (s'.increment key windowMs now).1 ∧
      (s.increment key windowMs now).2 = (s'.increment key windowMs now).2 := by
  have hlive := h now hle key
  refine ⟨fun now' hnow' key' => ?_, ?_⟩
  · rw [live_increment, live_increment, hlive, h.mono hle now' hnow' key']
  · rw [increment_eq, increment_eq, hlive]

theorem Agree.reset (h : Agree t s s') (key : ByteString) :
    Agree t (s.reset key) (s'.reset key) := by
  intro now' hnow' key'
  rw [live, live, getEntry_reset, getEntry_reset]
  by_cases hkey : key' = key
  · rw [if_pos hkey, if_pos hkey]
  · rw [if_neg hkey, if_neg hkey]
    exact h now' hnow' key'

/-- What is live after a sweep was live before it. -/
theorem live_cleanupExpired (hle : now ≤ t) (key : ByteString) :
    (s.cleanupExpired now).live t key = s.live t key := by
  rw [live, getEntry_cleanupExpired, live, live, Option.filter_filter]
  congr 1
  funext entry
  by_cases hlt : t < entry.resetAt
  · simp [hlt, Int64.lt_of_le_of_lt hle hlt]
  · simp [hlt]

theorem Agree.sweep (h : Agree t s s') (hle : t ≤ now) : Agree now (s.cleanupExpired now) s' := by
  intro now' hnow' key
  rw [live_cleanupExpired hnow']
  exact h.mono hle now' hnow' key

/-- Agreeing stores give the same results, one with the sweeps and one without them. -/
theorem results_of_agree (calls : List StoreCall) :
    ∀ (s s' : MemoryStore) (t : Int64), Agree t s s' →
      (t :: calls.filterMap StoreCall.time).Pairwise (· ≤ ·) →
      s.results calls = s'.results (calls.filter (fun call => !call.isSweep)) := by
  induction calls with
  | nil => intro s s' t _ _; rfl
  | cons call calls ih =>
      intro s s' t h hclock
      cases call with
      | increment key windowMs now =>
          have hle : t ≤ now := (List.pairwise_cons.mp hclock).1 now (List.mem_cons_self ..)
          obtain ⟨hnext, hsame⟩ := h.increment hle key windowMs
          have hrest := ih _ _ now hnext (List.pairwise_cons.mp hclock).2
          show (s.increment key windowMs now).2 :: (s.increment key windowMs now).1.results calls
            = (s'.increment key windowMs now).2 :: (s'.increment key windowMs now).1.results _
          rw [hrest, hsame]
      | reset key => exact ih _ _ t (h.reset key) hclock
      | cleanupExpired now =>
          have hle : t ≤ now := (List.pairwise_cons.mp hclock).1 now (List.mem_cons_self ..)
          exact ih _ _ now (h.sweep hle) (List.pairwise_cons.mp hclock).2

/-- **SWEEPS.**  With a clock that does not go back, a run has the results of the run without its
    sweeps, from every store. -/
theorem results_eq_unswept (s : MemoryStore) (calls : List StoreCall)
    (hclock : (calls.filterMap StoreCall.time).Pairwise (· ≤ ·)) :
    s.results calls = s.results (calls.filter (fun call => !call.isSweep)) := by
  refine results_of_agree calls s s Int64.minValue (fun _ _ _ => rfl) ?_
  exact List.pairwise_cons.mpr ⟨fun now _ => Int64.minValue_le now, hclock⟩

/-- A sweep right when the window is over. -/
theorem results_eq_unswept_at_reset :
    new.results [.increment (ascii "a") 10 0, .cleanupExpired 10, .increment (ascii "a") 10 10]
      = new.results [.increment (ascii "a") 10 0, .increment (ascii "a") 10 10] :=
  results_eq_unswept new
    [.increment (ascii "a") 10 0, .cleanupExpired 10, .increment (ascii "a") 10 10] (by decide)

end MemoryStore

end VHono
