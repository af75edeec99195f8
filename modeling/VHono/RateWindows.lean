import VHono.RateLimit
import VHono.MachineRuns
import VHono.TimeWindows

/-! # The limiter admits the first requests of a window

    The middleware as a machine over its requests.  The entry of a key is that
    of the window its last request is in: how many requests the window has had,
    and when it is over.  So a request is admitted by its place in its window,
    and no request of another key has a part in it. -/

namespace VHono

open ByteString MachineRuns TimeWindows

/-- A request, and the clock when it is counted. -/
structure RateRequest where
  context : Context
  now     : Int64

namespace RateLimitOptions

variable (options : RateLimitOptions)

def keyOf (r : RateRequest) : ByteString := generateRateLimitKey r.context options.keyGenerator

def step (store : MemoryStore) (r : RateRequest) : MemoryStore × RateLimitExit :=
  rateLimitExit options store r.context r.now

/-- A request with what became of it. -/
abbrev Served := Event MemoryStore RateRequest RateLimitExit

def keyed (key : ByteString) (e : Served) : Bool := options.keyOf e.input == key

/-- The requests of a key in a run. -/
def served (key : ByteString) (rs : List RateRequest) : List Served :=
  (events options.step .new rs).filter (options.keyed key)

/-- The second request comes before the reset time of the window that the first opened. -/
def within (o e : Served) : Bool := decide (e.input.now < o.input.now + options.windowMs)

/-- The entry of a window. -/
def entryOf (w : List Served) : Option RateLimitEntry :=
  match w with
  | [] => none
  | o :: rest => some ⟨Int32.ofNat (rest.length + 1), o.input.now + options.windowMs⟩

/-- Every key has the entry of the window that its last request is in. -/
def Tracks (es : List Served) (store : MemoryStore) : Prop :=
  ∀ key, store.getEntry key
    = options.entryOf (current options.within (es.filter (options.keyed key)))

/-- Where a request leaves the middleware, by the entry after it. -/
def exitOf (c : Context) (entry : RateLimitEntry) : RateLimitExit :=
  if entry.count > options.limit then
    .exceeded (setRateLimitHeaders c options.limit 0 entry.resetAt)
      ⟨options.limit, 0, entry.resetAt⟩
  else .next (setRateLimitHeaders c options.limit (options.limit - entry.count) entry.resetAt)

variable {options}

theorem keyed_filter_concat (key : ByteString) (es : List Served) (e : Served) :
    (es ++ [e]).filter (options.keyed key) =
      if options.keyOf e.input = key then es.filter (options.keyed key) ++ [e]
      else es.filter (options.keyed key) := by
  rw [List.filter_append, List.filter_singleton]
  by_cases hkey : options.keyOf e.input = key
  · rw [if_pos hkey, keyed, hkey, beq_self_eq_true]
    rfl
  · rw [if_neg hkey, keyed, beq_eq_false_iff_ne.mpr hkey]
    exact List.append_nil _

/-- Counting a request extends the window by it. -/
theorem entryOf_extend (w : List Served) (e : Served) :
    options.entryOf (extend options.within w e) = some (MemoryStore.counted
      ((options.entryOf w).filter (fun entry => decide (e.input.now < entry.resetAt)))
      options.windowMs e.input.now) := by
  cases w with
  | nil => rfl
  | cons o rest =>
      have hentry : options.entryOf (o :: rest)
          = some ⟨Int32.ofNat (rest.length + 1), o.input.now + options.windowMs⟩ := rfl
      rw [extend, hentry, Option.filter_some]
      by_cases hopen : options.within o e = true
      · have hlive : decide (e.input.now < o.input.now + options.windowMs) = true := hopen
        rw [if_pos hopen, if_pos hlive]
        simp [entryOf, MemoryStore.counted, Int32.ofNat_add]
      · have hover : ¬ decide (e.input.now < o.input.now + options.windowMs) = true := hopen
        rw [if_neg hopen, if_neg hover]
        rfl

section Runs

variable (hskip : options.skip = none) (hheaders : options.headers = true)

include hskip hheaders

theorem step_eq (store : MemoryStore) (r : RateRequest) {entry : RateLimitEntry}
    (hentry : MemoryStore.counted (store.live r.now (options.keyOf r)) options.windowMs r.now
      = entry) :
    options.step store r
      = (⟨store.data.insert (options.keyOf r) entry⟩, options.exitOf r.context entry) :=
  rateLimitExit_eq hskip hheaders hentry

/-- A request leaves by the entry of the window it is in, and the store keeps track. -/
theorem tracks_step {es : List Served} {store : MemoryStore} (h : options.Tracks es store)
    (past : List RateRequest) (r : RateRequest) :
    options.Tracks (es ++ [⟨past, store, r, (options.step store r).2⟩]) (options.step store r).1 ∧
      some (options.step store r).2 = (options.entryOf (current options.within
        ((es ++ [(⟨past, store, r, (options.step store r).2⟩ : Served)]).filter
          (options.keyed (options.keyOf r))))).map (options.exitOf r.context) := by
  generalize he : (⟨past, store, r, (options.step store r).2⟩ : Served) = e
  have hinput : e.input = r := by rw [← he]
  obtain ⟨entry, hentry⟩ : ∃ entry, MemoryStore.counted (store.live r.now (options.keyOf r))
    options.windowMs r.now = entry := ⟨_, rfl⟩
  have hwindow : options.entryOf (current options.within
      ((es ++ [e]).filter (options.keyed (options.keyOf r)))) = some entry := by
    rw [keyed_filter_concat, hinput, if_pos rfl, current_concat, entryOf_extend, hinput,
      ← h (options.keyOf r), ← hentry]
    rfl
  rw [step_eq hskip hheaders store r hentry, hwindow]
  refine ⟨fun key => ?_, rfl⟩
  show (store.data.insert (options.keyOf r) entry).get? key = _
  rw [InsertionMap.get?_insert]
  by_cases hkey : key = options.keyOf r
  · rw [if_pos hkey, hkey, hwindow]
  · rw [if_neg hkey, keyed_filter_concat, hinput, if_neg (Ne.symm hkey)]
    exact h key

/-- In a run every request leaves by the entry of the window it is in. -/
theorem exit_of_window {rs : List RateRequest} {B C : List Served} {e : Served}
    (hsplit : events options.step .new rs = B ++ e :: C) :
    some e.output = (options.entryOf (current options.within
      ((B ++ [e]).filter (options.keyed (options.keyOf e.input))))).map
        (options.exitOf e.input.context) := by
  have hghost : ∀ (es g : List Served), es.foldl (fun g e => g ++ [e]) g = g ++ es := by
    intro es
    induction es with
    | nil => simp
    | cons e es ih => intro g; rw [List.foldl_cons, ih]; simp
  have hrule := eventsFrom_ghost (fun g e => g ++ [e]) options.Tracks (fun _ => True)
    (fun g e => some e.output = (options.entryOf (current options.within
      ((g ++ [e]).filter (options.keyed (options.keyOf e.input))))).map
        (options.exitOf e.input.context))
    (fun g past s r hinv _ => tracks_step hskip hheaders hinv past r)
    (g := []) (fun _ => rfl) hsplit (fun _ _ => trivial)
  rw [hghost, List.nil_append] at hrule
  exact hrule

/-- A request of a window leaves by its place in the window. -/
theorem exit_of_place {rs : List RateRequest} {key : ByteString} {ws ws' : List (List Served)}
    {A B : List Served} {e : Served}
    (hws : Windows options.within (ws ++ (A ++ e :: B) :: ws'))
    (hflat : (ws ++ (A ++ e :: B) :: ws').flatten = options.served key rs) :
    ∃ resetAt, e.output
      = options.exitOf e.input.context ⟨Int32.ofNat (A.length + 1), resetAt⟩ := by
  have hserved : options.served key rs = (ws.flatten ++ A) ++ e :: (B ++ ws'.flatten) := by
    rw [← hflat]
    simp
  obtain ⟨es, es', hes, hbefore, hafter⟩ := List.filter_eq_append_iff.mp hserved
  obtain ⟨es₁, es₂, rfl, hnone, hkeyed, -⟩ := List.filter_eq_cons_iff.mp hafter
  have hkey : options.keyOf e.input = key := beq_iff_eq.mp hkeyed
  have hwindow : (es ++ es₁ ++ [e]).filter (options.keyed (options.keyOf e.input))
      = ws.flatten ++ (A ++ [e]) := by
    have hes₁ : es₁.filter (options.keyed key) = [] := List.filter_eq_nil_iff.mpr hnone
    rw [hkey, keyed_filter_concat, if_pos hkey, List.filter_append, hbefore, hes₁,
      List.append_nil, List.append_assoc]
  have hcurrent : current options.within (ws.flatten ++ (A ++ [e])) = A ++ [e] := by
    have hws' : Windows options.within (ws ++ (A ++ [e] ++ B) :: ws') := by
      rw [List.append_assoc]
      exact hws
    exact current_of_windows hws' (by simp)
  have hexit := @exit_of_window options hskip hheaders rs (es ++ es₁) es₂ e
    (by rw [hes, List.append_assoc])
  rw [hwindow, hcurrent] at hexit
  cases A with
  | nil => exact ⟨_, Option.some.inj hexit⟩
  | cons o A =>
      refine ⟨o.input.now + options.windowMs, ?_⟩
      have hlength : (A ++ [e]).length + 1 = (o :: A).length + 1 := by simp
      rw [← hlength]
      exact Option.some.inj hexit

/-- What requests of one key leave by is what they leave by in a run of their own. -/
theorem outputs_of_key (key : ByteString) (rs : List RateRequest) :
    ∀ (store store' : MemoryStore) (past : List RateRequest),
      store.getEntry key = store'.getEntry key →
      ((eventsFrom options.step past store rs).filter (options.keyed key)).map (·.output)
        = outputs options.step store' (rs.filter (fun r => options.keyOf r == key)) := by
  induction rs with
  | nil => intro store store' past _; rfl
  | cons r rs ih =>
      intro store store' past hsame
      obtain ⟨entry, hentry⟩ : ∃ entry, MemoryStore.counted (store.live r.now (options.keyOf r))
        options.windowMs r.now = entry := ⟨_, rfl⟩
      have hstep := step_eq hskip hheaders store r hentry
      rw [eventsFrom, List.filter_cons]
      by_cases hkey : options.keyOf r = key
      · have hentry' : MemoryStore.counted (store'.live r.now (options.keyOf r)) options.windowMs
            r.now = entry := by
          rw [← hentry, MemoryStore.live, MemoryStore.live, hkey, hsame]
        have hstep' := step_eq hskip hheaders store' r hentry'
        have hrest := ih (options.step store r).1 (options.step store' r).1 (past ++ [r]) (by
          rw [hstep, hstep', hkey]
          exact (InsertionMap.get?_insert_self _ _ _).trans (InsertionMap.get?_insert_self _ _ _).symm)
        rw [if_pos (by simpa [keyed] using hkey), List.map_cons, hrest,
          List.filter_cons_of_pos (by simpa using hkey), outputs, hstep, hstep']
      · rw [if_neg (by simpa [keyed] using hkey), List.filter_cons_of_neg (by simpa using hkey)]
        refine ih _ store' _ ?_
        rw [hstep, ← hsame]
        exact InsertionMap.get?_insert_ne _ _ (Ne.symm hkey)

end Runs

/-- A request is admitted and told what remains by its place in its window. -/
structure AdmitsFirst (limit : Int32) (w : List Served) : Prop where
  admitted  : ∀ A e B, w = A ++ e :: B → (e.output.admits = true ↔ (A.length : Int) < limit.toInt)
  remaining : ∀ A e B, w = A ++ e :: B →
    e.output.context.headers.get? (ascii "X-RateLimit-Remaining") = some (intStr
      (limit.toInt - (((A ++ [e]).filter (fun e' => e'.output.admits)).length : Int)))

/-- The exit of the request at a place of a window with fewer than `2^31` requests. -/
theorem exitOf_place (hlimit : 1 ≤ options.limit) (c : Context) (n : Nat) (hn : n + 1 < 2 ^ 31)
    (resetAt : Int64) :
    ((options.exitOf c ⟨Int32.ofNat (n + 1), resetAt⟩).admits = true ↔
        (n : Int) < options.limit.toInt) ∧
      (options.exitOf c ⟨Int32.ofNat (n + 1), resetAt⟩).context.headers.get?
        (ascii "X-RateLimit-Remaining")
        = some (intStr (options.limit.toInt - min ((n : Int) + 1) options.limit.toInt)) := by
  have hcount : (Int32.ofNat (n + 1)).toInt = n + 1 := by
    rw [Int32.toInt_ofNat_of_lt hn]
    rfl
  have hone : (1 : Int) ≤ options.limit.toInt := Int32.le_iff_toInt_le.mp hlimit
  have hover : Int32.ofNat (n + 1) > options.limit ↔ options.limit.toInt < n + 1 := by
    rw [gt_iff_lt, Int32.lt_iff_toInt_lt, hcount]
  rw [exitOf]
  dsimp only
  by_cases hlt : options.limit.toInt < n + 1
  · rw [if_pos (hover.mpr hlt)]
    refine ⟨⟨by rintro ⟨⟩, fun h => by omega⟩, ?_⟩
    rw [RateLimitExit.context, remaining_header, min_eq_right (by omega), Int.sub_self]
    rfl
  · rw [if_neg (fun h => hlt (hover.mp h))]
    have hpos : 0 ≤ Int32.ofNat (n + 1) := by
      rw [Int32.le_iff_toInt_le, hcount]
      show (0 : Int) ≤ n + 1
      omega
    have hle : Int32.ofNat (n + 1) ≤ options.limit := by
      rw [Int32.le_iff_toInt_le, hcount]
      omega
    refine ⟨⟨fun _ => by omega, fun _ => rfl⟩, ?_⟩
    rw [RateLimitExit.context, remaining_header, Int32.toInt_sub_of_le _ _ hpos hle, hcount,
      min_eq_left (by omega)]

/-- **THE LIMIT.**  Of every window of a key exactly the first requests up to the limit are
    admitted, each request is told how many remain, and requests of other keys change nothing. -/
theorem limit_kept (options : RateLimitOptions) (hskip : options.skip = none)
    (hheaders : options.headers = true) (hlimit : 1 ≤ options.limit) (rs : List RateRequest)
    (key : ByteString) :
    (∀ ws, Windows options.within ws → ws.flatten = options.served key rs →
      ∀ w ∈ ws, w.length < 2 ^ 31 → AdmitsFirst options.limit w) ∧
    (options.served key rs).map (·.output)
      = outputs options.step .new (rs.filter (fun r => options.keyOf r == key)) := by
  refine ⟨?_, outputs_of_key hskip hheaders key rs .new .new [] rfl⟩
  intro ws hws hflat w hw hsmall
  obtain ⟨ws₁, ws₂, rfl⟩ := List.append_of_mem hw
  have hplace : ∀ A e B, w = A ++ e :: B →
      (e.output.admits = true ↔ (A.length : Int) < options.limit.toInt) ∧
        e.output.context.headers.get? (ascii "X-RateLimit-Remaining")
          = some (intStr (options.limit.toInt - min ((A.length : Int) + 1) options.limit.toInt)) := by
    rintro A e B rfl
    obtain ⟨resetAt, hexit⟩ := exit_of_place hskip hheaders hws hflat
    rw [hexit]
    refine exitOf_place hlimit e.input.context A.length ?_ resetAt
    rw [List.length_append, List.length_cons] at hsmall
    omega
  refine ⟨fun A e B h => (hplace A e B h).1, fun A e B h => ?_⟩
  rw [(hplace A e B h).2]
  -- the requests up to this one are admitted by the same rule
  have hcount : ((A ++ [e]).filter (fun e' => e'.output.admits)).length
      = min (A ++ [e]).length options.limit.toInt.toNat := by
    refine length_filter_first _ _ _ (fun A' e' B' h' => ?_)
    have hsplit : w = A' ++ e' :: (B' ++ B) := by
      rw [h, List.append_cons, h', List.append_assoc, List.cons_append]
    rw [(hplace A' e' (B' ++ B) hsplit).1]
    omega
  have hone : (1 : Int) ≤ options.limit.toInt := Int32.le_iff_toInt_le.mp hlimit
  rw [hcount, List.length_append, List.length_singleton]
  congr 2
  omega

/-- `GET /`, from nowhere in particular. -/
def rootContext : Context where
  req := { method := .get, url := ascii "/", data := [], header := [] }
  params := .empty
  query := .empty
  url := ascii "/"
  path := ascii "/"
  statusCode := 200
  headers := .empty
  body := []
  store := .empty

/-- The second of these requests is in the window of the first, the third opens its own. -/
def edgeRequests : List RateRequest := [⟨rootContext, 0⟩, ⟨rootContext, 59999⟩, ⟨rootContext, 60000⟩]

def edgeServed : List Served := events (step { limit := 1 }) .new edgeRequests

theorem limit_kept_at_reset :
    AdmitsFirst 1 (edgeServed.take 2) ∧ AdmitsFirst 1 (edgeServed.drop 2) := by
  have hkept := (limit_kept { limit := 1 } rfl rfl (by decide) edgeRequests (ascii "127.0.0.1")).1
    [edgeServed.take 2, edgeServed.drop 2]
  have hfirst : IsWindow (within { limit := 1 }) (edgeServed.take 2) := by
    intro e he
    rw [List.mem_singleton.mp he]
    rfl
  have hsecond : IsWindow (within { limit := 1 }) (edgeServed.drop 2) := by
    intro e he
    cases he
  have hover : Follows (within { limit := 1 }) (edgeServed.take 2) (edgeServed.drop 2) := by
    rintro _ ⟨⟩ _ ⟨⟩
    rfl
  have hwindows : Windows (within { limit := 1 }) [edgeServed.take 2, edgeServed.drop 2] := by
    refine ⟨fun w hw => ?_, List.isChain_pair.mpr hover⟩
    rcases List.mem_cons.mp hw with rfl | hw
    · exact hfirst
    · rw [List.mem_singleton.mp hw]
      exact hsecond
  have htwo : (edgeServed.take 2).length < 2 ^ 31 := by
    show (2 : Nat) < 2 ^ 31
    decide
  have hone : (edgeServed.drop 2).length < 2 ^ 31 := by
    show (1 : Nat) < 2 ^ 31
    decide
  exact ⟨hkept hwindows rfl _ (List.mem_cons_self ..) htwo,
    hkept hwindows rfl _ (List.mem_cons_of_mem _ (List.mem_singleton_self _)) hone⟩

end RateLimitOptions

end VHono
