import VHono.StreamRegistry

/-! # Streams of different requests

    As long as an id is given to one request at a time, each request finds its
    own callback.  The clock does not see to that: two requests of the same
    nanosecond, or of the same millisecond a whole number of milliseconds
    apart in their second reading, get one id. -/

namespace VHono

open ByteString MachineRuns

variable {κ η : Type}

/-! ## The functions -/

theorem startStream_store (typeName : ByteString) (fields : List (ByteString × ByteString))
    (config : StreamConfig κ η) (c : Context) (now later : Nat) (storage : StreamStorage κ η) :
    (startStream typeName fields config c now later storage).1.store.get? (ascii "_stream_id")
      = some (generateStreamId now later) := by
  have hid : ascii "_stream_id" ≠ ascii "_stream_type" := by decide
  rw [startStream, InsertionMap.get?_insert_ne _ _ hid, InsertionMap.get?_insert_self]

theorem isStreamingResponse_startStream (typeName : ByteString)
    (fields : List (ByteString × ByteString)) (config : StreamConfig κ η) (c : Context)
    (now later : Nat) (storage : StreamStorage κ η) :
    isStreamingResponse (startStream typeName fields config c now later storage).1 = true := by
  have htype : ascii "_stream" ≠ ascii "_stream_type" := by decide
  have hid : ascii "_stream" ≠ ascii "_stream_id" := by decide
  rw [isStreamingResponse, startStream, InsertionMap.get?_insert_ne _ _ htype,
    InsertionMap.get?_insert_ne _ _ hid, InsertionMap.get?_insert_self, beq_self_eq_true]

/-- What a registration does, whichever of the three functions makes it. -/
theorem registerStream_spec (config : StreamConfig κ η) (c : Context) (now later : Nat)
    (storage : StreamStorage κ η) :
    (registerStream config c now later storage).1.store.get? (ascii "_stream_id")
      = some (generateStreamId now later) ∧
    isStreamingResponse (registerStream config c now later storage).1 = true ∧
    (registerStream config c now later storage).2.1
      = storage.insert (generateStreamId now later) config := by
  obtain ⟨streamType, callback, errorHandler⟩ := config
  cases streamType with
  | basic => exact ⟨startStream_store .., isStreamingResponse_startStream .., rfl⟩
  | text => exact ⟨startStream_store .., isStreamingResponse_startStream .., rfl⟩
  | sse => exact ⟨startStream_store .., isStreamingResponse_startStream .., rfl⟩

namespace StreamWorld

variable {ρ : Type} [DecidableEq ρ] {config : ρ → StreamConfig κ η} {w : StreamWorld ρ κ η}

/-! ## The invariant -/

/-- What the steps keep, as long as the ids are fresh. -/
structure Separate (config : ρ → StreamConfig κ η) (w : StreamWorld ρ κ η) : Prop
    extends Isolated config w where
  marked   : ∀ r, w.Holds r → isStreamingResponse (w.contexts r) = true
  distinct : ∀ r r', w.Holds r → w.Holds r' → w.idOf r = w.idOf r' → r = r'

theorem separate_start (config : ρ → StreamConfig κ η) (contexts : ρ → Context) :
    Separate config (start contexts : StreamWorld ρ κ η) where
  ran := by
    intro r
    simp [start]
  own := by
    intro r hr
    rcases hr with hr | hr <;> cases hr
  gone := fun id hid => (by cases hid)
  marked := by
    intro r hr
    rcases hr with hr | hr <;> cases hr
  distinct := by
    intro r r' hr
    rcases hr with hr | hr <;> cases hr

/-- A request that has an entry finds its own configuration. -/
theorem Separate.found (h : Separate config w) {r : ρ} (hr : w.Holds r) :
    getStreamConfig (w.contexts r) w.storage = some (config r) := by
  obtain ⟨id, hid, hget⟩ := h.own r hr
  rw [getStreamConfig, h.marked r hr]
  rw [idOf] at hid
  simp [hid, retrieveStreamConfig, hget]

omit [DecidableEq ρ] in
theorem not_holds {r : ρ} (h : w.phase r = .idle ∨ w.phase r = .done) : ¬ w.Holds r := by
  rintro (hr | hr) <;> rcases h with h | h <;> exact StreamPhase.noConfusion (hr.symm.trans h)

/-! ## One step -/

/-- The world with a registration of `r` under the id. -/
def registered (w : StreamWorld ρ κ η) (r : ρ) (c : Context) (id : ByteString)
    (found : StreamConfig κ η) : StreamWorld ρ κ η :=
  { w with
    storage := w.storage.insert id found
    contexts := Function.update w.contexts r c
    phase := Function.update w.phase r .registered }

theorem registered_same {r : ρ} {c : Context} {id : ByteString} {found : StreamConfig κ η} :
    (w.registered r c id found).Holds r ∧
      (w.registered r c id found).idOf r = c.store.get? (ascii "_stream_id") := by
  simp [registered, Holds, idOf]

theorem registered_other {r r' : ρ} (c : Context) (id : ByteString) (found : StreamConfig κ η)
    (hr' : r' ≠ r) :
    ((w.registered r c id found).Holds r' ↔ w.Holds r') ∧
      (w.registered r c id found).idOf r' = w.idOf r' := by
  simp [registered, Holds, idOf, hr']

theorem step_register (config : ρ → StreamConfig κ η) {r : ρ} (now later : Nat)
    (hidle : w.phase r = .idle) :
    ∃ c, c.store.get? (ascii "_stream_id") = some (generateStreamId now later) ∧
      isStreamingResponse c = true ∧
      (step config w (.register r now later)).1 =
        w.registered r c (generateStreamId now later) (config r) := by
  obtain ⟨hid, hmark, hstorage⟩ := registerStream_spec (config r) (w.contexts r) now later w.storage
  refine ⟨_, hid, hmark, ?_⟩
  rw [step, if_pos hidle, registered, ← hstorage]

theorem Separate.registered (h : Separate config w) {r : ρ} {c : Context} {id : ByteString}
    (hidle : w.phase r = .idle) (hid : c.store.get? (ascii "_stream_id") = some id)
    (hmark : isStreamingResponse c = true) (hfresh : w.storage.get? id = none) :
    Separate config (w.registered r c id (config r)) := by
  have hnot : ¬ w.Holds r := not_holds (.inl hidle)
  -- no other request was given the id
  have hother : ∀ r', w.Holds r' → w.idOf r' ≠ some id := by
    intro r' hr' hsame
    obtain ⟨id', hid', hget⟩ := h.own r' hr'
    rw [hsame] at hid'
    rw [Option.some.inj hid', hget] at hfresh
    cases hfresh
  refine ⟨⟨?_, ?_, ?_⟩, ?_, ?_⟩
  · intro r'
    rw [show (w.registered r c id (config r)).executed = w.executed from rfl, h.ran r']
    by_cases hr' : r' = r
    · subst hr'
      simp [StreamWorld.registered, hidle]
    · simp [StreamWorld.registered, hr']
  · intro r' hr'
    by_cases heq : r' = r
    · subst heq
      exact ⟨id, registered_same.2.trans hid, InsertionMap.get?_insert_self ..⟩
    · obtain ⟨hholds, hidOf⟩ := registered_other (w := w) c id (config r) heq
      obtain ⟨id', hid', hget⟩ := h.own r' (hholds.mp hr')
      have hne : id' ≠ id := fun hsame => hother r' (hholds.mp hr') (hsame ▸ hid')
      exact ⟨id', hidOf.trans hid', (InsertionMap.get?_insert_ne _ _ hne).trans hget⟩
  · intro id' hmem
    obtain ⟨found, hfound⟩ := InsertionMap.mem_keys_iff.mp hmem
    by_cases hsame : id' = id
    · exact ⟨r, registered_same.1, registered_same.2.trans (hsame ▸ hid)⟩
    · have hbefore : w.storage.get? id' = some found :=
        (InsertionMap.get?_insert_ne _ _ hsame).symm.trans hfound
      obtain ⟨r', hr', hid'⟩ := h.gone id' (InsertionMap.mem_keys_iff.mpr ⟨found, hbefore⟩)
      have hne : r' ≠ r := fun heq => hnot (heq ▸ hr')
      exact ⟨r', (registered_other _ _ _ hne).1.mpr hr', (registered_other _ _ _ hne).2.trans hid'⟩
  · intro r' hr'
    by_cases heq : r' = r
    · subst heq
      show isStreamingResponse (Function.update w.contexts r' c r') = true
      rw [Function.update_self]
      exact hmark
    · show isStreamingResponse (Function.update w.contexts r c r') = true
      rw [Function.update_of_ne heq]
      exact h.marked r' ((registered_other _ _ _ heq).1.mp hr')
  · intro r₁ r₂ h₁ h₂ hsame
    by_cases heq₁ : r₁ = r <;> by_cases heq₂ : r₂ = r
    · exact heq₁.trans heq₂.symm
    · subst heq₁
      rw [registered_same.2, (registered_other _ _ _ heq₂).2, hid] at hsame
      exact absurd hsame.symm (hother r₂ ((registered_other _ _ _ heq₂).1.mp h₂))
    · subst heq₂
      rw [registered_same.2, (registered_other _ _ _ heq₁).2, hid] at hsame
      exact absurd hsame (hother r₁ ((registered_other _ _ _ heq₁).1.mp h₁))
    · rw [(registered_other _ _ _ heq₁).2, (registered_other _ _ _ heq₂).2] at hsame
      exact h.distinct r₁ r₂ ((registered_other _ _ _ heq₁).1.mp h₁)
        ((registered_other _ _ _ heq₂).1.mp h₂) hsame

/-- The world in which `r` runs what it found. -/
def running (w : StreamWorld ρ κ η) (r : ρ) (found : StreamConfig κ η) : StreamWorld ρ κ η :=
  { w with
    phase := Function.update w.phase r .running
    executed := w.executed ++ [(r, found)] }

theorem running_holds {r : ρ} (found : StreamConfig κ η) (hphase : w.phase r = .registered)
    (r' : ρ) : (w.running r found).Holds r' ↔ w.Holds r' := by
  by_cases hr' : r' = r
  · subst hr'
    simp [running, Holds, hphase]
  · simp [running, Holds, hr']

theorem Separate.running (h : Separate config w) {r : ρ} (hphase : w.phase r = .registered) :
    Separate config (w.running r (config r)) := by
  have hholds := running_holds (config r) hphase
  refine ⟨⟨?_, ?_, ?_⟩, ?_, ?_⟩
  · intro r'
    have hran := h.ran r'
    by_cases hr' : r' = r
    · subst hr'
      rw [hphase, if_neg (by simp)] at hran
      simp [StreamWorld.running, List.filter_append, hran]
    · simp [StreamWorld.running, List.filter_append, hr', Ne.symm hr', hran]
  · exact fun r' hr' => h.own r' ((hholds r').mp hr')
  · intro id hid
    obtain ⟨r', hr', hidOf⟩ := h.gone id hid
    exact ⟨r', (hholds r').mpr hr', hidOf⟩
  · exact fun r' hr' => h.marked r' ((hholds r').mp hr')
  · exact fun r₁ r₂ h₁ h₂ => h.distinct r₁ r₂ ((hholds r₁).mp h₁) ((hholds r₂).mp h₂)

/-- The world after the entry under the id was removed for `r`. -/
def finished (w : StreamWorld ρ κ η) (r : ρ) (id : ByteString) : StreamWorld ρ κ η :=
  { w with
    storage := w.storage.erase id
    phase := Function.update w.phase r .done }

theorem finished_holds {r : ρ} {id : ByteString} (r' : ρ) :
    (w.finished r id).Holds r' ↔ r' ≠ r ∧ w.Holds r' := by
  by_cases hr' : r' = r
  · subst hr'
    simp [finished, Holds]
  · simp [finished, Holds, hr']

theorem step_finish {r : ρ} {id : ByteString} (hphase : w.phase r = .running)
    (hid : w.idOf r = some id) : (step config w (.finish r)).1 = w.finished r id := by
  rw [idOf] at hid
  rw [step, if_pos hphase, cleanupStreamConfig, hid]
  rfl

theorem Separate.finished (h : Separate config w) {r : ρ} {id : ByteString}
    (hphase : w.phase r = .running) (hid : w.idOf r = some id) :
    Separate config (w.finished r id) := by
  have hr : w.Holds r := .inr hphase
  refine ⟨⟨?_, ?_, ?_⟩, ?_, ?_⟩
  · intro r'
    rw [show (w.finished r id).executed = w.executed from rfl, h.ran r']
    by_cases hr' : r' = r
    · subst hr'
      simp [StreamWorld.finished, hphase]
    · simp [StreamWorld.finished, hr']
  · intro r' hr'
    obtain ⟨hne, hbefore⟩ := (finished_holds r').mp hr'
    obtain ⟨id', hid', hget⟩ := h.own r' hbefore
    have hother : id' ≠ id := by
      intro hsame
      exact hne (h.distinct r' r hbefore hr (hid'.trans (hsame ▸ hid.symm)))
    refine ⟨id', hid', ?_⟩
    rw [StreamWorld.finished, InsertionMap.get?_erase, if_neg hother]
    exact hget
  · intro id' hmem
    obtain ⟨found, hfound⟩ := InsertionMap.mem_keys_iff.mp hmem
    rw [StreamWorld.finished, InsertionMap.get?_erase] at hfound
    split at hfound
    · cases hfound
    · rename_i hother
      obtain ⟨r', hr', hid'⟩ := h.gone id' (InsertionMap.mem_keys_iff.mpr ⟨found, hfound⟩)
      refine ⟨r', (finished_holds r').mpr ⟨?_, hr'⟩, hid'⟩
      intro heq
      subst heq
      exact hother (Option.some.inj (hid'.symm.trans hid))
  · exact fun r' hr' => h.marked r' ((finished_holds r').mp hr').2
  · exact fun r₁ r₂ h₁ h₂ =>
      h.distinct r₁ r₂ ((finished_holds r₁).mp h₁).2 ((finished_holds r₂).mp h₂).2

/-- A step keeps the requests apart, if the id it gives out is not in use. -/
theorem Separate.step (h : Separate config w) (s : StreamStep ρ) (hfresh : w.Fresh s) :
    Separate config (step config w s).1 := by
  cases s with
  | register r now later =>
      by_cases hidle : w.phase r = .idle
      · obtain ⟨c, hid, hmark, heq⟩ :=
          step_register config now later hidle
        rw [heq]
        exact h.registered hidle hid hmark (hfresh hidle)
      · rw [StreamWorld.step, if_neg hidle]
        exact h
  | retrieve r =>
      by_cases hphase : w.phase r = .registered
      · rw [StreamWorld.step, if_pos hphase, h.found (.inl hphase)]
        exact h.running hphase
      · rw [StreamWorld.step, if_neg hphase]
        exact h
  | finish r =>
      by_cases hphase : w.phase r = .running
      · obtain ⟨id, hid, _⟩ := h.own r (.inr hphase)
        rw [step_finish hphase hid]
        exact h.finished hphase hid
      · rw [StreamWorld.step, if_neg hphase]
        exact h

/-- If the requests are isolated before and after a registration, its id was not in use: the
    request that holds it would find the new configuration. -/
theorem Isolated.fresh (h : Isolated config w) (hinjective : Function.Injective config)
    {s : StreamStep ρ} (hafter : Isolated config (StreamWorld.step config w s).1) : w.Fresh s := by
  cases s with
  | retrieve r => exact trivial
  | finish r => exact trivial
  | register r now later =>
      intro hidle
      cases hget : w.storage.get? (generateStreamId now later) with
      | none => rfl
      | some found =>
          obtain ⟨r', hr', hid'⟩ := h.gone _ (InsertionMap.mem_keys_iff.mpr ⟨found, hget⟩)
          have hne : r' ≠ r := fun heq => not_holds (.inl hidle) (heq ▸ hr')
          obtain ⟨c, hid, hmark, heq⟩ :=
            step_register config now later hidle
          rw [heq] at hafter
          obtain ⟨hholds, hidOf⟩ := registered_other (w := w) c
            (generateStreamId now later) (config r) hne
          obtain ⟨id, hsame, hown⟩ := hafter.own r' (hholds.mpr hr')
          rw [hidOf, hid'] at hsame
          obtain rfl := Option.some.inj hsame
          rw [StreamWorld.registered, InsertionMap.get?_insert_self] at hown
          exact absurd (hinjective (Option.some.inj hown)).symm hne

end StreamWorld

/-! ## Runs -/

open StreamWorld

/-- **ISOLATION OF STREAMS.**  In every order of the steps of any requests, each request runs
    the callback it registered, once, and its entry is gone afterwards and no other changed, if
    no registration is given an id in use; and where the callbacks differ, only then. -/
theorem streams_isolated_iff {ρ : Type} [DecidableEq ρ] (config : ρ → StreamConfig κ η)
    (contexts : ρ → Context) (schedule : List (StreamStep ρ)) :
    ((∀ e ∈ events (StreamWorld.step config) (start contexts) schedule, e.before.Fresh e.input) →
      ∀ w ∈ states (StreamWorld.step config) (start contexts) schedule, Isolated config w) ∧
    (Function.Injective config →
      (∀ w ∈ states (StreamWorld.step config) (start contexts) schedule, Isolated config w) →
      ∀ e ∈ events (StreamWorld.step config) (start contexts) schedule,
        e.before.Fresh e.input) := by
  constructor
  · intro hfresh w hw
    exact (states_inv (Separate config) StreamWorld.Fresh (fun w s h => h.step s)
      (separate_start config contexts) schedule hfresh w hw).toIsolated
  · intro hinjective hisolated e he
    have hbefore := hisolated _ (before_mem_states he)
    exact hbefore.fresh hinjective (hisolated _ (after_mem_states he))

def blankContext : Context :=
  ⟨⟨.get, ascii "/", [], []⟩, .empty, .empty, ascii "/", ascii "/", 200, .empty, [], .empty⟩

/-- Two streams that differ in their callbacks. -/
def twoStreams (request : Bool) : StreamConfig Bool Unit := ⟨.basic, request, none⟩

/-- Two requests that read the clock in one nanosecond get one id, and the first runs the callback
    of the second. -/
theorem second_callback_runs :
    ∃ w ∈ states (StreamWorld.step twoStreams) (start fun _ => blankContext)
        [.register false 5 5, .register true 5 5, .retrieve false],
      w.executed = [(false, twoStreams true)] ∧ ¬ Isolated twoStreams w := by
  refine ⟨_, .tail _ (.tail _ (.tail _ (.head _))), by decide +kernel, fun h => ?_⟩
  exact absurd (h.ran false) (by decide +kernel)

end VHono
