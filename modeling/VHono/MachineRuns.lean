import Mathlib.Tactic

/-! # Deterministic machines — runs, histories and their induction rules

    A machine is a total step function: an input takes a state to the next
    state and an output.  A run is a list of inputs; its *events* record, for
    each input, the inputs before it, the state it found and the output it
    produced.  History-dependent properties ("some earlier input was ...")
    are stated over events, so they need no ghost fields in the state.

    The file packages the two inductions every development over such a
    machine repeats: an invariant carried along a run (`events_good`), and the
    lock-step simulation of one machine by another (`outputs_eq_of_sim`). -/

namespace MachineRuns

variable {σ τ ι ο : Type*}

/-- One event of a run. -/
structure Event (σ ι ο : Type*) where
  past   : List ι
  before : σ
  input  : ι
  output : ο

/-- The events of a run, the inputs in `past` having been consumed already. -/
def eventsFrom (step : σ → ι → σ × ο) : List ι → σ → List ι → List (Event σ ι ο)
  | _, _, [] => []
  | past, s, i :: is =>
      ⟨past, s, i, (step s i).2⟩ :: eventsFrom step (past ++ [i]) (step s i).1 is

/-- The events of a run from its first input. -/
def events (step : σ → ι → σ × ο) (s : σ) (is : List ι) : List (Event σ ι ο) :=
  eventsFrom step [] s is

/-- Every event of a run has the property. -/
def Always (P : Event σ ι ο → Prop) (step : σ → ι → σ × ο) (s : σ) (is : List ι) : Prop :=
  ∀ e ∈ events step s is, P e

/-- The state a run ends in. -/
def final (step : σ → ι → σ × ο) : σ → List ι → σ
  | s, [] => s
  | s, i :: is => final step (step s i).1 is

/-- The outputs of a run, in order. -/
def outputs (step : σ → ι → σ × ο) : σ → List ι → List ο
  | _, [] => []
  | s, i :: is => (step s i).2 :: outputs step (step s i).1 is

@[simp] theorem final_nil (step : σ → ι → σ × ο) (s : σ) : final step s [] = s := rfl

@[simp] theorem final_cons (step : σ → ι → σ × ο) (s : σ) (i : ι) (is : List ι) :
    final step s (i :: is) = final step (step s i).1 is := rfl

/-- An event's input stands in the run just after the inputs before it. -/
theorem eventsFrom_split {step : σ → ι → σ × ο} {e : Event σ ι ο} :
    ∀ {is past : List ι} {s : σ}, e ∈ eventsFrom step past s is →
      ∃ pre post, is = pre ++ e.input :: post ∧ e.past = past ++ pre := by
  intro is
  induction is with
  | nil => intro past s he; cases he
  | cons i is ih =>
      intro past s he
      rcases List.mem_cons.mp he with heq | hmem
      · exact ⟨[], is, by rw [heq]; rfl, by rw [heq, List.append_nil]⟩
      · obtain ⟨pre, post, his, hpast⟩ := ih hmem
        refine ⟨i :: pre, post, by rw [his]; rfl, ?_⟩
        rw [hpast, List.append_assoc]
        rfl

/-- An event's output is what its input makes of the state it found. -/
theorem eventsFrom_output {step : σ → ι → σ × ο} {e : Event σ ι ο} :
    ∀ {is past : List ι} {s : σ}, e ∈ eventsFrom step past s is →
      e.output = (step e.before e.input).2 := by
  intro is
  induction is with
  | nil => intro past s he; cases he
  | cons i is ih =>
      intro past s he
      rcases List.mem_cons.mp he with rfl | hmem
      · rfl
      · exact ih hmem

/-- **THE INVARIANT RULE.**  `Inv` relates the inputs consumed so far to the
    state; an input meeting `Ok` keeps it and makes its event `Good`. -/
theorem eventsFrom_good {step : σ → ι → σ × ο}
    {Inv : List ι → σ → Prop} {Ok : List ι → σ → ι → Prop}
    {Good : Event σ ι ο → Prop}
    (hstep : ∀ past s i, Inv past s → Ok past s i →
      Inv (past ++ [i]) (step s i).1 ∧ Good ⟨past, s, i, (step s i).2⟩) :
    ∀ (is : List ι) (past : List ι) (s : σ), Inv past s →
      (∀ e ∈ eventsFrom step past s is, Ok e.past e.before e.input) →
      ∀ e ∈ eventsFrom step past s is, Good e := by
  intro is
  induction is with
  | nil => intro past s _ _ e he; cases he
  | cons i is ih =>
      intro past s hinv hok e he
      have hnow : Ok past s i := hok ⟨past, s, i, (step s i).2⟩ (List.mem_cons_self ..)
      obtain ⟨hinv', hgood⟩ := hstep past s i hinv hnow
      rcases List.mem_cons.mp he with heq | hmem
      · rw [heq]; exact hgood
      · exact ih (past ++ [i]) (step s i).1 hinv'
          (fun e' he' => hok e' (List.mem_cons_of_mem _ he')) e hmem

/-- The invariant rule for a run from its first input. -/
theorem events_good {step : σ → ι → σ × ο} {s : σ} {is : List ι}
    {Inv : List ι → σ → Prop} {Ok : List ι → σ → ι → Prop}
    {Good : Event σ ι ο → Prop} (h0 : Inv [] s)
    (hstep : ∀ past s i, Inv past s → Ok past s i →
      Inv (past ++ [i]) (step s i).1 ∧ Good ⟨past, s, i, (step s i).2⟩)
    (hok : ∀ e ∈ events step s is, Ok e.past e.before e.input) :
    ∀ e ∈ events step s is, Good e :=
  eventsFrom_good hstep is [] s h0 hok

/-- An invariant kept by every input holds wherever an event begins. -/
theorem events_before {step : σ → ι → σ × ο} (Inv : σ → Prop)
    (hstep : ∀ s i, Inv s → Inv (step s i).1) {s : σ} (h0 : Inv s) (is : List ι) :
    ∀ e ∈ events step s is, Inv e.before :=
  eventsFrom_good (fun _ s i h (_ : True) => ⟨hstep s i h, h⟩) is [] s h0 (fun _ _ => trivial)

/-- An invariant kept by every input holds in the state a run ends in. -/
theorem final_inv {step : σ → ι → σ × ο} {Inv : List ι → σ → Prop}
    (hstep : ∀ past s i, Inv past s → Inv (past ++ [i]) (step s i).1) :
    ∀ (is past : List ι) (s : σ), Inv past s → Inv (past ++ is) (final step s is) := by
  intro is
  induction is with
  | nil => intro past s h; rw [List.append_nil]; exact h
  | cons i is ih =>
      intro past s h
      have := ih (past ++ [i]) (step s i).1 (hstep past s i h)
      rw [List.append_assoc] at this
      exact this

/-- The states of a run, from the one it starts in to the one it ends in. -/
def states (step : σ → ι → σ × ο) : σ → List ι → List σ
  | s, [] => [s]
  | s, i :: is => s :: states step (step s i).1 is

theorem start_mem_states (step : σ → ι → σ × ο) (s : σ) (is : List ι) : s ∈ states step s is := by
  cases is with
  | nil => exact List.mem_singleton.mpr rfl
  | cons i is => exact List.mem_cons_self ..

/-- The state an event leads to is one of the run. -/
theorem after_mem_states {step : σ → ι → σ × ο} {e : Event σ ι ο} :
    ∀ {is past : List ι} {s : σ}, e ∈ eventsFrom step past s is →
      (step e.before e.input).1 ∈ states step s is := by
  intro is
  induction is with
  | nil => intro past s he; cases he
  | cons i is ih =>
      intro past s he
      rcases List.mem_cons.mp he with rfl | hmem
      · exact List.mem_cons_of_mem _ (start_mem_states step _ is)
      · exact List.mem_cons_of_mem _ (ih hmem)

/-- So is the state an event finds. -/
theorem before_mem_states {step : σ → ι → σ × ο} {e : Event σ ι ο} :
    ∀ {is past : List ι} {s : σ}, e ∈ eventsFrom step past s is →
      e.before ∈ states step s is := by
  intro is
  induction is with
  | nil => intro past s he; cases he
  | cons i is ih =>
      intro past s he
      rcases List.mem_cons.mp he with rfl | hmem
      · exact List.mem_cons_self ..
      · exact List.mem_cons_of_mem _ (ih hmem)

/-- **THE STATES RULE.**  An invariant that every input meeting `Ok` keeps holds in every state
    of a run of such inputs. -/
theorem statesFrom_inv {step : σ → ι → σ × ο} (Inv : σ → Prop) (Ok : σ → ι → Prop)
    (hstep : ∀ s i, Inv s → Ok s i → Inv (step s i).1) :
    ∀ {is past : List ι} {s : σ}, Inv s →
      (∀ e ∈ eventsFrom step past s is, Ok e.before e.input) → ∀ t ∈ states step s is, Inv t := by
  intro is
  induction is with
  | nil =>
      intro past s h _ t ht
      rw [List.mem_singleton.mp ht]
      exact h
  | cons i is ih =>
      intro past s h hok t ht
      rcases List.mem_cons.mp ht with rfl | hmem
      · exact h
      · exact ih (hstep s i h (hok _ (List.mem_cons_self ..)))
          (fun e he => hok e (List.mem_cons_of_mem _ he)) t hmem

/-- The states rule for a run from its first input. -/
theorem states_inv {step : σ → ι → σ × ο} (Inv : σ → Prop) (Ok : σ → ι → Prop)
    (hstep : ∀ s i, Inv s → Ok s i → Inv (step s i).1) {s : σ} (h : Inv s) (is : List ι)
    (hok : ∀ e ∈ events step s is, Ok e.before e.input) : ∀ t ∈ states step s is, Inv t :=
  statesFrom_inv Inv Ok hstep h hok

/-- **THE EVENTS RULE.**  An invariant that every event meeting `Ok` keeps, and that makes it
    `Good`, makes all events of a run of such events `Good`. -/
theorem eventsFrom_each {step : σ → ι → σ × ο} (Inv : σ → Prop) (Ok Good : Event σ ι ο → Prop)
    (hstep : ∀ past s i, Inv s → Ok ⟨past, s, i, (step s i).2⟩ →
      Inv (step s i).1 ∧ Good ⟨past, s, i, (step s i).2⟩) :
    ∀ {is past : List ι} {s : σ}, Inv s → (∀ e ∈ eventsFrom step past s is, Ok e) →
      ∀ e ∈ eventsFrom step past s is, Good e := by
  intro is
  induction is with
  | nil => intro past s _ _ e he; cases he
  | cons i is ih =>
      intro past s h hok e he
      obtain ⟨hnext, hgood⟩ := hstep past s i h (hok _ (List.mem_cons_self ..))
      rcases List.mem_cons.mp he with rfl | hmem
      · exact hgood
      · exact ih hnext (fun e' he' => hok e' (List.mem_cons_of_mem _ he')) e hmem

/-- The events rule for a run from its first input. -/
theorem events_each {step : σ → ι → σ × ο} (Inv : σ → Prop) (Ok Good : Event σ ι ο → Prop)
    (hstep : ∀ past s i, Inv s → Ok ⟨past, s, i, (step s i).2⟩ →
      Inv (step s i).1 ∧ Good ⟨past, s, i, (step s i).2⟩)
    {s : σ} (h : Inv s) (is : List ι) (hok : ∀ e ∈ events step s is, Ok e) :
    ∀ e ∈ events step s is, Good e :=
  eventsFrom_each Inv Ok Good hstep h hok

/-- What follows an event is the run from the state it led to. -/
theorem eventsFrom_after {step : σ → ι → σ × ο} {e : Event σ ι ο} {A R : List (Event σ ι ο)} :
    ∀ {is past : List ι} {s : σ}, eventsFrom step past s is = A ++ e :: R →
      ∃ past' is', R = eventsFrom step past' (step e.before e.input).1 is' := by
  induction A with
  | nil =>
      intro is past s h
      cases is with
      | nil => cases h
      | cons i is =>
          obtain ⟨he, hR⟩ := List.cons.inj h
          rw [← he]
          exact ⟨past ++ [i], is, hR.symm⟩
  | cons a A ih =>
      intro is past s h
      cases is with
      | nil => cases h
      | cons i is => exact ih (List.cons.inj h).2

/-- **THE UNTIL RULE.**  If every input that meets `Ok` keeps `Inv` without a `Bad` event, or
    makes a `Release` event, then no event is `Bad` before a `Release`. -/
theorem eventsFrom_until {step : σ → ι → σ × ο} {Inv : σ → Prop}
    (Ok Bad Release : Event σ ι ο → Prop)
    (hstep : ∀ past s i, Inv s → Ok ⟨past, s, i, (step s i).2⟩ →
      Release ⟨past, s, i, (step s i).2⟩ ∨
        (Inv (step s i).1 ∧ ¬ Bad ⟨past, s, i, (step s i).2⟩)) :
    ∀ {is past : List ι} {s : σ} {B C : List (Event σ ι ο)} {e : Event σ ι ο}, Inv s →
      (∀ e ∈ eventsFrom step past s is, Ok e) → eventsFrom step past s is = B ++ e :: C → Bad e →
      ∃ r ∈ B ++ [e], Release r := by
  intro is
  induction is with
  | nil =>
      intro past s B C e _ _ h _
      exact absurd h.symm (List.append_ne_nil_of_right_ne_nil _ (List.cons_ne_nil _ _))
  | cons i is ih =>
      intro past s B C e hinv hok h hbad
      have hnow := hstep past s i hinv (hok _ (List.mem_cons_self ..))
      cases B with
      | nil =>
          obtain ⟨rfl, -⟩ := List.cons.inj h
          rcases hnow with hrelease | ⟨-, hgood⟩
          · exact ⟨_, List.mem_cons_self .., hrelease⟩
          · exact absurd hbad hgood
      | cons b B =>
          obtain ⟨rfl, hrest⟩ := List.cons.inj h
          rcases hnow with hrelease | ⟨hinv', -⟩
          · exact ⟨_, List.mem_cons_self .., hrelease⟩
          · obtain ⟨r, hr, hrelease⟩ :=
              ih hinv' (fun e' he' => hok e' (List.mem_cons_of_mem _ he')) hrest hbad
            exact ⟨r, List.mem_cons_of_mem _ hr, hrelease⟩

/-- **THE GHOST RULE.**  A ghost is computed from the events and kept in the invariant: what a
    step makes `Good` then holds of the ghost of all events before. -/
theorem eventsFrom_ghost {step : σ → ι → σ × ο} {γ : Type*} (ghost : γ → Event σ ι ο → γ)
    (Inv : γ → σ → Prop) (Ok : Event σ ι ο → Prop) (Good : γ → Event σ ι ο → Prop)
    (hstep : ∀ g past s i, Inv g s → Ok ⟨past, s, i, (step s i).2⟩ →
      Inv (ghost g ⟨past, s, i, (step s i).2⟩) (step s i).1 ∧
        Good g ⟨past, s, i, (step s i).2⟩) :
    ∀ {is past : List ι} {s : σ} {g : γ} {B C : List (Event σ ι ο)} {e : Event σ ι ο}, Inv g s →
      eventsFrom step past s is = B ++ e :: C → (∀ e' ∈ B ++ [e], Ok e') →
      Good (B.foldl ghost g) e := by
  intro is
  induction is with
  | nil =>
      intro past s g B C e _ h _
      exact absurd h.symm (List.append_ne_nil_of_right_ne_nil _ (List.cons_ne_nil _ _))
  | cons i is ih =>
      intro past s g B C e hinv h hok
      cases B with
      | nil =>
          obtain ⟨rfl, -⟩ := List.cons.inj h
          exact (hstep g past s i hinv (hok _ (List.mem_cons_self ..))).2
      | cons b B =>
          obtain ⟨rfl, hrest⟩ := List.cons.inj h
          have hnow := hstep g past s i hinv (hok _ (List.mem_cons_self ..))
          rw [List.foldl_cons]
          exact ih hnow.1 hrest (fun e' he' => hok e' (List.mem_cons_of_mem _ he'))

/-- The inputs of the events are the inputs of the run. -/
theorem map_input_eventsFrom (step : σ → ι → σ × ο) :
    ∀ (is past : List ι) (s : σ), (eventsFrom step past s is).map Event.input = is := by
  intro is
  induction is with
  | nil => exact fun _ _ => rfl
  | cons i is ih => exact fun past s => congrArg (i :: ·) (ih _ _)

/-- **THE HISTORY RULE.**  What the events so far say of the state is kept by every event that
    meets `Ok` after them, and makes it `Good` after them. -/
theorem eventsFrom_history {step : σ → ι → σ × ο} (Inv : List (Event σ ι ο) → σ → Prop)
    (Ok Good : List (Event σ ι ο) → Event σ ι ο → Prop)
    (hstep : ∀ A past s i, Inv A s → Ok A ⟨past, s, i, (step s i).2⟩ →
      Inv (A ++ [⟨past, s, i, (step s i).2⟩]) (step s i).1 ∧
        Good A ⟨past, s, i, (step s i).2⟩) :
    ∀ {is past : List ι} {s : σ} {A B C : List (Event σ ι ο)} {e : Event σ ι ο}, Inv A s →
      (∀ B e C, eventsFrom step past s is = B ++ e :: C → Ok (A ++ B) e) →
      eventsFrom step past s is = B ++ e :: C → Good (A ++ B) e := by
  intro is
  induction is with
  | nil =>
      intro past s A B C e _ _ h
      exact absurd h.symm (List.append_ne_nil_of_right_ne_nil _ (List.cons_ne_nil _ _))
  | cons i is ih =>
      intro past s A B C e hinv hok h
      have hfirst := hok [] ⟨past, s, i, (step s i).2⟩ _ rfl
      rw [List.append_nil] at hfirst
      obtain ⟨hnext, hgood⟩ := hstep A past s i hinv hfirst
      cases B with
      | nil =>
          obtain ⟨rfl, -⟩ := List.cons.inj h
          rw [List.append_nil]
          exact hgood
      | cons b B =>
          obtain ⟨rfl, hrest⟩ := List.cons.inj h
          have hrun := @ih (past ++ [i]) (step s i).1 _ B C e hnext (by
            intro B' e' C' hB'
            rw [List.append_assoc]
            exact hok (_ :: B') e' C' (congrArg (_ :: ·) hB')) hrest
          rw [List.append_assoc] at hrun
          exact hrun

/-- **LOCK-STEP SIMULATION.**  Two machines fed the same inputs, related by `R`
    and answering alike at every input that meets `Ok`, have the same outputs. -/
theorem outputs_eq_of_sim {step : σ → ι → σ × ο} {step' : τ → ι → τ × ο}
    {R : List ι → σ → τ → Prop} {Ok : List ι → σ → ι → Prop}
    (hstep : ∀ past s t i, R past s t → Ok past s i →
      R (past ++ [i]) (step s i).1 (step' t i).1 ∧ (step s i).2 = (step' t i).2) :
    ∀ (is past : List ι) (s : σ) (t : τ), R past s t →
      (∀ e ∈ eventsFrom step past s is, Ok e.past e.before e.input) →
      outputs step s is = outputs step' t is := by
  intro is
  induction is with
  | nil => intro past s t _ _; rfl
  | cons i is ih =>
      intro past s t hR hok
      have hnow : Ok past s i := hok ⟨past, s, i, (step s i).2⟩ (List.mem_cons_self ..)
      obtain ⟨hR', hout⟩ := hstep past s t i hR hnow
      have htail := ih (past ++ [i]) _ _ hR'
        (fun e he => hok e (List.mem_cons_of_mem _ he))
      show (step s i).2 :: outputs step (step s i).1 is
        = (step' t i).2 :: outputs step' (step' t i).1 is
      rw [hout, htail]

/-! ## What lasts -/

variable {α : Type*}

/-- Something was started, and nothing after it ended it. -/
def Lasting (Starts Ends : α → Prop) (A : List α) : Prop :=
  ∃ B e C, A = B ++ e :: C ∧ Starts e ∧ ∀ e' ∈ C, ¬ Ends e'

theorem not_lasting_nil (Starts Ends : α → Prop) : ¬ Lasting Starts Ends [] := by
  rintro ⟨B, e, C, h, -⟩
  exact absurd h.symm (List.append_ne_nil_of_right_ne_nil _ (List.cons_ne_nil _ _))

/-- One event more starts it, or leaves it if it does not end it. -/
theorem lasting_snoc {Starts Ends : α → Prop} {A : List α} {e : α} :
    Lasting Starts Ends (A ++ [e]) ↔ Starts e ∨ (Lasting Starts Ends A ∧ ¬ Ends e) := by
  constructor
  · rintro ⟨B, b, C, hA, hstarts, hends⟩
    rcases List.eq_nil_or_concat C with rfl | ⟨C, c, rfl⟩
    · obtain ⟨-, he⟩ := List.append_inj' hA rfl
      rw [← List.head_eq_of_cons_eq he] at hstarts
      exact Or.inl hstarts
    · rw [List.concat_eq_append, ← List.cons_append, ← List.append_assoc] at hA
      obtain ⟨hA, he⟩ := List.append_inj' hA rfl
      rw [List.concat_eq_append] at hends
      refine Or.inr ⟨⟨B, b, C, hA, hstarts, fun e' he' => hends e' (List.mem_append_left _ he')⟩, ?_⟩
      rw [List.head_eq_of_cons_eq he]
      exact hends c (List.mem_append_right _ (List.mem_singleton.mpr rfl))
  · rintro (hstarts | ⟨⟨B, b, C, hA, hstarts, hends⟩, he⟩)
    · exact ⟨A, e, [], rfl, hstarts, List.forall_mem_nil _⟩
    · refine ⟨B, b, C ++ [e], by rw [hA, List.append_assoc]; rfl, hstarts, ?_⟩
      intro e' he'
      rcases List.mem_append.mp he' with he' | he'
      · exact hends e' he'
      · rw [List.mem_singleton.mp he']
        exact he

/-- What starts less often, and ends more often, lasts less often. -/
theorem Lasting.mono {Starts Starts' Ends Ends' : α → Prop} {A : List α}
    (h : Lasting Starts Ends A) (hstarts : ∀ e ∈ A, Starts e → Starts' e)
    (hends : ∀ e ∈ A, Ends' e → Ends e) : Lasting Starts' Ends' A := by
  obtain ⟨B, e, C, rfl, he, hC⟩ := h
  refine ⟨B, e, C, rfl, hstarts e (List.mem_append_right _ (List.mem_cons_self ..)) he, ?_⟩
  intro e' he' hend
  exact hC e' he'
    (hends e' (List.mem_append_right _ (List.mem_cons_of_mem _ he')) hend)

end MachineRuns

/-! ## Programs that call their surroundings

    A program is done with a result, or makes a call and goes on with the
    answer.  Nothing is assumed of the answers: what is said of every call that
    a program makes is said for all surroundings. -/

/-- A program over calls with answers of their own types. -/
inductive CallProgram {Call : Type} (Answer : Call → Type) (α : Type) : Type
  | done (result : α)
  | ask (call : Call) (next : Answer call → CallProgram Answer α)

namespace CallProgram

variable {Call : Type} {Answer : Call → Type} {α β ι : Type}

/-- The calls that a run of the program makes, for some answers to those before. -/
inductive Makes : CallProgram Answer α → Call → Prop
  | here {call next} : Makes (.ask call next) call
  | later {call next c} (answer : Answer call) (h : Makes (next answer) c) :
      Makes (.ask call next) c

/-- Whatever the answers are, the program makes only such calls. -/
def Only (P : Call → Prop) : CallProgram Answer α → Prop
  | .done _ => True
  | .ask call next => P call ∧ ∀ answer, Only P (next answer)

@[simp] theorem only_done {P : Call → Prop} (result : α) :
    Only P (.done result : CallProgram Answer α) ↔ True := Iff.rfl

@[simp] theorem only_ask {P : Call → Prop} {call : Call} {next : Answer call → CallProgram Answer α} :
    Only P (.ask call next) ↔ P call ∧ ∀ answer, Only P (next answer) := Iff.rfl

/-- **ONLY SUCH CALLS** means that every call that is made is one. -/
theorem only_iff {P : Call → Prop} {program : CallProgram Answer α} :
    program.Only P ↔ ∀ call, program.Makes call → P call := by
  constructor
  · intro h call hmakes
    induction hmakes with
    | here => exact h.1
    | later answer _ ih => exact ih (h.2 answer)
  · induction program with
    | done result => intro _; trivial
    | ask call next ih =>
        intro h
        exact ⟨h call .here, fun answer => ih answer (fun c hc => h c (.later answer hc))⟩

/-- One program after the other. -/
def andThen : CallProgram Answer α → (α → CallProgram Answer β) → CallProgram Answer β
  | .done result, f => f result
  | .ask call next, f => .ask call (fun answer => (next answer).andThen f)

/-- A program for each element of a list, one after the other. -/
def fold (f : α → ι → CallProgram Answer α) : α → List ι → CallProgram Answer α
  | acc, [] => .done acc
  | acc, i :: is => (f acc i).andThen (fun acc => fold f acc is)

theorem only_andThen {P : Call → Prop} {program : CallProgram Answer α}
    {f : α → CallProgram Answer β} (h : program.Only P) (hf : ∀ a, (f a).Only P) :
    (program.andThen f).Only P := by
  induction program with
  | done result => exact hf result
  | ask call next ih => exact ⟨h.1, fun answer => ih answer (h.2 answer)⟩

theorem only_fold {P : Call → Prop} {f : α → ι → CallProgram Answer α} {is : List ι}
    (h : ∀ acc, ∀ i ∈ is, (f acc i).Only P) : ∀ acc, (fold f acc is).Only P := by
  induction is with
  | nil => intro acc; trivial
  | cons i is ih =>
      intro acc
      exact only_andThen (h acc i (List.mem_cons_self ..))
        (ih (fun acc j hj => h acc j (List.mem_cons_of_mem _ hj)))

end CallProgram
