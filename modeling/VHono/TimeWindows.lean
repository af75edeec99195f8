import Mathlib.Tactic

/-! # Windows that the first comer opens

    A sequence of arrivals falls into windows: the first arrival opens one,
    and an arrival for which no window is open any more opens the next.  Whether
    a window is still open depends on its opener and on the arrival alone.  The
    windows of a sequence, and the window its last arrival is in. -/

namespace TimeWindows

variable {α : Type*} (within : α → α → Bool)

/-- The opener, and arrivals while its window is open. -/
def IsWindow : List α → Prop
  | [] => False
  | o :: rest => ∀ a ∈ rest, within o a = true

/-- The second window is opened when the first is over. -/
def Follows (w w' : List α) : Prop :=
  ∀ o ∈ w.head?, ∀ a ∈ w'.head?, within o a = false

/-- The windows of a sequence, one after another. -/
structure Windows (ws : List (List α)) : Prop where
  each  : ∀ w ∈ ws, IsWindow within w
  chain : ws.IsChain (Follows within)

/-- The window that an arrival is in, after the window before it. -/
def extend (w : List α) (a : α) : List α :=
  match w with
  | [] => [a]
  | o :: rest => if within o a = true then o :: rest ++ [a] else [a]

/-- The window of the last arrival. -/
def current (arrivals : List α) : List α := arrivals.foldl (extend within) []

variable {within}

theorem current_concat (arrivals : List α) (a : α) :
    current within (arrivals ++ [a]) = extend within (current within arrivals) a := by
  rw [current, List.foldl_append]
  rfl

theorem IsWindow.ne_nil {w : List α} (h : IsWindow within w) : w ≠ [] := by
  rintro rfl
  exact h

/-- Arrivals of one window, after its opener. -/
theorem foldl_extend {o : α} : ∀ {rest w : List α}, (∀ a ∈ rest, within o a = true) →
    rest.foldl (extend within) (o :: w) = o :: w ++ rest := by
  intro rest
  induction rest with
  | nil => intro w _; simp
  | cons a rest ih =>
      intro w h
      rw [List.forall_mem_cons] at h
      rw [List.foldl_cons, extend, if_pos h.1, List.cons_append, ih h.2]
      simp

/-- A window that follows another begins with its opener alone. -/
theorem foldl_extend_follows {w w' : List α} (hw' : IsWindow within w')
    (h : Follows within w w') : w'.foldl (extend within) w = w' := by
  cases w' with
  | nil => exact hw'.elim
  | cons a rest =>
      have hopen : extend within w a = [a] := by
        cases w with
        | nil => rfl
        | cons o _ =>
            have hover : within o a = false := h o rfl a rfl
            rw [extend, hover]
            rfl
      rw [List.foldl_cons, hopen, foldl_extend hw']
      rfl

/-- **THE WINDOW OF AN ARRIVAL.**  In a sequence cut into windows it is what has come of the
    window that the arrival is in. -/
theorem current_of_windows {ws ws' : List (List α)} {A B : List α}
    (h : Windows within (ws ++ (A ++ B) :: ws')) (hne : A ≠ []) :
    current within (ws.flatten ++ A) = A := by
  have hlast : ∀ vs : List (List α), Windows within vs →
      current within vs.flatten = vs.getLast?.getD [] := by
    intro vs
    induction vs using List.reverseRecOn with
    | nil => intro _; rfl
    | append_singleton vs w ih =>
        rintro ⟨heach, hchain⟩
        obtain ⟨hvs, -, hjoin⟩ := List.isChain_append.mp hchain
        have hbefore := ih ⟨fun v hv => heach v (List.mem_append_left _ hv), hvs⟩
        have hw := heach w (List.mem_append_right _ (List.mem_singleton_self w))
        rw [List.flatten_append, current, List.foldl_append]
        show ([w].flatten).foldl (extend within) (current within vs.flatten) = _
        rw [List.flatten_singleton, List.getLast?_concat, hbefore]
        refine foldl_extend_follows hw ?_
        cases hv : vs.getLast? with
        | none => intro o ho; cases ho
        | some v => exact hjoin v hv w rfl
  obtain ⟨heach, hchain⟩ := h
  obtain ⟨hws, -, hjoin⟩ := List.isChain_append.mp hchain
  have hbefore := hlast ws ⟨fun v hv => heach v (List.mem_append_left _ hv), hws⟩
  -- what has come of a window is a window
  have hA : IsWindow within A := by
    have hAB := heach (A ++ B) (List.mem_append_right _ (List.mem_cons_self ..))
    cases A with
    | nil => exact absurd rfl hne
    | cons o rest => exact fun a ha => hAB a (List.mem_append_left _ ha)
  rw [current, List.foldl_append]
  show A.foldl (extend within) (current within ws.flatten) = A
  rw [hbefore]
  refine foldl_extend_follows hA ?_
  cases hv : ws.getLast? with
  | none => intro o ho; cases ho
  | some v =>
      intro o ho a ha
      refine hjoin v hv (A ++ B) rfl o ho a ?_
      cases A with
      | nil => exact absurd rfl hne
      | cons b rest => exact ha

/-- Every sequence falls into windows. -/
theorem exists_windows (arrivals : List α) :
    ∃ ws, Windows within ws ∧ ws.flatten = arrivals := by
  induction arrivals using List.reverseRecOn with
  | nil => exact ⟨[], ⟨by simp, List.isChain_nil⟩, rfl⟩
  | append_singleton arrivals a ih =>
      obtain ⟨ws, ⟨heach, hchain⟩, rfl⟩ := ih
      cases ws using List.reverseRecOn with
      | nil => exact ⟨[[a]], ⟨by simp [IsWindow], List.isChain_singleton _⟩, rfl⟩
      | append_singleton ws w =>
          have hw := heach w (List.mem_append_right _ (List.mem_singleton_self w))
          obtain ⟨hws, -, hjoin⟩ := List.isChain_append.mp hchain
          obtain ⟨o, rest, rfl⟩ := List.exists_cons_of_ne_nil hw.ne_nil
          by_cases ha : within o a = true
          · -- the window is still open
            refine ⟨ws ++ [o :: rest ++ [a]], ⟨?_, ?_⟩, by simp⟩
            · intro v hv
              rcases List.mem_append.mp hv with hv | hv
              · exact heach v (List.mem_append_left _ hv)
              · rw [List.mem_singleton.mp hv]
                intro b hb
                rcases List.mem_append.mp hb with hb | hb
                · exact hw b hb
                · rw [List.mem_singleton.mp hb]
                  exact ha
            · refine List.isChain_append.mpr ⟨hws, List.isChain_singleton _, ?_⟩
              intro v hv u hu
              cases hu
              exact fun p hp q hq => hjoin v hv (o :: rest) rfl p hp q hq
          · refine ⟨ws ++ [o :: rest] ++ [[a]], ⟨?_, ?_⟩, by simp⟩
            · intro v hv
              rcases List.mem_append.mp hv with hv | hv
              · exact heach v hv
              · rw [List.mem_singleton.mp hv]
                intro b hb
                cases hb
            · refine List.isChain_append.mpr ⟨hchain, List.isChain_singleton _, ?_⟩
              intro v hv u hu
              rw [List.getLast?_concat] at hv
              cases hv
              cases hu
              rintro _ ⟨⟩ _ ⟨⟩
              exact Bool.eq_false_iff.mpr ha

/-! ## The first few -/

/-- If exactly the first `n` of a list pass a test, the number that pass is the length, or `n`. -/
theorem length_filter_first (test : α → Bool) (n : Nat) (l : List α)
    (h : ∀ A a B, l = A ++ a :: B → (test a = true ↔ A.length < n)) :
    (l.filter test).length = min l.length n := by
  induction l using List.reverseRecOn with
  | nil => simp
  | append_singleton l a ih =>
      have hl := ih (fun A b B hl => h A b (B ++ [a]) (by rw [hl]; simp))
      have ha := h l a [] rfl
      rw [List.filter_append, List.length_append, hl, List.length_append]
      by_cases hn : l.length < n
      · rw [List.filter_singleton, ha.mpr hn]
        simp
        omega
      · rw [List.filter_singleton, Bool.eq_false_iff.mpr (fun htest => hn (ha.mp htest))]
        simp
        omega

end TimeWindows
