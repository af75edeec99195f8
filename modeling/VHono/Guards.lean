import Mathlib.Data.List.Perm.Basic

/-! # Layers and guards

    A layer is given a request and the rest of a chain, and may run the rest
    any number of times, on any requests.  A guard runs it once or refuses.
    What lies behind a guard that refuses has no part in the result, whatever
    stands before the guard, as long as this hands on requests of a kind that
    the guard refuses. -/

namespace Guards

variable {C R α : Type*}

/-- What is done to a request around the rest of the chain. -/
abbrev Layer (C R : Type*) := C → (C → R) → R

/-- The first layer is the outermost. -/
def chain (layers : List (Layer C R)) (handler : C → R) : C → R :=
  layers.foldr (fun layer next c => layer c next) handler

theorem chain_append (outer inner : List (Layer C R)) (handler : C → R) :
    chain (outer ++ inner) handler = chain outer (chain inner handler) := List.foldr_append

@[simp] theorem chain_cons (layer : Layer C R) (layers : List (Layer C R)) (handler : C → R)
    (c : C) : chain (layer :: layers) handler c = layer c (chain layers handler) := rfl

/-! ## Confinement -/

/-- On a request of the kind, the layer asks the rest about requests of the kind alone. -/
def Confined (P : C → Prop) (layer : Layer C R) : Prop :=
  ∀ c, P c → ∀ next next' : C → R, (∀ c', P c' → next c' = next' c') → layer c next = layer c next'

/-- **CONFINED LAYERS.**  Handlers that agree on the kind are one to a chain of them. -/
theorem chain_congr {P : C → Prop} {layers : List (Layer C R)}
    (h : ∀ layer ∈ layers, Confined P layer) {handler handler' : C → R}
    (hsame : ∀ c, P c → handler c = handler' c) :
    ∀ c, P c → chain layers handler c = chain layers handler' c := by
  induction layers with
  | nil => exact hsame
  | cons layer layers ih =>
      intro c hc
      have hrest := ih (fun l hl => h l (List.mem_cons_of_mem _ hl))
      exact h layer (List.mem_cons_self ..) c hc _ _ hrest

/-! ## Guards -/

/-- The request as it is handed on, or the answer to one that is refused. -/
abbrev Guard (C R : Type*) := C → Except R C

namespace Guard

def Admits (g : Guard C R) (c : C) : Prop := ∃ c', g c = .ok c'

def layer (g : Guard C R) : Layer C R := fun c next =>
  match g c with
  | .ok c' => next c'
  | .error r => r

theorem layer_ok {g : Guard C R} {c c' : C} (h : g c = .ok c') (next : C → R) :
    g.layer c next = next c' := by
  rw [layer, h]

theorem layer_error {g : Guard C R} {c : C} {r : R} (h : g c = .error r) (next : C → R) :
    g.layer c next = r := by
  rw [layer, h]

theorem not_admits {g : Guard C R} {c : C} (h : ¬ g.Admits c) : ∃ r, g c = .error r := by
  cases hg : g c with
  | ok c' => exact absurd ⟨c', hg⟩ h
  | error r => exact ⟨r, rfl⟩

/-- A guard is confined to what it keeps of the requests it admits. -/
theorem confined {P : C → Prop} {g : Guard C R} (h : ∀ c c', P c → g c = .ok c' → P c') :
    Confined P g.layer := by
  intro c hc next next' hsame
  cases hg : g c with
  | ok c' =>
      rw [layer_ok hg, layer_ok hg]
      exact hsame c' (h c c' hc hg)
  | error r => rw [layer_error hg, layer_error hg]

end Guard

/-- **THE SHIELD.**  Behind confined layers and a guard that refuses the kind, neither the rest of
    the chain nor the handler makes any difference. -/
theorem shielded {P : C → Prop} {outer : List (Layer C R)}
    (houter : ∀ layer ∈ outer, Confined P layer) {g : Guard C R}
    (hrefuses : ∀ c, P c → ¬ g.Admits c) (inner inner' : List (Layer C R))
    (handler handler' : C → R) {c : C} (hc : P c) :
    chain (outer ++ g.layer :: inner) handler c
      = chain (outer ++ g.layer :: inner') handler' c := by
  rw [chain_append, chain_append]
  refine chain_congr houter (fun c' hc' => ?_) c hc
  obtain ⟨r, hr⟩ := Guard.not_admits (hrefuses c' hc')
  rw [chain_cons, chain_cons, Guard.layer_error hr, Guard.layer_error hr]

/-! ## Guards in a row -/

/-- The request as the handler is given it, or the answer of the guard that refused. -/
def pass : List (Guard C R) → Guard C R
  | [], c => .ok c
  | g :: gs, c =>
    match g c with
    | .ok c' => pass gs c'
    | .error r => .error r

theorem pass_of_ok {g : Guard C R} {gs : List (Guard C R)} {c c' : C} (h : g c = .ok c') :
    pass (g :: gs) c = pass gs c' := by
  rw [pass, h]

theorem pass_of_error {g : Guard C R} {gs : List (Guard C R)} {c : C} {r : R}
    (h : g c = .error r) : pass (g :: gs) c = .error r := by
  rw [pass, h]

/-- A row of guards is a guard. -/
theorem chain_guards (handler : C → R) : ∀ (gs : List (Guard C R)) (c : C),
    chain (gs.map Guard.layer) handler c = (pass gs).layer c handler := by
  intro gs
  induction gs with
  | nil => exact fun c => rfl
  | cons g gs ih =>
      intro c
      rw [List.map_cons, chain_cons]
      cases hg : g c with
      | ok c' => rw [Guard.layer_ok hg, ih, Guard.layer, Guard.layer, pass_of_ok hg]
      | error r => rw [Guard.layer_error hg, Guard.layer_error (pass_of_error hg)]

/-- The guard decides by a view of the request, and keeps it. -/
structure Looks (view : C → α) (g : Guard C R) : Prop where
  decides : ∀ c c', view c = view c' → g.Admits c → g.Admits c'
  keeps   : ∀ c c', g c = .ok c' → view c' = view c

variable {view : C → α}

theorem pass_cons {g : Guard C R} {gs : List (Guard C R)} {c d : C} :
    pass (g :: gs) c = .ok d ↔ ∃ c', g c = .ok c' ∧ pass gs c' = .ok d := by
  constructor
  · intro h
    cases hg : g c with
    | ok c' =>
        rw [pass_of_ok hg] at h
        exact ⟨c', rfl, h⟩
    | error r =>
        rw [pass_of_error hg] at h
        cases h
  · rintro ⟨c', hg, h⟩
    rw [pass_of_ok hg]
    exact h

/-- **EACH GUARD DECIDES BY ITSELF.**  Guards in a row that decide by one view let a request through
    exactly if each of them admits it as it came, and keep the view. -/
theorem pass_admits : ∀ {gs : List (Guard C R)} (_ : ∀ g ∈ gs, Looks view g) (c : C),
    (pass gs).Admits c ↔ ∀ g ∈ gs, g.Admits c := by
  intro gs
  induction gs with
  | nil => exact fun _ c => iff_of_true ⟨c, rfl⟩ (List.forall_mem_nil _)
  | cons g gs ih =>
      intro hlooks c
      have hrest : ∀ g' ∈ gs, Looks view g' := fun g' hg' => hlooks g' (List.mem_cons_of_mem _ hg')
      have hkeeps := (hlooks g (List.mem_cons_self ..)).keeps
      constructor
      · rintro ⟨d, hd⟩
        obtain ⟨c', hg, hd⟩ := pass_cons.mp hd
        have hall := (ih hrest c').mp ⟨d, hd⟩
        refine List.forall_mem_cons.mpr ⟨⟨c', hg⟩, fun g' hg' => ?_⟩
        exact (hrest g' hg').decides c' c (hkeeps c c' hg) (hall g' hg')
      · intro hall
        obtain ⟨⟨c', hg⟩, hothers⟩ := List.forall_mem_cons.mp hall
        obtain ⟨d, hd⟩ := (ih hrest c').mpr (fun g' hg' =>
          (hrest g' hg').decides c c' (hkeeps c c' hg).symm (hothers g' hg'))
        exact ⟨d, pass_cons.mpr ⟨c', hg, hd⟩⟩

theorem view_of_pass : ∀ {gs : List (Guard C R)} (_ : ∀ g ∈ gs, Looks view g) {c d : C},
    pass gs c = .ok d → view d = view c := by
  intro gs
  induction gs with
  | nil =>
      intro _ c d h
      rw [Except.ok.inj h]
  | cons g gs ih =>
      intro hlooks c d h
      obtain ⟨c', hg, hd⟩ := pass_cons.mp h
      rw [ih (fun g' hg' => hlooks g' (List.mem_cons_of_mem _ hg')) hd]
      exact (hlooks g (List.mem_cons_self ..)).keeps c c' hg

/-- What is refused is answered by one of the guards, on a request of the same view. -/
theorem refused_by : ∀ {gs : List (Guard C R)} (_ : ∀ g ∈ gs, Looks view g) {c : C} {r : R},
    pass gs c = .error r → ∃ g ∈ gs, ∃ c', view c' = view c ∧ g c' = .error r := by
  intro gs
  induction gs with
  | nil =>
      intro _ c r h
      cases h
  | cons g gs ih =>
      intro hlooks c r h
      cases hg : g c with
      | ok c' =>
          rw [pass_of_ok hg] at h
          obtain ⟨g', hg', d, hview, hd⟩ :=
            ih (fun g' hg' => hlooks g' (List.mem_cons_of_mem _ hg')) h
          refine ⟨g', List.mem_cons_of_mem _ hg', d, ?_, hd⟩
          rw [hview]
          exact (hlooks g (List.mem_cons_self ..)).keeps c c' hg
      | error r' =>
          rw [pass_of_error hg] at h
          exact ⟨g, List.mem_cons_self .., c, rfl, hg.trans h⟩

end Guards
