import Mathlib.Tactic

/-! # What became of a key

    The history of a cache that loses entries in three ways: to a call that
    clears it, to a call that needs the room, and by lying unused for longer
    than a limit.  `Held` says that a key still has the value put last, `Lost`
    that it has none, and `record` computes both from the calls in order. -/

/-- The last element of a list that meets a condition. -/
theorem List.exists_last {α : Type*} (P : α → Prop) (H : List α) :
    (∀ q ∈ H, ¬ P q) ∨ ∃ A p C, H = A ++ p :: C ∧ P p ∧ ∀ q ∈ C, ¬ P q := by
  induction H with
  | nil => exact Or.inl (fun q hq => absurd hq List.not_mem_nil)
  | cons q H ih =>
      rcases ih with hnone | ⟨A, p, C, rfl, hp, hC⟩
      · by_cases hq : P q
        · exact Or.inr ⟨[], q, H, rfl, hq, hnone⟩
        · exact Or.inl (List.forall_mem_cons.mpr ⟨hq, hnone⟩)
      · exact Or.inr ⟨q :: A, p, C, rfl, hp, hC⟩

/-- There is only one that is last. -/
theorem List.last_unique {α : Type*} (P : α → Prop) {A C A' C' : List α} {p p' : α}
    (h : A ++ p :: C = A' ++ p' :: C') (hp : P p) (hp' : P p') (hC : ∀ q ∈ C, ¬ P q)
    (hC' : ∀ q ∈ C', ¬ P q) : p = p' ∧ C = C' := by
  rcases List.append_eq_append_iff.mp h with ⟨D, -, hD⟩ | ⟨D, -, hD⟩
  · cases D with
    | nil => exact List.cons.inj hD
    | cons d D =>
        obtain ⟨-, rfl⟩ := List.cons.inj hD
        exact absurd hp' (hC p' (List.mem_append_right _ (List.mem_cons_self ..)))
  · cases D with
    | nil => exact ⟨(List.cons.inj hD).1.symm, (List.cons.inj hD).2.symm⟩
    | cons d D =>
        obtain ⟨-, rfl⟩ := List.cons.inj hD
        exact absurd hp (hC' p (List.mem_append_right _ (List.mem_cons_self ..)))

namespace RecencyCache

variable {κ ν : Type*}

inductive Call (κ ν : Type*) where
  | get (key : κ)
  | put (key : κ) (value : ν)
  | cleanup
  | clear

/-- The key a call is about. -/
def Call.key? : Call κ ν → Option κ
  | .get k => some k
  | .put k _ => some k
  | .cleanup => none
  | .clear => none

/-- A call of the history, with the key that lost its place to it. -/
structure Happening (κ ν : Type*) where
  call    : Call κ ν
  time    : Int
  evicted : Option κ

namespace Happening

def Puts (q : Happening κ ν) (k : κ) : Prop := ∃ v, q.call = .put k v

def Gets (q : Happening κ ν) (k : κ) : Prop := q.call = .get k

def Uses (q : Happening κ ν) (k : κ) : Prop := q.call.key? = some k

/-- The key is taken out: with everything else, or to make room. -/
def Ends (q : Happening κ ν) (k : κ) : Prop := q.call = .clear ∨ q.evicted = some k

/-- A call is about one key. -/
theorem Uses.unique {q : Happening κ ν} {k k' : κ} (h : q.Uses k) (h' : q.Uses k') : k = k' :=
  Option.some.inj (h.symm.trans h')

theorem Puts.uses {q : Happening κ ν} {k : κ} (h : q.Puts k) : q.Uses k := by
  obtain ⟨v, hv⟩ := h
  rw [Uses, hv]
  rfl

theorem Gets.uses {q : Happening κ ν} {k : κ} (h : q.Gets k) : q.Uses k := by
  rw [Uses, h]
  rfl

end Happening

/-- Longer unused than the limit; a limit that is not positive is none. -/
def Idle (ttl last now : Int) : Prop := 0 < ttl ∧ ttl < now - last

instance (ttl last now : Int) : Decidable (Idle ttl last now) :=
  inferInstanceAs (Decidable (_ ∧ _))

theorem Idle.mono {ttl last now now' : Int} (h : Idle ttl last now) (hle : now ≤ now') :
    Idle ttl last now' := by
  obtain ⟨hpos, hlong⟩ := h
  exact ⟨hpos, by omega⟩

variable [DecidableEq κ]

/-! ## What the history says of a key -/

/-- An entry that is not thrown out by the call. -/
def kept (k : κ) (r : Option (ν × Int)) (q : Happening κ ν) : Option (ν × Int) :=
  if q.evicted = some k then none else r

/-- One more call: the value of `k` and the time of its last use, while it has one. -/
def note (ttl : Int) (k : κ) (r : Option (ν × Int)) (q : Happening κ ν) : Option (ν × Int) :=
  match q.call with
  | .put key v => if key = k then some (v, q.time) else kept k r q
  | .get key =>
      if key = k then
        ((kept k r q).filter (fun x => ¬ Idle ttl x.2 q.time)).map (fun x => (x.1, q.time))
      else kept k r q
  | .cleanup => kept k r q
  | .clear => none

def record (ttl : Int) (H : List (Happening κ ν)) (k : κ) : Option (ν × Int) :=
  H.foldl (note ttl k) none

@[simp] theorem record_nil (ttl : Int) (k : κ) :
    record ttl ([] : List (Happening κ ν)) k = none := rfl

theorem record_concat (ttl : Int) (H : List (Happening κ ν)) (q : Happening κ ν) (k : κ) :
    record ttl (H ++ [q]) k = note ttl k (record ttl H k) q := by
  rw [record, List.foldl_append]
  rfl

theorem kept_of_not_ends {k : κ} {r : Option (ν × Int)} {q : Happening κ ν} (h : ¬ q.Ends k) :
    kept k r q = r := if_neg (fun heq => h (Or.inr heq))

/-- A call about something else leaves a record alone. -/
theorem note_other {ttl : Int} {k : κ} {r : Option (ν × Int)} {q : Happening κ ν}
    (huse : ¬ q.Uses k) (hend : ¬ q.Ends k) : note ttl k r q = r := by
  have hkept : kept k r q = r := kept_of_not_ends hend
  rw [← hkept, note]
  cases hcall : q.call with
  | get key =>
      have hkey : ¬ key = k := fun heq => huse (by rw [Happening.Uses, hcall, heq]; rfl)
      show (if key = k then _ else _) = _
      rw [if_neg hkey, hkept, hkept]
  | put key v =>
      have hkey : ¬ key = k := fun heq => huse (by rw [Happening.Uses, hcall, heq]; rfl)
      show (if key = k then _ else _) = _
      rw [if_neg hkey, hkept, hkept]
  | cleanup =>
      show kept k (kept k r q) q = _
      rw [hkept, hkept]
  | clear => exact absurd (Or.inl hcall) hend

theorem note_puts {ttl : Int} {k : κ} {r : Option (ν × Int)} {q : Happening κ ν} {v : ν}
    (h : q.call = .put k v) : note ttl k r q = some (v, q.time) := by
  rw [note, h]
  exact if_pos rfl

/-- A key asked for is used at that time, if it has an entry that is not out of date. -/
theorem note_gets {ttl : Int} {k : κ} {r : Option (ν × Int)} {q : Happening κ ν} {x : ν × Int}
    (h : q.Gets k) (hend : ¬ q.Ends k) :
    note ttl k r q = some x
      ↔ q.time = x.2 ∧ ∃ last, r = some (x.1, last) ∧ ¬ Idle ttl last q.time := by
  rw [note, h]
  show (if k = k then _ else _) = _ ↔ _
  rw [if_pos rfl, kept_of_not_ends hend, Option.map_eq_some_iff]
  constructor
  · rintro ⟨⟨v, last⟩, hfilter, rfl⟩
    obtain ⟨hr, hidle⟩ := Option.filter_eq_some_iff.mp hfilter
    exact ⟨rfl, last, hr, of_decide_eq_true hidle⟩
  · rintro ⟨htime, last, hr, hidle⟩
    refine ⟨(x.1, last), Option.filter_eq_some_iff.mpr ⟨hr, decide_eq_true hidle⟩, ?_⟩
    rw [htime]

theorem note_ends {ttl : Int} {k : κ} {r : Option (ν × Int)} {q : Happening κ ν}
    (hend : q.Ends k) (hput : ¬ q.Puts k) : note ttl k r q = none := by
  rw [note]
  rcases hend with hclear | hevicted
  · rw [hclear]
  · have hkept : kept k r q = none := if_pos hevicted
    cases hcall : q.call with
    | get key =>
        show (if key = k then _ else _) = _
        rw [hkept]
        exact ite_self none
    | put key v =>
        have hkey : ¬ key = k := fun heq => hput ⟨v, by rw [hcall, heq]⟩
        show (if key = k then _ else _) = _
        rw [if_neg hkey, hkept]
    | cleanup => exact hkept
    | clear => rfl

/-- The times at which a key was asked for. -/
def lookups (k : κ) (C : List (Happening κ ν)) : List Int :=
  C.filterMap (fun q => match q.call with
    | .get key => if key = k then some q.time else none
    | _ => none)

/-- No two times in a row are further apart than the limit. -/
def Active (ttl : Int) (times : List Int) : Prop := times.IsChain (fun t t' => ¬ Idle ttl t t')

/-- `v` was put under `k`, and from then on neither was `k` put again nor did it lose its entry
    to a call or, at `now`, to its time without use. -/
def Held (ttl : Int) (H : List (Happening κ ν)) (k : κ) (v : ν) (now : Int) : Prop :=
  ∃ A p C, H = A ++ p :: C ∧ p.call = .put k v ∧ (∀ q ∈ C, ¬ q.Puts k ∧ ¬ q.Ends k) ∧
    Active ttl (p.time :: lookups k C ++ [now])

/-- `k` was never put, or since its last put it lost its entry to a call or to its time without
    use. -/
def Lost (ttl : Int) (H : List (Happening κ ν)) (k : κ) (now : Int) : Prop :=
  (∀ q ∈ H, ¬ q.Puts k) ∨
    ∃ A p C, H = A ++ p :: C ∧ p.Puts k ∧ (∀ q ∈ C, ¬ q.Puts k) ∧
      ((∃ q ∈ C, q.Ends k) ∨ ¬ Active ttl (p.time :: lookups k C ++ [now]))

omit [DecidableEq κ] in
theorem active_concat {ttl t now : Int} {times : List Int} :
    Active ttl (times ++ [t] ++ [now]) ↔ Active ttl (times ++ [t]) ∧ ¬ Idle ttl t now := by
  rw [Active, List.isChain_append]
  constructor
  · rintro ⟨htimes, -, hjoin⟩
    exact ⟨htimes, hjoin t (by simp) now (by simp)⟩
  · rintro ⟨htimes, hidle⟩
    refine ⟨htimes, List.isChain_singleton _, ?_⟩
    intro x hx y hy
    rw [List.getLast?_concat] at hx
    cases hx
    cases hy
    exact hidle

omit [DecidableEq κ] in
/-- A place in a history with one more call: the new call, or a place before it. -/
theorem concat_split {H A C : List (Happening κ ν)} {p q : Happening κ ν} :
    H ++ [q] = A ++ p :: C ↔
      (C = [] ∧ A = H ∧ p = q) ∨ ∃ C', C = C' ++ [q] ∧ H = A ++ p :: C' := by
  constructor
  · intro h
    cases C using List.reverseRecOn with
    | nil =>
        obtain ⟨hA, hp⟩ := List.append_inj' h rfl
        exact Or.inl ⟨rfl, hA.symm, (List.cons.inj hp).1.symm⟩
    | append_singleton C c =>
        rw [← List.cons_append, ← List.append_assoc] at h
        obtain ⟨hH, hq⟩ := List.append_inj' h rfl
        exact Or.inr ⟨C, by rw [(List.cons.inj hq).1], hH⟩
  · rintro (⟨rfl, rfl, rfl⟩ | ⟨C', rfl, rfl⟩)
    · rfl
    · simp

theorem lookups_concat (k : κ) (C : List (Happening κ ν)) (q : Happening κ ν) :
    lookups k (C ++ [q]) = lookups k C ++ lookups k [q] := List.filterMap_append

theorem lookups_gets {k : κ} {q : Happening κ ν} (h : q.Gets k) : lookups k [q] = [q.time] := by
  obtain ⟨call, time, evicted⟩ := q
  obtain rfl : call = .get k := h
  simp [lookups]

theorem lookups_of_not_gets {k : κ} {q : Happening κ ν} (h : ¬ q.Gets k) : lookups k [q] = [] := by
  obtain ⟨call, time, evicted⟩ := q
  cases call with
  | get key =>
      have hkey : ¬ key = k := fun heq => h (by rw [heq]; rfl)
      simp [lookups, hkey]
  | put key v => rfl
  | cleanup => rfl
  | clear => rfl

/-- `v` was put under `k`, was used last at `last`, and is there still. -/
def Since (ttl : Int) (H : List (Happening κ ν)) (k : κ) (v : ν) (last : Int) : Prop :=
  ∃ A p C, H = A ++ p :: C ∧ p.call = .put k v ∧ (∀ q ∈ C, ¬ q.Puts k ∧ ¬ q.Ends k) ∧
    Active ttl (p.time :: lookups k C) ∧ (p.time :: lookups k C).getLast? = some last

/-- What one more call makes of it. -/
theorem since_concat {ttl : Int} {k : κ} {v : ν} {last : Int} {H : List (Happening κ ν)}
    {q : Happening κ ν} :
    Since ttl (H ++ [q]) k v last ↔
      (q.call = .put k v ∧ q.time = last) ∨
      (¬ q.Puts k ∧ ¬ q.Ends k ∧ ¬ q.Gets k ∧ Since ttl H k v last) ∨
      (¬ q.Ends k ∧ q.Gets k ∧ q.time = last ∧
        ∃ last', Since ttl H k v last' ∧ ¬ Idle ttl last' q.time) := by
  constructor
  · rintro ⟨A, p, C, hsplit, hput, hC, hactive, hlast⟩
    rcases concat_split.mp hsplit with ⟨rfl, rfl, rfl⟩ | ⟨C', rfl, rfl⟩
    · exact Or.inl ⟨hput, Option.some.inj hlast⟩
    · obtain ⟨hnoput, hnoend⟩ := hC q (List.mem_append_right _ (List.mem_singleton_self q))
      have hC' : ∀ r ∈ C', ¬ r.Puts k ∧ ¬ r.Ends k :=
        fun r hr => hC r (List.mem_append_left _ hr)
      rw [lookups_concat, ← List.cons_append] at hactive hlast
      by_cases hgets : q.Gets k
      · rw [lookups_gets hgets] at hactive hlast
        rw [List.getLast?_concat] at hlast
        obtain ⟨ts, last', htimes⟩ : ∃ ts last', p.time :: lookups k C' = ts ++ [last'] :=
          ⟨_, _, (List.dropLast_append_getLast (List.cons_ne_nil _ _)).symm⟩
        rw [htimes] at hactive
        obtain ⟨hbefore, hidle⟩ := active_concat.mp hactive
        refine Or.inr (Or.inr ⟨hnoend, hgets, Option.some.inj hlast, last', ?_, hidle⟩)
        refine ⟨A, p, C', rfl, hput, hC', ?_, ?_⟩
        · rw [htimes]; exact hbefore
        · rw [htimes]; exact List.getLast?_concat
      · rw [lookups_of_not_gets hgets, List.append_nil] at hactive hlast
        exact Or.inr (Or.inl ⟨hnoput, hnoend, hgets, A, p, C', rfl, hput, hC', hactive, hlast⟩)
  · have hnext : ∀ {C : List (Happening κ ν)}, (∀ r ∈ C, ¬ r.Puts k ∧ ¬ r.Ends k) →
        ¬ q.Puts k → ¬ q.Ends k → ∀ r ∈ C ++ [q], ¬ r.Puts k ∧ ¬ r.Ends k := by
      intro C hC hnoput hnoend r hr
      rcases List.mem_append.mp hr with hr | hr
      · exact hC r hr
      · rw [List.mem_singleton.mp hr]
        exact ⟨hnoput, hnoend⟩
    rintro (⟨hput, rfl⟩ | ⟨hnoput, hnoend, hgets, A, p, C, rfl, hput, hC, hactive, hlast⟩ |
      ⟨hnoend, hgets, rfl, last', ⟨A, p, C, rfl, hput, hC, hactive, hlast⟩, hidle⟩)
    · refine ⟨H, q, [], rfl, hput, ?_, List.isChain_singleton _, rfl⟩
      intro r hr
      cases hr
    · refine ⟨A, p, C ++ [q], by simp, hput, hnext hC hnoput hnoend, ?_⟩
      rw [lookups_concat, lookups_of_not_gets hgets, List.append_nil]
      exact ⟨hactive, hlast⟩
    · have hnoput : ¬ q.Puts k := by
        rintro ⟨w, hw⟩
        rw [Happening.Gets, hw] at hgets
        cases hgets
      refine ⟨A, p, C ++ [q], by simp, hput, hnext hC hnoput hnoend, ?_⟩
      rw [lookups_concat, lookups_gets hgets, ← List.cons_append]
      obtain ⟨ts, htimes⟩ := List.getLast?_eq_some_iff.mp hlast
      rw [htimes] at hactive ⊢
      exact ⟨active_concat.mpr ⟨hactive, hidle⟩, List.getLast?_concat⟩

/-- **THE RECORD.**  A key's record is the value of its last put and the time of its last use, as
    long as nothing took its entry. -/
theorem record_eq_some_iff {ttl : Int} {k : κ} {v : ν} {last : Int} {H : List (Happening κ ν)} :
    record ttl H k = some (v, last) ↔ Since ttl H k v last := by
  induction H using List.reverseRecOn generalizing v last with
  | nil =>
      constructor
      · intro h
        cases h
      · rintro ⟨A, p, C, hsplit, -⟩
        exact absurd hsplit.symm (List.append_ne_nil_of_right_ne_nil _ (List.cons_ne_nil _ _))
  | append_singleton H q ih =>
      rw [record_concat, since_concat]
      by_cases hput : q.Puts k
      · obtain ⟨w, hw⟩ := hput
        have hgets : ¬ q.Gets k := by
          intro hget
          rw [Happening.Gets, hw] at hget
          cases hget
        rw [note_puts hw, hw]
        constructor
        · intro h
          obtain ⟨rfl, rfl⟩ := Prod.mk.inj (Option.some.inj h)
          exact Or.inl ⟨rfl, rfl⟩
        · rintro (⟨heq, rfl⟩ | ⟨hno, -⟩ | ⟨-, hget, -⟩)
          · cases heq
            rfl
          · exact absurd ⟨w, hw⟩ hno
          · exact absurd hget hgets
      · have hnoput : ¬ q.call = .put k v := fun heq => hput ⟨v, heq⟩
        by_cases hend : q.Ends k
        · rw [note_ends hend hput]
          constructor
          · intro h
            cases h
          · rintro (⟨heq, -⟩ | ⟨-, hno, -⟩ | ⟨hno, -⟩)
            · exact absurd heq hnoput
            · exact absurd hend hno
            · exact absurd hend hno
        · by_cases hget : q.Gets k
          · rw [note_gets hget hend]
            simp only [hnoput, hget, hend, ih, false_and, not_true_eq_false, and_false,
              not_false_eq_true, true_and, false_or]
          · have huse : ¬ q.Uses k := by
              intro huse
              cases hcall : q.call with
              | get key =>
                  rw [Happening.Uses, hcall] at huse
                  exact hget (by rw [Happening.Gets, hcall, Option.some.inj huse])
              | put key w =>
                  rw [Happening.Uses, hcall] at huse
                  exact hput ⟨w, by rw [hcall, Option.some.inj huse]⟩
              | cleanup => rw [Happening.Uses, hcall] at huse; cases huse
              | clear => exact hend (Or.inl hcall)
            rw [note_other huse hend]
            simp only [hnoput, hget, hend, hput, ih, false_and, and_false, not_false_eq_true,
              true_and, false_or, or_false]

theorem held_iff_since {ttl : Int} {k : κ} {v : ν} {H : List (Happening κ ν)} {now : Int} :
    Held ttl H k v now ↔ ∃ last, Since ttl H k v last ∧ ¬ Idle ttl last now := by
  constructor
  · rintro ⟨A, p, C, hsplit, hput, hC, hactive⟩
    obtain ⟨ts, last, htimes⟩ : ∃ ts last, p.time :: lookups k C = ts ++ [last] :=
      ⟨_, _, (List.dropLast_append_getLast (List.cons_ne_nil _ _)).symm⟩
    rw [htimes] at hactive
    obtain ⟨hbefore, hidle⟩ := active_concat.mp hactive
    refine ⟨last, ⟨A, p, C, hsplit, hput, hC, ?_, ?_⟩, hidle⟩
    · rw [htimes]; exact hbefore
    · rw [htimes]; exact List.getLast?_concat
  · rintro ⟨last, ⟨A, p, C, hsplit, hput, hC, hactive, hlast⟩, hidle⟩
    refine ⟨A, p, C, hsplit, hput, hC, ?_⟩
    obtain ⟨ts, htimes⟩ := List.getLast?_eq_some_iff.mp hlast
    rw [htimes] at hactive ⊢
    exact active_concat.mpr ⟨hactive, hidle⟩

/-- A key is held exactly when its record is not out of date. -/
theorem held_iff_record {ttl : Int} {k : κ} {v : ν} {H : List (Happening κ ν)} {now : Int} :
    Held ttl H k v now ↔ ∃ last, record ttl H k = some (v, last) ∧ ¬ Idle ttl last now := by
  simp only [held_iff_since, record_eq_some_iff]

/-- **HELD OR LOST.**  A key that is held under no value was never put or has lost its entry. -/
theorem lost_iff_not_held {ttl : Int} {k : κ} {H : List (Happening κ ν)} {now : Int} :
    Lost ttl H k now ↔ ∀ v, ¬ Held ttl H k v now := by
  constructor
  · rintro (hnone | ⟨A, p, C, rfl, hputs, hC, hgone⟩) v ⟨A', p', C', hsplit, hput, hC', hactive⟩
    · refine hnone p' ?_ ⟨v, hput⟩
      rw [hsplit]
      exact List.mem_append_right _ (List.mem_cons_self ..)
    · obtain ⟨rfl, rfl⟩ := List.last_unique (fun q => q.Puts k) hsplit hputs ⟨v, hput⟩ hC
        (fun q hq => (hC' q hq).1)
      rcases hgone with ⟨q, hq, hend⟩ | hidle
      · exact (hC' q hq).2 hend
      · exact hidle hactive
  · intro hheld
    rcases List.exists_last (fun q => q.Puts k) H with hnone | ⟨A, p, C, hsplit, ⟨v, hv⟩, hC⟩
    · exact Or.inl hnone
    · refine Or.inr ⟨A, p, C, hsplit, ⟨v, hv⟩, hC, ?_⟩
      by_contra hstays
      rw [not_or, not_exists, not_not] at hstays
      refine hheld v ⟨A, p, C, hsplit, hv, fun q hq => ⟨hC q hq, fun hend => ?_⟩, hstays.2⟩
      exact hstays.1 q ⟨hq, hend⟩

end RecencyCache
