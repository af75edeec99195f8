import Mathlib.Tactic
import Mathlib.Data.List.Sort

/-! # Paging through a query by an offset

    Each page is cut out of the answer of a query of its own.  Rows of equal
    rank may come in another order each time, so that pages put together are
    the rows for certain exactly if no two of them have the same rank. -/

namespace OffsetPages

variable {ρ α : Type*} [LinearOrder α] (rank : ρ → α)

/-- An order in which a query may answer with the rows. -/
def Ordered (rows s : List ρ) : Prop := s.Perm rows ∧ s.Pairwise (fun a b => rank a ≤ rank b)

def window (s : List ρ) (offset limit : Nat) : List ρ := (s.drop offset).take limit

/-- The first `n` pages, each out of its own answer. -/
def windows (s : Nat → List ρ) (limit n : Nat) : List ρ :=
  (List.range n).flatMap (fun k => window (s k) (k * limit) limit)

theorem exists_ordered (rows : List ρ) : ∃ s, Ordered rank rows s := by
  refine ⟨rows.mergeSort (fun a b => decide (rank a ≤ rank b)), List.mergeSort_perm _ _, ?_⟩
  have hsorted : (rows.mergeSort (fun a b => decide (rank a ≤ rank b))).Pairwise
      (fun a b => decide (rank a ≤ rank b) = true) := by
    refine List.pairwise_mergeSort ?_ ?_ rows
    · intro a b c hab hbc
      exact decide_eq_true (le_trans (of_decide_eq_true hab) (of_decide_eq_true hbc))
    · intro a b
      simpa using le_total (rank a) (rank b)
  exact hsorted.imp (fun h => of_decide_eq_true h)

variable {rank}

/-- Without ties there is one order. -/
theorem Ordered.unique {rows s s' : List ρ} (hrank : (rows.map rank).Nodup)
    (h : Ordered rank rows s) (h' : Ordered rank rows s') : s = s' := by
  refine List.Perm.eq_of_pairwise ?_ h.2 h'.2 (h.1.trans h'.1.symm)
  intro a b ha hb hab hba
  exact List.inj_on_of_nodup_map hrank (h.1.subset ha) (h'.1.subset hb) (le_antisymm hab hba)

theorem windows_const (s : List ρ) (limit n : Nat) :
    windows (fun _ => s) limit n = s.take (n * limit) := by
  induction n with
  | zero => rw [Nat.zero_mul]; rfl
  | succ n ih =>
      rw [windows] at ih
      rw [windows, List.range_succ, List.flatMap_append, ih, List.flatMap_singleton, window,
        Nat.succ_mul, List.take_add]

theorem mem_windows {s : Nat → List ρ} {limit n : Nat} {a : ρ} (h : a ∈ windows s limit n) :
    ∃ k, a ∈ window (s k) (k * limit) limit := by
  obtain ⟨k, -, hk⟩ := List.mem_flatMap.mp h
  exact ⟨k, hk⟩

theorem getElem?_of_mem_window {s : List ρ} {n : Nat} {a : ρ} (h : a ∈ window s n 1) :
    s[n]? = some a := by
  rw [window] at h
  cases hs : s.drop n with
  | nil => rw [hs] at h; cases h
  | cons b tail =>
      rw [hs] at h
      rw [List.mem_singleton.mp h, ← List.head?_drop, hs]
      rfl

/-- Two rows of the same rank can stand next to each other. -/
theorem exists_ordered_tie {rows rest : List ρ} {a b : ρ} (hperm : rows.Perm (a :: b :: rest))
    (hrank : rank a = rank b) :
    ∃ before after, Ordered rank rows (before ++ a :: b :: after) ∧
      Ordered rank rows (before ++ b :: a :: after) := by
  obtain ⟨before, hbefore⟩ := exists_ordered rank (rest.filter (fun c => rank c < rank a))
  obtain ⟨after, hafter⟩ :=
    exists_ordered rank (rest.filter (fun c => !decide (rank c < rank a)))
  have hlow : ∀ c ∈ before, rank c < rank a := by
    intro c hc
    simpa using (List.mem_filter.mp (hbefore.1.subset hc)).2
  have hhigh : ∀ c ∈ after, rank a ≤ rank c := by
    intro c hc
    simpa using (List.mem_filter.mp (hafter.1.subset hc)).2
  have hrest : (before ++ after).Perm rest := by
    exact (hbefore.1.append hafter.1).trans
      (List.filter_append_perm (fun c => decide (rank c < rank a)) rest)
  -- the two rows in either order, between the lower ones and the others
  have hordered : ∀ c d, rank c = rank a → rank d = rank a → (c :: d :: rest).Perm (a :: b :: rest) →
      Ordered rank rows (before ++ c :: d :: after) := by
    intro c d hc hd hcd
    refine ⟨?_, ?_⟩
    · refine (List.perm_middle.trans (List.Perm.cons c List.perm_middle)).trans ?_
      exact ((hrest.cons d).cons c).trans (hcd.trans hperm.symm)
    · rw [List.pairwise_append, List.pairwise_cons, List.pairwise_cons]
      refine ⟨hbefore.2, ⟨?_, ?_, hafter.2⟩, ?_⟩
      · intro e he
        rcases List.mem_cons.mp he with rfl | he
        · rw [hc, hd]
        · rw [hc]
          exact hhigh e he
      · intro e he
        rw [hd]
        exact hhigh e he
      · intro e he f hf
        rcases List.mem_cons.mp hf with rfl | hf
        · rw [hc]
          exact le_of_lt (hlow e he)
        · rcases List.mem_cons.mp hf with rfl | hf
          · rw [hd]
            exact le_of_lt (hlow e he)
          · exact le_trans (le_of_lt (hlow e he)) (hhigh f hf)
  exact ⟨before, after, hordered a b rfl hrank.symm (List.Perm.refl _),
    hordered b a hrank.symm rfl (List.Perm.swap a b rest)⟩

/-- **A TIE LOSES A ROW**: among distinct rows, two of the same rank can be answered in such orders
    that one of them is on no page. -/
theorem exists_lost {rows : List ρ} (hrows : rows.Nodup) (hrank : ¬ (rows.map rank).Nodup) :
    ∃ b ∈ rows, ∃ s : Nat → List ρ, (∀ n, Ordered rank rows (s n)) ∧ ∀ n, b ∉ windows s 1 n := by
  rw [List.Nodup, List.pairwise_map, List.pairwise_iff_forall_sublist] at hrank
  push Not at hrank
  obtain ⟨a, b, hsub, heq⟩ := hrank
  obtain ⟨rest, hperm⟩ := hsub.exists_perm_append
  obtain ⟨before, after, hfirst, hsecond⟩ := exists_ordered_tie hperm heq
  have hne : a ≠ b := by
    have hnodup := hperm.nodup_iff.mp hrows
    rw [List.cons_append, List.nodup_cons] at hnodup
    rintro rfl
    exact hnodup.1 List.mem_cons_self
  refine ⟨b, hperm.symm.subset (List.mem_cons_of_mem _ List.mem_cons_self),
    fun n => if n = before.length + 1 then before ++ b :: a :: after else before ++ a :: b :: after,
    ?_, ?_⟩
  · intro n
    dsimp only
    split
    · exact hsecond
    · exact hfirst
  · intro n hmem
    obtain ⟨i, hi⟩ := mem_windows hmem
    rw [Nat.mul_one] at hi
    have hget := getElem?_of_mem_window hi
    split at hget
    · rename_i hplace
      rw [hplace, List.getElem?_append_right (by omega)] at hget
      simp at hget
      exact hne hget
    · rename_i hplace
      -- the other order has the row at the place after the first of the two
      have hthere : (before ++ a :: b :: after)[before.length + 1]? = some b := by
        rw [List.getElem?_append_right (by omega)]
        simp
      have hnodup : (before ++ a :: b :: after).Nodup := hfirst.1.nodup_iff.mpr hrows
      have hlt : i < (before ++ a :: b :: after).length := (List.getElem?_eq_some_iff.mp hget).1
      exact hplace ((List.getElem?_inj hlt hnodup).mp (hget.trans hthere.symm))

/-! ## Either direction -/

variable (rank) in
/-- An order by rising or by falling rank. -/
def OrderedBy (desc : Bool) (rows s : List ρ) : Prop :=
  match desc with
  | false => Ordered rank rows s
  | true => Ordered (fun a => OrderDual.toDual (rank a)) rows s

omit [LinearOrder α] in
theorem nodup_map_toDual {rows : List ρ} :
    (rows.map (fun a => OrderDual.toDual (rank a))).Nodup ↔ (rows.map rank).Nodup := by
  rw [← List.nodup_map_iff OrderDual.toDual.injective, List.map_map]
  rfl

theorem OrderedBy.perm {desc : Bool} {rows s : List ρ} (h : OrderedBy rank desc rows s) :
    s.Perm rows := by
  cases desc with
  | false => exact h.1
  | true => exact h.1

variable (rank) in
theorem exists_orderedBy (desc : Bool) (rows : List ρ) : ∃ s, OrderedBy rank desc rows s := by
  cases desc with
  | false => exact exists_ordered rank rows
  | true => exact exists_ordered _ rows

theorem OrderedBy.unique {desc : Bool} {rows s s' : List ρ} (hrank : (rows.map rank).Nodup)
    (h : OrderedBy rank desc rows s) (h' : OrderedBy rank desc rows s') : s = s' := by
  cases desc with
  | false => exact Ordered.unique hrank h h'
  | true => exact Ordered.unique (nodup_map_toDual.mpr hrank) h h'

theorem exists_lost_by (desc : Bool) {rows : List ρ} (hrows : rows.Nodup)
    (hrank : ¬ (rows.map rank).Nodup) :
    ∃ b ∈ rows, ∃ s : Nat → List ρ, (∀ n, OrderedBy rank desc rows (s n)) ∧
      ∀ n, b ∉ windows s 1 n := by
  cases desc with
  | false => exact exists_lost hrows hrank
  | true => exact exists_lost hrows (fun h => hrank (nodup_map_toDual.mp h))

end OffsetPages
