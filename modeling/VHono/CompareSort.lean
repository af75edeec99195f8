import Mathlib.Data.List.Sort

/-! # Sorting by a key, with unspecified ties

    A library sort that is documented to order its result, and nothing more:
    elements with equal keys may come out in any order.  The sort is a
    structure carrying the two facts a caller may rely on, so what is proved
    for every `CompareSort` holds for stable and unstable sorts alike. -/

/-- A sort by a natural-number key. -/
structure CompareSort where
  sortBy  : {α : Type} → (α → Nat) → List α → List α
  perm    : ∀ {α : Type} (key : α → Nat) (xs : List α), (sortBy key xs).Perm xs
  ordered : ∀ {α : Type} (key : α → Nat) (xs : List α),
    (sortBy key xs).Pairwise (fun a b => key a ≤ key b)

namespace CompareSort

theorem mem_sortBy (S : CompareSort) {α : Type} {key : α → Nat} {xs : List α} {x : α} :
    x ∈ S.sortBy key xs ↔ x ∈ xs :=
  (S.perm key xs).mem_iff

theorem nodup_sortBy (S : CompareSort) {α : Type} {key : α → Nat} {xs : List α} :
    (S.sortBy key xs).Nodup ↔ xs.Nodup :=
  (S.perm key xs).nodup_iff

/-- Insertion sort: a stable instance that evaluates. -/
def insertion : CompareSort where
  sortBy key xs := xs.insertionSort (fun a b => key a ≤ key b)
  perm _ xs := List.perm_insertionSort _ xs
  ordered key xs :=
    haveI : Std.Total (fun a b => key a ≤ key b) := ⟨fun _ _ => Nat.le_total _ _⟩
    haveI : IsTrans _ (fun a b => key a ≤ key b) := ⟨fun _ _ _ => Nat.le_trans⟩
    List.pairwise_insertionSort _ xs

end CompareSort

/-! ## Stable sorting

    A sort that leaves elements with equal keys in the order in which it finds
    them.  The elements of each key are then known before the sort, and they
    determine a sorted list. -/

namespace CompareSort

/-- Elements with equal keys keep their order. -/
def Stable (S : CompareSort) : Prop :=
  ∀ {α : Type} (key : α → Nat) (xs : List α) (k : Nat),
    (S.sortBy key xs).filter (fun a => key a = k) = xs.filter (fun a => key a = k)

theorem filter_orderedInsert {α : Type} (key : α → Nat) (a : α) (xs : List α) (k : Nat) :
    (xs.orderedInsert (fun a b => key a ≤ key b) a).filter (fun a => key a = k)
      = (a :: xs).filter (fun a => key a = k) := by
  induction xs with
  | nil => rfl
  | cons b xs ih =>
      rw [List.orderedInsert_cons]
      by_cases hle : key a ≤ key b
      · rw [if_pos hle]
      · rw [if_neg hle, List.filter_cons, ih]
        simp only [List.filter_cons, decide_eq_true_eq]
        by_cases hb : key b = k
        · have ha : key a ≠ k := by omega
          simp [hb, ha]
        · simp [hb]

theorem insertion_stable : insertion.Stable := by
  intro α key xs k
  show (xs.insertionSort (fun a b => key a ≤ key b)).filter _ = _
  induction xs with
  | nil => rfl
  | cons a xs ih =>
      rw [List.insertionSort_cons, filter_orderedInsert, List.filter_cons, List.filter_cons, ih]

theorem mem_of_filters {α : Type} {key : α → Nat} {xs ys : List α}
    (h : ∀ k, xs.filter (fun a => key a = k) = ys.filter (fun a => key a = k)) {a : α}
    (ha : a ∈ xs) : a ∈ ys := by
  have hfilter : a ∈ xs.filter (fun b => key b = key a) :=
    List.mem_filter.mpr ⟨ha, decide_eq_true rfl⟩
  rw [h] at hfilter
  exact (List.mem_filter.mp hfilter).1

/-- A sorted list is known from the elements of each key. -/
theorem eq_of_filters {α : Type} {key : α → Nat} {xs ys : List α}
    (hxs : xs.Pairwise (fun a b => key a ≤ key b)) (hys : ys.Pairwise (fun a b => key a ≤ key b))
    (h : ∀ k, xs.filter (fun a => key a = k) = ys.filter (fun a => key a = k)) : xs = ys := by
  induction xs generalizing ys with
  | nil =>
      cases ys with
      | nil => rfl
      | cons b ys => exact nomatch mem_of_filters (fun k => (h k).symm) (List.mem_cons_self ..)
  | cons a xs ih =>
      cases ys with
      | nil => exact nomatch mem_of_filters h (List.mem_cons_self ..)
      | cons b ys =>
          obtain ⟨hax, hxs'⟩ := List.pairwise_cons.mp hxs
          obtain ⟨hby, hys'⟩ := List.pairwise_cons.mp hys
          have hab : key a = key b := by
            have hle : key b ≤ key a := by
              rcases List.mem_cons.mp (mem_of_filters h (List.mem_cons_self ..)) with rfl | hin
              · exact Nat.le_refl _
              · exact hby a hin
            have hge : key a ≤ key b := by
              rcases List.mem_cons.mp (mem_of_filters (fun k => (h k).symm)
                (List.mem_cons_self ..)) with rfl | hin
              · exact Nat.le_refl _
              · exact hax b hin
            omega
          have hhead := h (key a)
          rw [List.filter_cons, List.filter_cons, if_pos (decide_eq_true rfl),
            if_pos (decide_eq_true hab.symm)] at hhead
          obtain rfl : a = b := (List.cons.inj hhead).1
          refine congrArg (a :: ·) (ih hxs' hys' (fun k => ?_))
          have hk := h k
          rw [List.filter_cons, List.filter_cons] at hk
          split at hk
          · exact (List.cons.inj hk).2
          · exact hk

/-- A list sorted element by element holds the elements of each key in the order they came in. -/
theorem filter_sortBy_concat {S : CompareSort} (hS : S.Stable) {α : Type} (key : α → Nat)
    (xs : List α) (a : α) (k : Nat) :
    (S.sortBy key (xs ++ [a])).filter (fun a => key a = k)
      = xs.filter (fun a => key a = k) ++ [a].filter (fun a => key a = k) := by
  rw [hS, List.filter_append]

end CompareSort
