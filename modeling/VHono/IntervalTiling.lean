import Mathlib.Tactic

/-! # Intervals that tile a range

    Intervals of integers with inclusive ends, none of them empty, each
    beginning right behind the one before it.  They are disjoint, they have
    exactly the points of the range between them, and their lengths add up to
    its length. -/

namespace IntervalTiling

/-- The intervals run from `a` up to right before `b`. -/
inductive Tiles : Int → List (Int × Int) → Int → Prop
  | nil (a : Int) : Tiles a [] a
  | cons {start stop b : Int} {ranges : List (Int × Int)} (hne : start ≤ stop)
      (hrest : Tiles (stop + 1) ranges b) : Tiles start ((start, stop) :: ranges) b

variable {a b c : Int} {ranges ranges' : List (Int × Int)}

/-- The number of points of an interval. -/
def size (range : Int × Int) : Int := range.2 - range.1 + 1

theorem Tiles.append (h : Tiles a ranges b) (h' : Tiles b ranges' c) :
    Tiles a (ranges ++ ranges') c := by
  induction h with
  | nil a => exact h'
  | cons hne _ ih => exact .cons hne (ih h')

theorem Tiles.concat (h : Tiles a ranges b) {stop : Int} (hne : b ≤ stop) :
    Tiles a (ranges ++ [(b, stop)]) (stop + 1) :=
  h.append (.cons hne (.nil _))

theorem Tiles.le (h : Tiles a ranges b) : a ≤ b := by
  induction h with
  | nil a => exact Int.le_refl a
  | cons hne _ ih => omega

theorem Tiles.nonempty (h : Tiles a ranges b) : ∀ r ∈ ranges, r.1 ≤ r.2 := by
  induction h with
  | nil a => exact fun r hr => (by cases hr)
  | cons hne _ ih =>
      intro r hr
      rcases List.mem_cons.mp hr with rfl | hmem
      · exact hne
      · exact ih r hmem

/-- They have the points of the range, and no others. -/
theorem Tiles.covers (h : Tiles a ranges b) {p : Int} :
    (∃ r ∈ ranges, r.1 ≤ p ∧ p ≤ r.2) ↔ a ≤ p ∧ p < b := by
  induction h with
  | nil a =>
      constructor
      · rintro ⟨r, hr, -⟩
        cases hr
      · rintro ⟨hlow, hhigh⟩
        omega
  | @cons start stop b ranges hne hrest ih =>
      have hle := hrest.le
      have hcons : (∃ r ∈ (start, stop) :: ranges, r.1 ≤ p ∧ p ≤ r.2) ↔
          (start ≤ p ∧ p ≤ stop) ∨ ∃ r ∈ ranges, r.1 ≤ p ∧ p ≤ r.2 := by
        simp only [List.mem_cons, or_and_right, exists_or, exists_eq_left]
      rw [hcons, ih]
      omega

/-- Each begins behind the ones before it. -/
theorem Tiles.disjoint (h : Tiles a ranges b) : ranges.Pairwise (fun r r' => r.2 < r'.1) := by
  induction h with
  | nil a => exact .nil
  | @cons start stop b ranges hne hrest ih =>
      refine .cons (fun r hr => ?_) ih
      have hlow := (hrest.covers.mp ⟨r, hr, Int.le_refl _, hrest.nonempty r hr⟩).1
      show stop < r.1
      omega

theorem Tiles.sum_sizes (h : Tiles a ranges b) : (ranges.map size).sum = b - a := by
  induction h with
  | nil a => exact (Int.sub_self a).symm
  | @cons start stop b ranges hne hrest ih =>
      rw [List.map_cons, List.sum_cons, ih, size]
      omega

/-- One behind the other. -/
theorem Tiles.consecutive (h : Tiles a ranges b) :
    ranges.IsChain (fun r r' => r'.1 = r.2 + 1) := by
  induction h with
  | nil a => exact .nil
  | cons hne hrest ih =>
      cases hrest with
      | nil => exact .singleton _
      | cons hne' hrest' => exact .cons_cons rfl ih

end IntervalTiling
