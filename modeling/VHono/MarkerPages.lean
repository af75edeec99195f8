import Mathlib.Tactic

/-! # Paging through a list by a marker

    A server answers with the elements that come after a marker, at most so
    many of them and in the order of its list; a client goes on from the last
    element of a full page and stops at a page that is not full.  The pages put
    together are the list exactly if each of its elements comes after the one
    before it. -/

namespace MarkerPages

variable {α : Type*} (after : α → α → Prop) [DecidableRel after]

/-- The elements that come after the marker; without a marker, all of them. -/
def rest (L : List α) : Option α → List α
  | none => L
  | some m => L.filter (fun a => after m a)

/-- One page. -/
def page (L : List α) (n : Nat) (marker : Option α) : List α := (rest after L marker).take n

/-- The elements of all pages from a marker on. -/
inductive Paged (L : List α) (n : Nat) : Option α → List α → Prop
  | last {marker} (h : (page after L n marker).length < n) :
      Paged L n marker (page after L n marker)
  | more {marker a ks} (h : n ≤ (page after L n marker).length)
      (ha : (page after L n marker).getLast? = some a) (next : Paged L n (some a) ks) :
      Paged L n marker (page after L n marker ++ ks)

variable {after} {L : List α}

theorem mem_of_mem_rest {marker : Option α} {a : α} (h : a ∈ rest after L marker) : a ∈ L := by
  cases marker with
  | none => exact h
  | some m => exact (List.mem_filter.mp h).1

/-- In a list whose elements come one after the other, what comes after an element is what
    follows it. -/
theorem rest_of_pairwise [IsTrans α after] [Std.Irrefl after] {before tail : List α} {a : α}
    (h : (before ++ a :: tail).Pairwise after) :
    rest after (before ++ a :: tail) (some a) = tail := by
  obtain ⟨-, htail, hacross⟩ := List.pairwise_append.mp h
  obtain ⟨hhead, -⟩ := List.pairwise_cons.mp htail
  have hbefore : before.filter (fun b => after a b) = [] := by
    refine List.filter_eq_nil_iff.mpr ?_
    intro b hb hab
    have hba := hacross b hb a (List.mem_cons_self ..)
    exact Std.Irrefl.irrefl a (IsTrans.trans a b a (of_decide_eq_true hab) hba)
  rw [rest, List.filter_append, hbefore, List.filter_cons_of_neg (by simp [Std.Irrefl.irrefl a]),
    List.nil_append]
  exact List.filter_eq_self.mpr (fun b hb => decide_eq_true (hhead b hb))

/-- A page that is not full is the last. -/
theorem Paged.of_short {n : Nat} {marker : Option α} {tail : List α}
    (hrest : rest after L marker = tail) (h : tail.length < n) : Paged after L n marker tail := by
  have hpage : page after L n marker = tail := by
    rw [page, hrest, List.take_of_length_le (by omega)]
  have hlast : Paged after L n marker (page after L n marker) := Paged.last (by rw [hpage]; exact h)
  rw [hpage] at hlast
  exact hlast

/-- The pages from a place of such a list on are the list from there on. -/
theorem paged_tail [IsTrans α after] [Std.Irrefl after] (h : L.Pairwise after) {n : Nat}
    (hn : 0 < n) : ∀ (k : Nat) (before tail : List α) (marker : Option α), tail.length ≤ k →
      L = before ++ tail → rest after L marker = tail → Paged after L n marker tail := by
  intro k
  induction k with
  | zero =>
      intro before tail marker hk _ hrest
      exact Paged.of_short hrest (by omega)
  | succ k ih =>
      intro before tail marker hk hL hrest
      by_cases hshort : tail.length < n
      · exact Paged.of_short hrest hshort
      · have hpage : page after L n marker = tail.take n := by rw [page, hrest]
        have hlength : (tail.take n).length = n := by rw [List.length_take]; omega
        -- a full page ends in an element, and the rest of the list comes after it
        obtain ⟨front, a, hfront⟩ : ∃ front a, tail.take n = front ++ [a] := by
          have hne : tail.take n ≠ [] := List.ne_nil_of_length_pos (by omega)
          exact ⟨_, _, (List.dropLast_append_getLast hne).symm⟩
        have hsplit : tail = front ++ a :: tail.drop n := by
          conv_lhs => rw [← List.take_append_drop n tail, hfront]
          rw [List.append_assoc]
          rfl
        have hL' : L = (before ++ front) ++ a :: tail.drop n := by
          rw [hL, List.append_assoc, ← hsplit]
        have hnext : rest after L (some a) = tail.drop n := by
          rw [hL'] at h ⊢
          exact rest_of_pairwise h
        have hrec := ih (before ++ front ++ [a]) _ (some a) (by rw [List.length_drop]; omega)
          (by rw [hL', List.append_assoc _ [a]]; rfl) hnext
        have hmore := Paged.more (by rw [hpage, hlength]) (by rw [hpage, hfront]; simp) hrec
        rw [hpage, List.take_append_drop] at hmore
        exact hmore

/-- What is paged comes after the marker. -/
theorem Paged.after_marker [IsTrans α after] {n : Nat} {marker : Option α} {ks : List α}
    (h : Paged after L n marker ks) : ∀ k ∈ ks, k ∈ rest after L marker := by
  induction h with
  | last h => exact fun k hk => List.mem_of_mem_take hk
  | @more marker a ks h ha next ih =>
      intro k hk
      rcases List.mem_append.mp hk with hpage | hlater
      · exact List.mem_of_mem_take hpage
      · have hmem := ih k hlater
        obtain ⟨hL, hafter⟩ := List.mem_filter.mp hmem
        cases marker with
        | none => exact hL
        | some m =>
            have ham : a ∈ rest after L (some m) :=
              List.mem_of_mem_take (List.mem_of_getLast? ha)
            obtain ⟨-, hma⟩ := List.mem_filter.mp ham
            refine List.mem_filter.mpr ⟨hL, decide_eq_true ?_⟩
            exact IsTrans.trans m a k (of_decide_eq_true hma) (of_decide_eq_true hafter)

/-- What comes after an element of what comes after a marker. -/
theorem rest_of_mem [IsTrans α after] {marker : Option α} {a : α}
    (ha : a ∈ rest after L marker) :
    rest after L (some a) = (rest after L marker).filter (fun b => after a b) := by
  cases marker with
  | none => rfl
  | some m =>
      obtain ⟨-, hma⟩ := List.mem_filter.mp ha
      rw [rest, rest, List.filter_filter]
      refine List.filter_congr ?_
      intro b _
      by_cases hab : after a b
      · have hmb : after m b := IsTrans.trans m a b (of_decide_eq_true hma) hab
        simp [hab, hmb]
      · simp [hab]

/-- Pages of one element that lose none come one after the other. -/
theorem pairwise_of_paged [IsTrans α after] [Std.Irrefl after] {marker : Option α} {ks : List α}
    (h : Paged after L 1 marker ks) (hperm : ks.Perm (rest after L marker)) :
    (rest after L marker).Pairwise after := by
  induction h with
  | @last marker h =>
      have hnil : rest after L marker = [] := by
        cases hrest : rest after L marker with
        | nil => rfl
        | cons a tail =>
            rw [page, hrest] at h
            exact absurd h (by simp)
      rw [hnil]
      exact List.Pairwise.nil
  | @more marker a ks h ha next ih =>
      obtain ⟨b, tail, hrest⟩ : ∃ b tail, rest after L marker = b :: tail := by
        cases hrest : rest after L marker with
        | nil =>
            rw [page, hrest] at h
            exact absurd h (by simp)
        | cons b tail => exact ⟨b, tail, rfl⟩
      have hpage : page after L 1 marker = [b] := by rw [page, hrest]; rfl
      obtain rfl : b = a := by
        rw [hpage] at ha
        exact Option.some.inj ha
      rw [hpage, hrest] at hperm
      have htail : ks.Perm tail := List.Perm.cons_inv hperm
      -- what is left comes after the element, so it is what the next page starts from
      have hafter : ∀ k ∈ tail, after b k := by
        intro k hk
        have hmem := next.after_marker k (htail.mem_iff.mpr hk)
        exact of_decide_eq_true (List.mem_filter.mp hmem).2
      have hnext : rest after L (some b) = tail := by
        rw [rest_of_mem (by rw [hrest]; exact List.mem_cons_self ..), hrest,
          List.filter_cons_of_neg (by simp [Std.Irrefl.irrefl b])]
        exact List.filter_eq_self.mpr (fun k hk => decide_eq_true (hafter k hk))
      rw [hnext] at ih
      rw [hrest]
      exact List.pairwise_cons.mpr ⟨hafter, ih htail⟩

/-- **PAGING IS COMPLETE IF THE LIST FOLLOWS THE MARKERS.**  In pages of any size every element
    comes exactly once, exactly if each element of the list comes after all before it. -/
theorem paged_perm_iff (after : α → α → Prop) [DecidableRel after] [IsTrans α after]
    [Std.Irrefl after] :
    (∀ n, 0 < n → ∃ ks, Paged after L n none ks ∧ ks.Perm L) ↔ L.Pairwise after := by
  constructor
  · intro hall
    obtain ⟨ks, hpaged, hperm⟩ := hall 1 Nat.one_pos
    exact pairwise_of_paged hpaged hperm
  · intro h n hn
    exact ⟨L, paged_tail h hn L.length [] L none (Nat.le_refl _) rfl rfl, List.Perm.refl L⟩

end MarkerPages
