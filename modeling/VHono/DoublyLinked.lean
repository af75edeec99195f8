import Mathlib.Tactic

/-! # Doubly linked lists

    A node names the node before it and the node after it, `none` being nil.
    `Seg` says that nodes stand in a given order between two ends, each link
    answered by the link back.  The edits of a list, and the order each leaves. -/

namespace DoublyLinked

variable {ν : Type*}

/-- The two links of every node. -/
structure Links (ν : Type*) where
  prev : ν → Option ν
  next : ν → Option ν

/-- The nodes stand in this order from `before` to `after`, linked both ways. -/
def Seg (l : Links ν) : Option ν → List ν → Option ν → Prop
  | _, [], _ => True
  | before, p :: ps, after =>
      l.prev p = before ∧ l.next p = ps.head?.or after ∧ Seg l (some p) ps after

theorem Seg.congr {l l' : Links ν} {ps : List ν} :
    ∀ {before after : Option ν}, Seg l before ps after →
      (∀ p ∈ ps, l'.prev p = l.prev p ∧ l'.next p = l.next p) → Seg l' before ps after := by
  induction ps with
  | nil => intro before after _ _; trivial
  | cons p ps ih =>
      rintro before after ⟨hprev, hnext, hrest⟩ hsame
      obtain ⟨hp, hq⟩ := hsame p (List.mem_cons_self ..)
      exact ⟨hp.trans hprev, hq.trans hnext,
        ih hrest (fun q hq => hsame q (List.mem_cons_of_mem _ hq))⟩

/-- Two segments in a row. -/
theorem seg_append {l : Links ν} {qs after} : ∀ {ps : List ν} {before : Option ν},
    Seg l before (ps ++ qs) after
      ↔ Seg l before ps (qs.head?.or after) ∧ Seg l (ps.getLast?.or before) qs after := by
  intro ps
  induction ps with
  | nil =>
      intro before
      show Seg l before qs after ↔ True ∧ Seg l before qs after
      rw [true_and]
  | cons p ps ih =>
      intro before
      have hlast : ((p :: ps).getLast?).or before = ps.getLast?.or (some p) := by
        cases ps with
        | nil => rfl
        | cons q ps => rw [List.getLast?_cons_cons]; simp [List.getLast?_cons]
      have hhead : (ps ++ qs).head?.or after = ps.head?.or (qs.head?.or after) := by
        rw [List.head?_append, Option.or_assoc]
      rw [hlast, List.cons_append]
      simp only [Seg, hhead, ih, and_assoc]

/-- What the links of a node in a list are. -/
theorem seg_at {l : Links ν} {xs ys : List ν} {p : ν} (h : Seg l none (xs ++ p :: ys) none) :
    l.prev p = xs.getLast? ∧ l.next p = ys.head? := by
  obtain ⟨-, hprev, hnext, -⟩ := seg_append.mp h
  rw [Option.or_none] at hprev hnext
  exact ⟨hprev, hnext⟩

variable [DecidableEq ν]

namespace Links

def setPrev (l : Links ν) (p : ν) (q : Option ν) : Links ν where
  prev := Function.update l.prev p q
  next := l.next

def setNext (l : Links ν) (p : ν) (q : Option ν) : Links ν where
  prev := l.prev
  next := Function.update l.next p q

@[simp] theorem setPrev_next (l : Links ν) (p : ν) (q : Option ν) :
    (l.setPrev p q).next = l.next := rfl

@[simp] theorem setNext_prev (l : Links ν) (p : ν) (q : Option ν) :
    (l.setNext p q).prev = l.prev := rfl

@[simp] theorem setPrev_prev (l : Links ν) (p : ν) (q : Option ν) :
    (l.setPrev p q).prev p = q := Function.update_self ..

@[simp] theorem setNext_next (l : Links ν) (p : ν) (q : Option ν) :
    (l.setNext p q).next p = q := Function.update_self ..

theorem setPrev_prev_ne (l : Links ν) {p r : ν} (h : r ≠ p) (q : Option ν) :
    (l.setPrev p q).prev r = l.prev r := Function.update_of_ne h ..

theorem setNext_next_ne (l : Links ν) {p r : ν} (h : r ≠ p) (q : Option ν) :
    (l.setNext p q).next r = l.next r := Function.update_of_ne h ..

/-- The node before `p`, if there is one, skips it. -/
def bypassPrev (l : Links ν) (p : ν) : Links ν :=
  match l.prev p with
  | some q => l.setNext q (l.next p)
  | none => l

/-- The node after `p`, if there is one, skips it. -/
def bypassNext (l : Links ν) (p : ν) : Links ν :=
  match l.next p with
  | some q => l.setPrev q (l.prev p)
  | none => l

/-- The first node, if there is one, is told what stands before it. -/
def backlink (l : Links ν) (head : Option ν) (p : ν) : Links ν :=
  match head with
  | some q => l.setPrev q (some p)
  | none => l

/-- `p` is put before the first node. -/
def pushFront (l : Links ν) (head : Option ν) (p : ν) : Links ν :=
  ((l.setNext p head).setPrev p none).backlink head p

/-- Skipping a node leaves the links of the node itself alone. -/
theorem bypassPrev_self {l : Links ν} {p : ν} (h : l.prev p ≠ some p) :
    (l.bypassPrev p).prev p = l.prev p ∧ (l.bypassPrev p).next p = l.next p := by
  rw [bypassPrev]
  cases hprev : l.prev p with
  | none => exact ⟨hprev, rfl⟩
  | some q =>
      refine ⟨hprev, l.setNext_next_ne ?_ _⟩
      rintro rfl
      exact h hprev

end Links

variable {l : Links ν}

theorem Seg.setNext_of_not_mem {before after : Option ν} {ps : List ν}
    (h : Seg l before ps after) {p : ν} (hp : p ∉ ps) (q : Option ν) :
    Seg (l.setNext p q) before ps after :=
  h.congr (fun _ hr => ⟨rfl, l.setNext_next_ne (ne_of_mem_of_not_mem hr hp) q⟩)

theorem Seg.setPrev_of_not_mem {before after : Option ν} {ps : List ν}
    (h : Seg l before ps after) {p : ν} (hp : p ∉ ps) (q : Option ν) :
    Seg (l.setPrev p q) before ps after :=
  h.congr (fun _ hr => ⟨l.setPrev_prev_ne (ne_of_mem_of_not_mem hr hp) q, rfl⟩)

/-- The last node is given another successor. -/
theorem Seg.setNext_last {before after : Option ν} {ps : List ν} {p : ν}
    (h : Seg l before (ps ++ [p]) after) (hp : p ∉ ps) (q : Option ν) :
    Seg (l.setNext p q) before (ps ++ [p]) q := by
  obtain ⟨hinit, hprev, -, -⟩ := seg_append.mp h
  refine seg_append.mpr ⟨?_, hprev, ?_, trivial⟩
  · exact hinit.setNext_of_not_mem hp q
  · exact l.setNext_next p q

/-- The first node is given another predecessor. -/
theorem Seg.setPrev_first {before after : Option ν} {ps : List ν} {p : ν}
    (h : Seg l before (p :: ps) after) (hp : p ∉ ps) (q : Option ν) :
    Seg (l.setPrev p q) q (p :: ps) after := by
  obtain ⟨-, hnext, hrest⟩ := h
  exact ⟨l.setPrev_prev p q, hnext, hrest.setPrev_of_not_mem hp q⟩

/-- **SKIPPING A NODE.**  With both neighbours of `p` skipping it the others are linked as if it
    had never stood between them. -/
theorem Seg.bypass {xs ys : List ν} {p : ν} (h : Seg l none (xs ++ p :: ys) none)
    (hnodup : (xs ++ p :: ys).Nodup) :
    Seg ((l.bypassPrev p).bypassNext p) none (xs ++ ys) none := by
  obtain ⟨hprev, hnext⟩ := seg_at h
  obtain ⟨hxs, -, -, hys⟩ := seg_append.mp h
  obtain ⟨hnxs, hnys, hdisj⟩ := List.nodup_append.mp hnodup
  have hpxs : p ∉ xs := fun hmem => hdisj p hmem p (List.mem_cons_self ..) rfl
  have hpys : p ∉ ys := (List.nodup_cons.mp hnys).1
  have hcross : ∀ q ∈ xs, q ∉ ys := fun q hx hy => hdisj q hx q (List.mem_cons_of_mem _ hy) rfl
  -- first the nodes before `p` end at the node after it
  have hbefore : Seg (l.bypassPrev p) none xs ys.head? ∧ Seg (l.bypassPrev p) (some p) ys none ∧
      (l.bypassPrev p).next p = ys.head? ∧ (l.bypassPrev p).prev p = xs.getLast? := by
    rw [Links.bypassPrev]
    cases xs using List.reverseRecOn with
    | nil =>
        rw [hprev]
        exact ⟨trivial, hys, hnext, hprev⟩
    | append_singleton ws w =>
        have hw : w ∈ ws ++ [w] := List.mem_append_right _ (List.mem_singleton_self w)
        have hlast : l.prev p = some w := by rw [hprev, List.getLast?_concat]
        rw [hlast]
        refine ⟨?_, hys.setNext_of_not_mem (hcross w hw) _, ?_, hprev⟩
        · rw [← hnext]
          refine Seg.setNext_last hxs ?_ _
          intro hmem
          exact (List.nodup_append.mp hnxs).2.2 w hmem w (List.mem_singleton_self w) rfl
        · rw [← hnext]
          exact l.setNext_next_ne (ne_of_mem_of_not_mem hw hpxs).symm _
  obtain ⟨hxs', hys', hnext', hprev'⟩ := hbefore
  -- and the nodes after it begin at the node before it
  refine seg_append.mpr ?_
  rw [Option.or_none, Option.or_none, Links.bypassNext, hnext', hprev']
  cases ys with
  | nil => exact ⟨hxs', trivial⟩
  | cons y ys =>
      refine ⟨hxs'.setPrev_of_not_mem ?_ _, ?_⟩
      · intro hmem
        exact hcross y hmem (List.mem_cons_self ..)
      · exact Seg.setPrev_first hys' (List.nodup_cons.mp (List.nodup_cons.mp hnys).2).1 _

/-- **A NEW FIRST NODE.** -/
theorem Seg.pushFront {ps : List ν} {p : ν} (h : Seg l none ps none) (hnodup : (p :: ps).Nodup) :
    Seg (l.pushFront ps.head? p) none (p :: ps) none := by
  obtain ⟨hp, hnodup⟩ := List.nodup_cons.mp hnodup
  have hrest := (h.setNext_of_not_mem hp ps.head?).setPrev_of_not_mem hp none
  rw [Links.pushFront]
  cases ps with
  | nil =>
      refine ⟨Links.setPrev_prev .., ?_, trivial⟩
      exact Links.setNext_next ..
  | cons q ps =>
      have hpq : p ≠ q := fun heq => hp (heq ▸ List.mem_cons_self ..)
      refine ⟨?_, ?_, ?_⟩
      · exact (Links.setPrev_prev_ne _ hpq _).trans (Links.setPrev_prev ..)
      · exact Links.setNext_next ..
      · exact Seg.setPrev_first hrest (List.nodup_cons.mp hnodup).1 _

end DoublyLinked
