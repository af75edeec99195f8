import Mathlib.Tactic

/-! # A file and its numbered backups

    A file with backups `1, 2, ...`, the larger number being the older one.
    Renaming and removing do not look at what the files hold, so they are
    defined for contents of any type: what they do to bytes is what they do to
    a list of the pieces that were written.  The history joins the pieces of
    all files, oldest first; the lemmas say what a rename makes of it. -/

namespace NumberedBackups

variable {α β : Type*}

inductive Name
  | current
  | backup (n : Int)
  deriving DecidableEq, Repr

/-- The file, and its backups by age. -/
def nth : Nat → Name
  | 0 => .current
  | n + 1 => .backup (n + 1)

theorem nth_injective : Function.Injective nth := by
  intro i j h
  cases i with
  | zero =>
      cases j with
      | zero => rfl
      | succ j => cases h
  | succ i =>
      cases j with
      | zero => cases h
      | succ j =>
          have hnumber : (i : Int) + 1 = j + 1 := Name.backup.inj h
          omega

/-- What each file holds, if it is there. -/
abbrev Copies (α : Type*) := Name → Option α

def Copies.map (f : α → β) (files : Copies α) : Copies β := fun name => (files name).map f

/-- A file renamed, if it is there and the call goes through. -/
def mv (files : Copies α) (fails : Bool) (source target : Name) : Copies α :=
  if (files source).isSome = true ∧ fails = false then
    fun name => if name = target then files source else if name = source then none else files name
  else files

/-- A file removed, unless the call fails. -/
def rm (files : Copies α) (fails : Bool) (target : Name) : Copies α :=
  if fails = false then fun name => if name = target then none else files name else files

def write (files : Copies α) (target : Name) (content : α) : Copies α :=
  fun name => if name = target then some content else files name

theorem map_mv (f : α → β) (files : Copies α) (fails : Bool) (source target : Name) :
    mv (files.map f) fails source target = (mv files fails source target).map f := by
  have hsome : (files.map f source).isSome = (files source).isSome := Option.isSome_map
  rw [mv, mv, hsome]
  split
  · funext name
    show _ = Option.map f (if name = target then _ else if name = source then none else _)
    rw [apply_ite (Option.map f), apply_ite (Option.map f)]
    rfl
  · rfl

theorem map_rm (f : α → β) (files : Copies α) (fails : Bool) (target : Name) :
    rm (files.map f) fails target = (rm files fails target).map f := by
  rw [rm, rm]
  split
  · funext name
    show _ = Option.map f (if name = target then none else _)
    rw [apply_ite (Option.map f)]
    rfl
  · rfl

theorem map_write (f : α → β) (files : Copies α) (target : Name) (content : α) :
    write (files.map f) target (f content) = (write files target content).map f := by
  funext name
  show _ = Option.map f (if name = target then _ else _)
  rw [apply_ite (Option.map f)]
  rfl

/-- A file that is not there is not renamed. -/
theorem mv_absent {files : Copies α} {source : Name} (h : files source = none) (fails : Bool)
    (target : Name) : mv files fails source target = files := by
  rw [mv, if_neg (by simp [h])]

/-- What a rename that goes through does to each file, if there was no target. -/
theorem mv_done {files : Copies α} (source : Name) {target : Name}
    (habsent : files target = none) (name : Name) :
    mv files false source target name
      = if name = target then files source else if name = source then none else files name := by
  cases hsource : files source with
  | none =>
      rw [mv_absent hsource]
      split
      · rename_i htarget
        rw [htarget, habsent]
      · split
        · rename_i hname
          rw [hname, hsource]
        · rfl
  | some content => rw [mv, if_pos ⟨by rw [hsource]; rfl, rfl⟩, hsource]

/-! ## The history -/

/-- The pieces of the file and its backups, `n` files in all, oldest first. -/
def history (files : Copies (List α)) : Nat → List α
  | 0 => []
  | n + 1 => (files (nth n)).getD [] ++ history files n

theorem history_succ (files : Copies (List α)) (n : Nat) :
    history files (n + 1) = (files (nth n)).getD [] ++ history files n := rfl

theorem history_congr {files files' : Copies (List α)} :
    ∀ {n : Nat}, (∀ i < n, files' (nth i) = files (nth i)) →
      history files' n = history files n := by
  intro n
  induction n with
  | zero => exact fun _ => rfl
  | succ n ih =>
      intro h
      rw [history, history, h n (Nat.lt_succ_self n), ih (fun i hi => h i (Nat.lt_succ_of_lt hi))]

/-- Removing a file loses its pieces. -/
theorem history_rm (files : Copies (List α)) (fails : Bool) (target : Name) :
    ∀ n, List.Sublist (history (rm files fails target) n) (history files n) := by
  intro n
  induction n with
  | zero => exact List.Sublist.refl _
  | succ n ih =>
      refine List.Sublist.append ?_ ih
      rw [rm]
      split
      · dsimp only
        split
        · exact List.nil_sublist _
        · exact List.Sublist.refl _
      · exact List.Sublist.refl _

/-- **A RENAME KEEPS THE ORDER.**  A file takes the place of the next older one, of which at most
    the pieces are lost. -/
theorem history_mv (files : Copies (List α)) (fails : Bool) (k : Nat) :
    ∀ n, List.Sublist (history (mv files fails (nth k) (nth (k + 1))) n) (history files n) := by
  have hne : nth k ≠ nth (k + 1) := fun h => Nat.succ_ne_self k (nth_injective h).symm
  intro n
  rw [mv]
  split
  · -- the younger files, the two of the rename, the older files
    have hyoung : ∀ {m : Nat}, m ≤ k → history (fun name => if name = nth (k + 1) then files (nth k)
        else if name = nth k then none else files name) m = history files m := by
      intro m hm
      refine history_congr (fun i hi => ?_)
      rw [if_neg (fun h => by have := nth_injective h; omega),
        if_neg (fun h => by have := nth_injective h; omega)]
    have hsource : history (fun name => if name = nth (k + 1) then files (nth k)
        else if name = nth k then none else files name) (k + 1) = history files k := by
      rw [history, if_neg hne, if_pos rfl, hyoung (Nat.le_refl k)]
      rfl
    by_cases hn : n ≤ k
    · rw [hyoung hn]
    · obtain ⟨j, rfl⟩ := Nat.exists_eq_add_of_lt (Nat.lt_of_not_le hn)
      induction j with
      | zero =>
          rw [Nat.add_zero, hsource]
          exact List.sublist_append_right _ _
      | succ j ih =>
          have hlater := ih (by omega)
          cases j with
          | zero =>
              rw [show k + (0 + 1) + 1 = k + 1 + 1 from rfl, history, if_pos rfl, hsource]
              exact List.sublist_append_right _ _
          | succ j =>
              rw [show k + (j + 1 + 1) + 1 = k + (j + 1) + 1 + 1 from rfl, history, history]
              refine List.Sublist.append ?_ hlater
              rw [if_neg (fun h => by have := nth_injective h; omega),
                if_neg (fun h => by have := nth_injective h; omega)]
  · exact List.Sublist.refl _

/-- Every file has taken the place of the next older one: the history is that of the younger
    files. -/
theorem history_shift {files files' : Copies (List α)} (habsent : files' (nth 0) = none) :
    ∀ {n : Nat}, (∀ i < n, files' (nth (i + 1)) = files (nth i)) →
      history files' (n + 1) = history files n := by
  intro n
  induction n with
  | zero =>
      intro _
      rw [history_succ, habsent]
      rfl
  | succ n ih =>
      intro h
      rw [history_succ, h n (Nat.lt_succ_self n), ih (fun i hi => h i (Nat.lt_succ_of_lt hi)),
        history_succ]

/-- A piece added to the file comes last. -/
theorem history_write (files : Copies (List α)) (piece : α) :
    ∀ n, history (write files (nth 0) ((files (nth 0)).getD [] ++ [piece])) (n + 1)
      = history files (n + 1) ++ [piece] := by
  intro n
  induction n with
  | zero =>
      rw [history, history, history, history, write, if_pos rfl, List.append_nil, List.append_nil]
      rfl
  | succ n ih =>
      have hother : nth (n + 1) ≠ nth 0 := fun h => Nat.succ_ne_zero n (nth_injective h)
      rw [history, ih, write, if_neg hother, ← List.append_assoc]
      rfl

theorem history_flatten (files : Copies (List (List α))) :
    ∀ n, history (files.map List.flatten) n = (history files n).flatten := by
  intro n
  induction n with
  | zero => rfl
  | succ n ih =>
      rw [history, ih, history, List.flatten_append, Copies.map]
      cases files (nth n) with
      | none => rfl
      | some pieces => rfl

/-- Files of at least a size have a history of that size for each. -/
theorem length_history {files : Copies (List α)} {size : Nat} :
    ∀ {n : Nat}, (∀ i < n, ∃ content, files (nth (i + 1)) = some content ∧ size ≤ content.length) →
      n * size ≤ (history files (n + 1)).length := by
  intro n
  induction n with
  | zero =>
      intro _
      rw [Nat.zero_mul]
      exact Nat.zero_le _
  | succ n ih =>
      intro h
      obtain ⟨content, hcontent, hsize⟩ := h n (Nat.lt_succ_self n)
      have hyounger := ih (fun i hi => h i (Nat.lt_succ_of_lt hi))
      rw [history, hcontent, List.length_append, Nat.succ_mul]
      exact Nat.add_comm _ _ ▸ Nat.add_le_add hsize hyounger

end NumberedBackups
