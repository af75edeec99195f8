import Mathlib.Tactic

/-! # Data stored in pieces

    A value kept as numbered pieces: `assemble` joins the pieces of a list of
    indices and fails if one is missing.  A write puts down everything, or
    fails and may leave a torn value.  `copyPiece` is the loop that moves one
    piece to an output through a buffer; a read that fails ends it like the end
    of the piece, a write that fails stops it. -/

namespace PieceAssembly

variable {α ι : Type*}

/-- The pieces under the indices, joined in that order. -/
def assemble (piece : ι → Option (List α)) : List ι → Option (List α)
  | [] => some []
  | i :: is => (piece i).bind (fun p => (assemble piece is).map (p ++ ·))

@[simp] theorem assemble_nil (piece : ι → Option (List α)) : assemble piece [] = some [] := rfl

theorem assemble_cons (piece : ι → Option (List α)) (i : ι) (is : List ι) :
    assemble piece (i :: is) = (piece i).bind (fun p => (assemble piece is).map (p ++ ·)) := rfl

theorem assemble_cons_some {piece : ι → Option (List α)} {i : ι} {is : List ι} {p q : List α}
    (hp : piece i = some p) (hq : assemble piece is = some q) :
    assemble piece (i :: is) = some (p ++ q) := by
  rw [assemble_cons, hp, hq]
  rfl

/-- If the value is there, so is every piece. -/
theorem piece_of_assemble {piece : ι → Option (List α)} :
    ∀ {is : List ι} {l : List α}, assemble piece is = some l → ∀ i ∈ is, ∃ p, piece i = some p := by
  intro is
  induction is with
  | nil => intro l _ i hi; cases hi
  | cons i is ih =>
      intro l h
      rw [assemble_cons] at h
      obtain ⟨p, hp, hrest⟩ := Option.bind_eq_some_iff.mp h
      obtain ⟨q, hq, -⟩ := Option.map_eq_some_iff.mp hrest
      intro j hj
      rcases List.mem_cons.mp hj with rfl | hj
      · exact ⟨p, hp⟩
      · exact ih hq j hj

theorem assemble_congr {piece piece' : ι → Option (List α)} :
    ∀ {is : List ι}, (∀ i ∈ is, piece i = piece' i) → assemble piece is = assemble piece' is := by
  intro is
  induction is with
  | nil => intro _; rfl
  | cons i is ih =>
      intro h
      rw [assemble_cons, assemble_cons, h i (List.mem_cons_self ..),
        ih (fun j hj => h j (List.mem_cons_of_mem _ hj))]

/-- The length of the value is the sum of the lengths of its pieces. -/
theorem length_assemble {piece : ι → Option (List α)} :
    ∀ {is : List ι} {l : List α}, assemble piece is = some l →
      l.length = (is.map (fun i => ((piece i).getD []).length)).sum := by
  intro is
  induction is with
  | nil =>
      intro l h
      rw [← Option.some.inj h]
      rfl
  | cons i is ih =>
      intro l h
      rw [assemble_cons] at h
      obtain ⟨p, hp, hrest⟩ := Option.bind_eq_some_iff.mp h
      obtain ⟨q, hq, rfl⟩ := Option.map_eq_some_iff.mp hrest
      rw [List.length_append, ih hq, List.map_cons, List.sum_cons, hp]
      rfl

/-! ## Pieces numbered from one -/

/-- The numbers of `n` pieces. -/
def numbers (n : Nat) : List Int := (List.range n).map (fun i : Nat => (i : Int) + 1)

theorem mem_numbers {n : Nat} {k : Int} : k ∈ numbers n ↔ 1 ≤ k ∧ k ≤ n := by
  rw [numbers, List.mem_map]
  constructor
  · rintro ⟨i, hi, rfl⟩
    have := List.mem_range.mp hi
    omega
  · rintro ⟨hlow, hhigh⟩
    exact ⟨(k - 1).toNat, List.mem_range.mpr (by omega), by omega⟩

theorem pairwise_numbers (n : Nat) : (numbers n).Pairwise (· < ·) := by
  rw [numbers, List.pairwise_map]
  exact List.pairwise_lt_range.imp (fun h => by omega)

/-- **ALL PIECES ARE THERE.**  As many numbers as pieces, in strict order and within range,
    are the numbers of all pieces. -/
theorem eq_numbers {n : Nat} {ks : List Int} (hsorted : ks.Pairwise (· < ·))
    (hrange : ∀ k ∈ ks, 1 ≤ k ∧ k ≤ n) (hlength : ks.length = n) : ks = numbers n := by
  have hsub : ks ⊆ numbers n := fun k hk => mem_numbers.mpr (hrange k hk)
  have hnodup : ks.Nodup := hsorted.imp (fun h => Int.ne_of_lt h)
  have hle : (numbers n).length ≤ ks.length := by
    rw [numbers, List.length_map, List.length_range, hlength]
  have hperm : ks.Perm (numbers n) := (hnodup.subperm hsub).perm_of_length_le hle
  exact hperm.eq_of_pairwise (fun a b _ _ hab hba => absurd hab (Int.lt_asymm hba)) hsorted
    (pairwise_numbers n)

/-- **PRESENT AND MISSING MAKE UP THE WHOLE.**  Different numbers within range, and the numbers
    that are not among them, are as many as there are pieces. -/
theorem length_add_missing {n : Nat} {ks : List Int} (hnodup : ks.Nodup)
    (hrange : ∀ k ∈ ks, 1 ≤ k ∧ k ≤ n) :
    ks.length + ((numbers n).filter (fun k => decide (k ∉ ks))).length = n := by
  have hnumbers : (numbers n).Nodup := (pairwise_numbers n).imp (fun h => Int.ne_of_lt h)
  have hpresent : ((numbers n).filter (fun k => decide (k ∈ ks))).Perm ks := by
    rw [List.perm_ext_iff_of_nodup (hnumbers.filter _) hnodup]
    intro k
    rw [List.mem_filter, decide_eq_true_eq, mem_numbers]
    exact ⟨fun h => h.2, fun h => ⟨hrange k h, h⟩⟩
  have hsplit := List.length_eq_length_filter_add (l := numbers n) (fun k => decide (k ∈ ks))
  have hlength : (numbers n).length = n := by
    rw [numbers, List.length_map, List.length_range]
  rw [hlength, hpresent.length_eq] at hsplit
  simp only [decide_not]
  omega

/-! ## Writing a value -/

/-- What a write does: everything, or it fails and leaves the old content or a torn one. -/
inductive WriteOutcome (α : Type*)
  | done
  | failed (torn : Option α)
  deriving DecidableEq, Repr

namespace WriteOutcome

def apply (w : WriteOutcome α) (old : Option α) (new : α) : Option α :=
  match w with
  | done => some new
  | failed none => old
  | failed (some torn) => some torn

def ok (w : WriteOutcome α) : Bool :=
  match w with
  | done => true
  | failed _ => false

end WriteOutcome

/-! ## Copying a piece through a buffer -/

/-- The reads that fail, and the writes that fail with the number of elements they still
    put out; reads and writes are counted from zero. -/
structure CopyFaults where
  readFails  : Nat → Bool
  writeFails : Nat → Option Nat

/-- Nothing fails. -/
def CopyFaults.none : CopyFaults := ⟨fun _ => false, fun _ => Option.none⟩

/-- The loop from read number `k` on, with the rest of the piece and the output so far;
    the flag says that no write failed. -/
def copyLoop (faults : CopyFaults) (buffer : Nat) :
    Nat → Nat → List α → List α → List α × Bool
  | 0, _, _, out => (out, true)
  | fuel + 1, k, rest, out =>
    if faults.readFails k = true then (out, true)
    else if (rest.take buffer).length = 0 then (out, true)
    else
      match faults.writeFails k with
      | some n => (out ++ (rest.take buffer).take n, false)
      | none => copyLoop faults buffer fuel (k + 1) (rest.drop buffer) (out ++ rest.take buffer)

/-- Every round takes something from the piece, so its length bounds the rounds. -/
def copyPiece (faults : CopyFaults) (buffer : Nat) (piece out : List α) : List α × Bool :=
  copyLoop faults buffer (piece.length + 1) 0 piece out

/-- No read fails before the end of the piece, and a piece that is not empty is read
    through a buffer that is not. -/
def ReadsAll (faults : CopyFaults) (buffer : Nat) (piece : List α) : Prop :=
  (piece = [] ∨ 0 < buffer) ∧ ∀ k, k * buffer < piece.length → faults.readFails k = false

theorem copyLoop_all {faults : CopyFaults} {buffer : Nat} {piece : List α}
    (h : ReadsAll faults buffer piece) :
    ∀ (fuel k : Nat) (out : List α), (piece.drop (k * buffer)).length < fuel →
      (copyLoop faults buffer fuel k (piece.drop (k * buffer)) out).2 = true →
      (copyLoop faults buffer fuel k (piece.drop (k * buffer)) out).1
        = out ++ piece.drop (k * buffer) := by
  intro fuel
  induction fuel with
  | zero => intro k out hfuel; exact absurd hfuel (Nat.not_lt_zero _)
  | succ fuel ih =>
      intro k out hfuel hok
      by_cases hend : piece.length ≤ k * buffer
      · have hnil : piece.drop (k * buffer) = [] := List.drop_eq_nil_iff.mpr hend
        rw [hnil, List.append_nil, copyLoop]
        split
        · rfl
        · rw [List.take_nil, if_pos List.length_nil]
      · have hread : faults.readFails k = false := h.2 k (Nat.lt_of_not_le hend)
        have hbuffer : 0 < buffer := by
          rcases h.1 with rfl | hpos
          · exact absurd (Nat.zero_le _) hend
          · exact hpos
        have hlen : (piece.drop (k * buffer)).length = piece.length - k * buffer :=
          List.length_drop
        have htake : ((piece.drop (k * buffer)).take buffer).length ≠ 0 := by
          rw [List.length_take]
          omega
        have hnext : (piece.drop (k * buffer)).drop buffer = piece.drop ((k + 1) * buffer) := by
          rw [List.drop_drop, Nat.add_mul, Nat.one_mul]
        rw [copyLoop, if_neg (by simp [hread]), if_neg htake] at hok ⊢
        cases hwrite : faults.writeFails k with
        | some n =>
            rw [hwrite] at hok
            cases hok
        | none =>
            rw [hwrite] at hok
            dsimp only at hok ⊢
            rw [hnext] at hok ⊢
            have hshorter : (piece.drop ((k + 1) * buffer)).length < fuel := by
              rw [← hnext, List.length_drop]
              omega
            rw [ih (k + 1) _ hshorter hok, ← hnext, List.append_assoc,
              List.take_append_drop]

/-- **COPYING IS EXACT.**  A copy that no failed read cuts short, and that does not fail,
    appends the piece. -/
theorem copyPiece_all {faults : CopyFaults} {buffer : Nat} {piece out : List α}
    (h : ReadsAll faults buffer piece) (hok : (copyPiece faults buffer piece out).2 = true) :
    (copyPiece faults buffer piece out).1 = out ++ piece := by
  have hall := copyLoop_all h (piece.length + 1) 0 out
  rw [Nat.zero_mul, List.drop_zero] at hall
  exact hall (Nat.lt_succ_self _) hok

/-- No write fails before the end of the piece. -/
def WritesAll (faults : CopyFaults) (buffer : Nat) (piece : List α) : Prop :=
  ∀ k, k * buffer < piece.length → faults.writeFails k = none

theorem copyLoop_ok {faults : CopyFaults} {buffer : Nat} {piece : List α}
    (h : WritesAll faults buffer piece) :
    ∀ (fuel k : Nat) (out : List α),
      (copyLoop faults buffer fuel k (piece.drop (k * buffer)) out).2 = true := by
  intro fuel
  induction fuel with
  | zero => intro k out; rfl
  | succ fuel ih =>
      intro k out
      rw [copyLoop]
      split
      · rfl
      · split
        · rfl
        · rename_i hsome
          have hmore : k * buffer < piece.length := by
            rw [List.length_take, List.length_drop] at hsome
            omega
          have hnext : (piece.drop (k * buffer)).drop buffer = piece.drop ((k + 1) * buffer) := by
            rw [List.drop_drop, Nat.add_mul, Nat.one_mul]
          rw [h k hmore]
          dsimp only
          rw [hnext]
          exact ih (k + 1) _

/-- A copy of which no write fails does not fail. -/
theorem copyPiece_ok {faults : CopyFaults} {buffer : Nat} {piece : List α}
    (h : WritesAll faults buffer piece) (out : List α) :
    (copyPiece faults buffer piece out).2 = true := by
  have hloop := copyLoop_ok h (piece.length + 1) 0 out
  rw [Nat.zero_mul, List.drop_zero] at hloop
  exact hloop

theorem readsAll_none {buffer : Nat} (hbuffer : 0 < buffer) (piece : List α) :
    ReadsAll CopyFaults.none buffer piece :=
  ⟨Or.inr hbuffer, fun _ _ => rfl⟩

end PieceAssembly
