import VHono.InsertionMap
import VHono.ByteString

/-! # Patterns of path segments

    A pattern is a list of segments: a literal, `:name` for any one segment, or
    `*` for all that is left.  `Matches` says which paths a pattern is for and
    `bound` which parameter stands for which segment.

    Two patterns that begin with the same steps may part at a segment; the one
    whose step is the more specific for the path is a rival there.  `after`
    follows a whole table of patterns step by step. -/

namespace VHono

open ByteString

/-- What a segment of a pattern asks of a segment of a path. -/
inductive PatternStep where
  | literal (seg : ByteString)
  | param
  | rest
  deriving DecidableEq

def stepOf (seg : ByteString) : PatternStep :=
  if startsWith seg (ascii ":") then .param
  else if seg = ascii "*" then .rest
  else .literal seg

/-- The name in `:name`. -/
def paramNameOf (seg : ByteString) : ByteString := seg.drop 1

/-- The pattern is for the path. -/
inductive Matches : List ByteString → List ByteString → Prop where
  | nil : Matches [] []
  | literal {seg : ByteString} {ps ss : List ByteString} :
      stepOf seg = .literal seg → Matches ps ss → Matches (seg :: ps) (seg :: ss)
  | param {seg s : ByteString} {ps ss : List ByteString} :
      stepOf seg = .param → Matches ps ss → Matches (seg :: ps) (s :: ss)
  | rest {seg s : ByteString} {ss : List ByteString} :
      stepOf seg = .rest → Matches [seg] (s :: ss)

/-- The parameters of a pattern with the segments they stand for. -/
def bound : List ByteString → List ByteString → List (ByteString × ByteString)
  | seg :: ps, s :: ss =>
    if stepOf seg = .param then (paramNameOf seg, s) :: bound ps ss else bound ps ss
  | _, _ => []

/-- The first step is the more specific one for the segment. -/
inductive Outranks (s : ByteString) : PatternStep → PatternStep → Prop where
  | literal_param : Outranks s (.literal s) .param
  | literal_rest : Outranks s (.literal s) .rest
  | param_rest : Outranks s .param .rest

/-- `qs` begins with the steps of `ps` and then, at some segment of the path, has a step that
    outranks the one of `ps`. -/
inductive Rivals : List ByteString → List ByteString → List ByteString → Prop where
  | here {seg seg' s : ByteString} {ps qs ss : List ByteString} :
      Outranks s (stepOf seg') (stepOf seg) → Rivals (seg :: ps) (seg' :: qs) (s :: ss)
  | later {seg seg' s : ByteString} {ps qs ss : List ByteString} :
      stepOf seg' = stepOf seg → Rivals ps qs ss → Rivals (seg :: ps) (seg' :: qs) (s :: ss)

theorem stepOf_literal {seg s : ByteString} (h : stepOf seg = .literal s) : seg = s := by
  rw [stepOf] at h
  split at h
  · cases h
  · split at h
    · cases h
    · exact PatternStep.literal.inj h

theorem Matches.tail {seg s : ByteString} {ps ss : List ByteString}
    (h : Matches (seg :: ps) (s :: ss)) (hrest : stepOf seg ≠ .rest) : Matches ps ss := by
  cases h with
  | literal _ h => exact h
  | param _ h => exact h
  | rest hstep => exact absurd hstep hrest

theorem not_outranks_literal {s seg : ByteString} {st : PatternStep} :
    ¬ Outranks s st (.literal seg) := by
  rintro ⟨⟩

/-- No pattern is a rival of its own. -/
theorem not_rivals_self : ∀ {ps ss : List ByteString}, ¬ Rivals ps ps ss := by
  intro ps
  induction ps with
  | nil => rintro ss ⟨⟩
  | cons seg ps ih =>
      rintro ss (hrank | ⟨-, hlater⟩)
      · generalize stepOf seg = st at hrank
        cases hrank
      · exact ih hlater

/-! ## Tables of patterns

    A table lists patterns with what is registered under them, in the order of
    the registrations. -/

section Tables

variable {α : Type}

/-- What is left of the patterns that begin with a step. -/
def after (R : List (List ByteString × α)) (st : PatternStep) : List (List ByteString × α) :=
  R.filterMap (fun r => match r.1 with
    | [] => none
    | seg :: segs => if stepOf seg = st then some (segs, r.2) else none)

/-- The segment with which the first of these patterns begins. -/
def leadSegment (R : List (List ByteString × α)) (st : PatternStep) : ByteString :=
  ((R.filterMap (fun r => r.1.head?)).find? (fun seg => stepOf seg = st)).getD []

/-- The last registration of a pattern with these steps. -/
def LastOf (R : List (List ByteString × α)) (ps : List ByteString) (x : α) : Prop :=
  ∃ A C, R = A ++ (ps, x) :: C ∧ ∀ r ∈ C, r.1.map stepOf ≠ ps.map stepOf

/-- No pattern of the table is a rival. -/
def Unrivalled (R : List (List ByteString × α)) (ps ss : List ByteString) : Prop :=
  ∀ r ∈ R, ¬ Rivals ps r.1 ss

/-- The segments of a path under the names that the first patterns with the same steps have for
    the parameters. -/
def named : List (List ByteString × α) → List ByteString → List ByteString →
    List (ByteString × ByteString)
  | R, seg :: ps, s :: ss =>
    let later := named (after R (stepOf seg)) ps ss
    if stepOf seg = .param then (paramNameOf (leadSegment R .param), s) :: later else later
  | _, _, _ => []

theorem named_cons (R : List (List ByteString × α)) (seg s : ByteString)
    (ps ss : List ByteString) :
    named R (seg :: ps) (s :: ss)
      = if stepOf seg = .param
        then (paramNameOf (leadSegment R .param), s) :: named (after R (stepOf seg)) ps ss
        else named (after R (stepOf seg)) ps ss := rfl

theorem after_cons (R : List (List ByteString × α)) (seg : ByteString) (segs : List ByteString)
    (x : α) (st : PatternStep) :
    after ((seg :: segs, x) :: R) st
      = if stepOf seg = st then (segs, x) :: after R st else after R st := by
  rw [after, List.filterMap_cons]
  by_cases hst : stepOf seg = st
  · simp only [if_pos hst]
    rfl
  · simp only [if_neg hst]
    rfl

theorem after_nil_cons (R : List (List ByteString × α)) (x : α) (st : PatternStep) :
    after (([], x) :: R) st = after R st := rfl

theorem mem_after {R : List (List ByteString × α)} {st : PatternStep} {segs : List ByteString}
    {x : α} : (segs, x) ∈ after R st ↔ ∃ seg, stepOf seg = st ∧ (seg :: segs, x) ∈ R := by
  rw [after, List.mem_filterMap]
  constructor
  · rintro ⟨⟨ps, y⟩, hr, h⟩
    cases ps with
    | nil => cases h
    | cons seg ps =>
        dsimp only at h
        split at h
        · rename_i hst
          obtain ⟨rfl, rfl⟩ := Prod.mk.inj (Option.some.inj h)
          exact ⟨seg, hst, hr⟩
        · cases h
  · rintro ⟨seg, hst, hr⟩
    exact ⟨(seg :: segs, x), hr, if_pos hst⟩

theorem after_ne_nil {R : List (List ByteString × α)} {seg : ByteString} {segs : List ByteString}
    {x : α} (h : (seg :: segs, x) ∈ R) : after R (stepOf seg) ≠ [] :=
  List.ne_nil_of_mem (mem_after.mpr ⟨seg, rfl, h⟩)

theorem lastOf_cons {R : List (List ByteString × α)} {r : List ByteString × α}
    {ps : List ByteString} {x : α} :
    LastOf (r :: R) ps x
      ↔ LastOf R ps x ∨ (r = (ps, x) ∧ ∀ r' ∈ R, r'.1.map stepOf ≠ ps.map stepOf) := by
  constructor
  · rintro ⟨A, C, hsplit, hC⟩
    cases A with
    | nil =>
        obtain ⟨rfl, rfl⟩ := List.cons.inj hsplit
        exact Or.inr ⟨rfl, hC⟩
    | cons a A =>
        obtain ⟨-, rfl⟩ := List.cons.inj hsplit
        exact Or.inl ⟨A, C, rfl, hC⟩
  · rintro (⟨A, C, rfl, hC⟩ | ⟨rfl, hR⟩)
    · exact ⟨r :: A, C, rfl, hC⟩
    · exact ⟨[], R, rfl, hR⟩

theorem LastOf.mem {R : List (List ByteString × α)} {ps : List ByteString} {x : α}
    (h : LastOf R ps x) : (ps, x) ∈ R := by
  obtain ⟨A, C, rfl, -⟩ := h
  exact List.mem_append_right _ (List.mem_cons_self ..)

/-- Other steps now, or other steps later. -/
theorem other_steps_iff {R : List (List ByteString × α)} {st : PatternStep}
    {ps : List ByteString} {seg : ByteString} (hseg : stepOf seg = st) :
    (∀ r ∈ after R st, r.1.map stepOf ≠ ps.map stepOf)
      ↔ ∀ r ∈ R, r.1.map stepOf ≠ (seg :: ps).map stepOf := by
  constructor
  · rintro h ⟨qs, y⟩ hr heq
    cases qs with
    | nil => cases heq
    | cons seg' qs =>
        obtain ⟨hst, hqs⟩ := List.cons.inj heq
        exact h (qs, y) (mem_after.mpr ⟨seg', hst.trans hseg, hr⟩) hqs
  · rintro h ⟨qs, y⟩ hr heq
    obtain ⟨seg', hst, hmem⟩ := mem_after.mp hr
    refine h (seg' :: qs, y) hmem ?_
    rw [List.map_cons, List.map_cons, hst, hseg, heq]

/-- The last pattern with these steps, one step further on. -/
theorem lastOf_after {R : List (List ByteString × α)} {st : PatternStep} {ps : List ByteString}
    {x : α} : LastOf (after R st) ps x ↔ ∃ seg, stepOf seg = st ∧ LastOf R (seg :: ps) x := by
  induction R with
  | nil =>
      constructor
      · intro h
        cases h.mem
      · rintro ⟨seg, -, h⟩
        cases h.mem
  | cons r R ih =>
      obtain ⟨qs, y⟩ := r
      have hother : ∀ {seg}, stepOf seg = st → (qs, y) ≠ (seg :: ps, x) →
          (LastOf ((qs, y) :: R) (seg :: ps) x ↔ LastOf R (seg :: ps) x) := by
        intro seg _ hne
        rw [lastOf_cons]
        exact or_iff_left (fun h => hne h.1)
      cases qs with
      | nil =>
          rw [after_nil_cons, ih]
          refine exists_congr (fun seg => and_congr_right (fun hst => ?_))
          exact (hother hst (by rintro ⟨⟩)).symm
      | cons seg' qs =>
          rw [after_cons]
          by_cases hst' : stepOf seg' = st
          · rw [if_pos hst', lastOf_cons, ih]
            constructor
            · rintro (⟨seg, hst, h⟩ | ⟨heq, h⟩)
              · exact ⟨seg, hst, lastOf_cons.mpr (Or.inl h)⟩
              · obtain ⟨rfl, rfl⟩ := Prod.mk.inj heq
                exact ⟨seg', hst', lastOf_cons.mpr (Or.inr ⟨rfl, (other_steps_iff hst').mp h⟩)⟩
            · rintro ⟨seg, hst, h⟩
              rcases lastOf_cons.mp h with hlater | ⟨heq, hnone⟩
              · exact Or.inl ⟨seg, hst, hlater⟩
              · obtain ⟨hqs, rfl⟩ := Prod.mk.inj heq
                obtain ⟨rfl, rfl⟩ := List.cons.inj hqs
                exact Or.inr ⟨rfl, (other_steps_iff hst').mpr hnone⟩
          · rw [if_neg hst', ih]
            refine exists_congr (fun seg => and_congr_right (fun hst => ?_))
            refine (hother hst ?_).symm
            intro heq
            obtain ⟨hqs, -⟩ := Prod.mk.inj heq
            obtain ⟨rfl, -⟩ := List.cons.inj hqs
            exact hst' hst

/-- One step further on, the rivals are those of the same step. -/
theorem unrivalled_cons {R : List (List ByteString × α)} {seg s : ByteString}
    {ps ss : List ByteString} :
    Unrivalled R (seg :: ps) (s :: ss)
      ↔ (∀ st, Outranks s st (stepOf seg) → after R st = []) ∧
        Unrivalled (after R (stepOf seg)) ps ss := by
  constructor
  · intro h
    refine ⟨?_, ?_⟩
    · intro st hrank
      rw [List.eq_nil_iff_forall_not_mem]
      rintro ⟨qs, y⟩ hr
      obtain ⟨seg', rfl, hmem⟩ := mem_after.mp hr
      exact h _ hmem (.here hrank)
    · rintro ⟨qs, y⟩ hr hrival
      obtain ⟨seg', hst, hmem⟩ := mem_after.mp hr
      exact h _ hmem (.later hst hrival)
  · rintro ⟨hnow, hlater⟩ ⟨qs, y⟩ hr hrival
    cases hrival with
    | here hrank =>
        exact after_ne_nil hr (hnow _ hrank)
    | later hst hrival =>
        exact hlater (_, y) (mem_after.mpr ⟨_, hst, hr⟩) hrival

/-- A path at its end has no rivals. -/
theorem unrivalled_nil (R : List (List ByteString × α)) (ps : List ByteString) :
    Unrivalled R ps [] := by
  rintro ⟨qs, y⟩ _ hrival
  cases hrival

theorem stepOf_leadSegment {R : List (List ByteString × α)} {st : PatternStep}
    (h : after R st ≠ []) : stepOf (leadSegment R st) = st := by
  obtain ⟨⟨segs, x⟩, hmem⟩ := List.exists_mem_of_ne_nil _ h
  obtain ⟨seg, hst, hr⟩ := mem_after.mp hmem
  have hhead : seg ∈ R.filterMap (fun r => r.1.head?) :=
    List.mem_filterMap.mpr ⟨(seg :: segs, x), hr, rfl⟩
  rw [leadSegment]
  cases hfind : (R.filterMap (fun r => r.1.head?)).find? (fun seg => stepOf seg = st) with
  | none => exact absurd (decide_eq_true hst) (List.find?_eq_none.mp hfind seg hhead)
  | some first =>
      have hfirst := List.find?_some hfind
      rw [decide_eq_true_eq] at hfirst
      exact hfirst

/-! ## What a search without turning back finds -/

/-- Parameters gathered in order: of two segments under one name the last counts. -/
def gather (params : InsertionMap ByteString ByteString)
    (pairs : List (ByteString × ByteString)) : InsertionMap ByteString ByteString :=
  pairs.foldl (fun m pair => m.insert pair.1 pair.2) params

/-- The pairs that count: the last one under each name. -/
def settled : List (ByteString × ByteString) → List (ByteString × ByteString)
  | [] => []
  | pair :: pairs => if pair.1 ∈ pairs.map Prod.fst then settled pairs else pair :: settled pairs

theorem mem_of_mem_settled {pair : ByteString × ByteString} :
    ∀ {pairs : List (ByteString × ByteString)}, pair ∈ settled pairs → pair ∈ pairs := by
  intro pairs
  induction pairs with
  | nil => exact id
  | cons first pairs ih =>
      intro h
      rw [settled] at h
      split at h
      · exact List.mem_cons_of_mem _ (ih h)
      · rcases List.mem_cons.mp h with rfl | h
        · exact List.mem_cons_self ..
        · exact List.mem_cons_of_mem _ (ih h)

theorem get?_gather {name seg : ByteString} :
    ∀ {pairs : List (ByteString × ByteString)} {params : InsertionMap ByteString ByteString},
      (gather params pairs).get? name = some seg ↔
        (name, seg) ∈ settled pairs ∨
          (name ∉ pairs.map Prod.fst ∧ params.get? name = some seg) := by
  intro pairs
  induction pairs with
  | nil => intro params; simp [gather, settled]
  | cons pair pairs ih =>
      intro params
      show (gather (params.insert pair.1 pair.2) pairs).get? name = some seg ↔ _
      rw [ih, InsertionMap.get?_insert, settled, List.map_cons, List.mem_cons, not_or]
      by_cases hname : name = pair.1
      · subst hname
        rw [if_pos rfl]
        by_cases hlater : pair.1 ∈ pairs.map Prod.fst
        · simp [hlater]
        · have hnot : ∀ seg, (pair.1, seg) ∉ settled pairs :=
            fun seg hmem => hlater (List.mem_map.mpr ⟨_, mem_of_mem_settled hmem, rfl⟩)
          simp [hlater, hnot, Prod.ext_iff, eq_comm]
      · rw [if_neg hname]
        split
        · simp [hname]
        · have hne : (name, seg) ≠ pair := fun heq => hname (congrArg Prod.fst heq)
          simp [hname, hne]

/-- `x` is the last registration of a matching pattern that has no rival, and `P` adds the named
    segments to `params`. -/
def Finds (R : List (List ByteString × α)) (params : InsertionMap ByteString ByteString)
    (ss : List ByteString) (x : α) (P : InsertionMap ByteString ByteString) : Prop :=
  ∃ ps, LastOf R ps x ∧ Matches ps ss ∧ Unrivalled R ps ss ∧ P = gather params (named R ps ss)

variable {R : List (List ByteString × α)} {params P : InsertionMap ByteString ByteString}
  {s : ByteString} {ss : List ByteString} {x : α}

/-- A matching pattern without a rival begins with the most specific step there is. -/
theorem step_of_unrivalled {ps : List ByteString} (hmem : (ps, x) ∈ R)
    (hmatch : Matches ps (s :: ss)) (hfree : Unrivalled R ps (s :: ss)) :
    ∃ seg rest, ps = seg :: rest ∧
      ((after R (.literal s) ≠ [] ∧ stepOf seg = .literal s) ∨
        (after R (.literal s) = [] ∧ after R .param ≠ [] ∧ stepOf seg = .param) ∨
        (after R (.literal s) = [] ∧ after R .param = [] ∧ stepOf seg = .rest ∧ rest = [])) := by
  cases hmatch with
  | literal hstep hrest =>
      exact ⟨_, _, rfl, Or.inl ⟨hstep ▸ after_ne_nil hmem, hstep⟩⟩
  | param hstep hrest =>
      obtain ⟨hnow, -⟩ := unrivalled_cons.mp hfree
      refine ⟨_, _, rfl, Or.inr (Or.inl ⟨hnow _ ?_, hstep ▸ after_ne_nil hmem, hstep⟩)⟩
      rw [hstep]
      exact .literal_param
  | rest hstep =>
      obtain ⟨hnow, -⟩ := unrivalled_cons.mp hfree
      refine ⟨_, _, rfl, Or.inr (Or.inr ⟨hnow _ ?_, hnow _ ?_, hstep, rfl⟩)⟩
      · rw [hstep]
        exact .literal_rest
      · rw [hstep]
        exact .param_rest

theorem finds_nil : Finds R params [] x P ↔ LastOf R [] x ∧ P = params := by
  constructor
  · rintro ⟨ps, hlast, hmatch, -, rfl⟩
    cases hmatch
    exact ⟨hlast, rfl⟩
  · rintro ⟨hlast, rfl⟩
    exact ⟨[], hlast, .nil, unrivalled_nil R [], rfl⟩

/-- Where some pattern has the literal segment, only these count. -/
theorem finds_literal (hne : after R (.literal s) ≠ []) :
    Finds R params (s :: ss) x P ↔ Finds (after R (.literal s)) params ss x P := by
  constructor
  · rintro ⟨ps, hlast, hmatch, hfree, rfl⟩
    obtain ⟨seg, rest, rfl, ⟨-, hstep⟩ | ⟨hnil, -⟩ | ⟨hnil, -⟩⟩ :=
      step_of_unrivalled hlast.mem hmatch hfree
    · have hlater := (unrivalled_cons.mp hfree).2
      rw [hstep] at hlater
      refine ⟨rest, lastOf_after.mpr ⟨seg, hstep, hlast⟩,
        hmatch.tail (by rw [hstep]; rintro ⟨⟩), hlater, ?_⟩
      rw [named_cons, hstep]
      rfl
    · exact absurd hnil hne
    · exact absurd hnil hne
  · rintro ⟨ps, hlast, hmatch, hfree, rfl⟩
    obtain ⟨seg, hstep, hlast'⟩ := lastOf_after.mp hlast
    obtain rfl := stepOf_literal hstep
    refine ⟨seg :: ps, hlast', .literal hstep hmatch, unrivalled_cons.mpr ⟨?_, ?_⟩, ?_⟩
    · intro st hrank
      rw [hstep] at hrank
      exact absurd hrank not_outranks_literal
    · rw [hstep]
      exact hfree
    · rw [named_cons, hstep]
      rfl

/-- Else, where some pattern has a parameter, only these count. -/
theorem finds_param (hliteral : after R (.literal s) = []) (hne : after R .param ≠ []) :
    Finds R params (s :: ss) x P ↔
      Finds (after R .param) (params.insert (paramNameOf (leadSegment R .param)) s) ss x P := by
  constructor
  · rintro ⟨ps, hlast, hmatch, hfree, rfl⟩
    obtain ⟨seg, rest, rfl, ⟨hsome, -⟩ | ⟨-, -, hstep⟩ | ⟨-, hnil, -⟩⟩ :=
      step_of_unrivalled hlast.mem hmatch hfree
    · exact absurd hliteral hsome
    · have hlater := (unrivalled_cons.mp hfree).2
      rw [hstep] at hlater
      refine ⟨rest, lastOf_after.mpr ⟨seg, hstep, hlast⟩,
        hmatch.tail (by rw [hstep]; rintro ⟨⟩), hlater, ?_⟩
      rw [named_cons, hstep, if_pos rfl]
      rfl
    · exact absurd hnil hne
  · rintro ⟨ps, hlast, hmatch, hfree, rfl⟩
    obtain ⟨seg, hstep, hlast'⟩ := lastOf_after.mp hlast
    refine ⟨seg :: ps, hlast', .param hstep hmatch, unrivalled_cons.mpr ⟨?_, hstep ▸ hfree⟩, ?_⟩
    · intro st hrank
      rw [hstep] at hrank
      cases hrank
      exact hliteral
    · rw [named_cons, hstep, if_pos rfl]
      rfl

/-- Else only `*` is left, and it takes everything. -/
theorem finds_rest (hliteral : after R (.literal s) = []) (hparam : after R .param = []) :
    Finds R params (s :: ss) x P ↔ LastOf (after R .rest) [] x ∧ P = params := by
  constructor
  · rintro ⟨ps, hlast, hmatch, hfree, rfl⟩
    obtain ⟨seg, rest, rfl, ⟨hne, -⟩ | ⟨-, hne, -⟩ | ⟨-, -, hstep, rfl⟩⟩ :=
      step_of_unrivalled hlast.mem hmatch hfree
    · exact absurd hliteral hne
    · exact absurd hparam hne
    · refine ⟨lastOf_after.mpr ⟨seg, hstep, hlast⟩, ?_⟩
      rw [named_cons, hstep]
      rfl
  · rintro ⟨hlast, rfl⟩
    obtain ⟨seg, hstep, hlast'⟩ := lastOf_after.mp hlast
    refine ⟨[seg], hlast', .rest hstep, unrivalled_cons.mpr ⟨?_, ?_⟩, ?_⟩
    · intro st hrank
      rw [hstep] at hrank
      cases hrank with
      | literal_rest => exact hliteral
      | param_rest => exact hparam
    · rintro ⟨qs, y⟩ _ hrival
      cases hrival
    · rw [named_cons, hstep]
      rfl

end Tables

end VHono
