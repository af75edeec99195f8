import VHono.ByteCompare
import VHono.ByteScan
import VHono.PathTexts

/-! # Runs of slashes

    Doubled slashes are replaced by one for as long as there are any.  Each pass
    shortens the text, so the loop ends, and what it ends with is the text in
    which every slash behind another is left out. -/

namespace SlashRuns

open ByteString PathSegments

/-- One pass of the loop. -/
def collapse (s : ByteString) : ByteString := replaceStr s (ascii "//") (ascii "/")

/-- `for s.contains('//') { s = s.replace('//', '/') }`, unless it takes more passes. -/
def collapseLoop : Nat → ByteString → Option ByteString
  | 0, _ => none
  | passes + 1, s =>
    if containsStr s (ascii "//") = true then collapseLoop passes (collapse s) else some s

/-- The text that the loop ends with. -/
def collapseSlashes (s : ByteString) : ByteString := (collapseLoop (s.length + 1) s).getD []

/-- The slashes behind another are left out. -/
def oneSlash : ByteString → ByteString
  | [] => []
  | b :: s => if b = byte '/' ∧ s.head? = some (byte '/') then oneSlash s else b :: oneSlash s

/-! ## One pass -/

theorem doubled_iff {b : UInt8} {s : ByteString} : startsWith (b :: s) (ascii "//") = true ↔
    b = byte '/' ∧ s.head? = some (byte '/') := by
  have htext : ascii "//" = [byte '/', byte '/'] := rfl
  rw [htext, startsWith_cons, Bool.and_eq_true, beq_iff_eq, eq_comm]
  refine and_congr_right (fun _ => ?_)
  cases s with
  | nil => exact iff_of_false (fun h => by cases h) (fun h => by cases h)
  | cons c s =>
      rw [startsWith_cons, startsWith_nil, Bool.and_true, beq_iff_eq, List.head?_cons,
        Option.some.injEq, eq_comm]

theorem collapse_doubled (s : ByteString) :
    collapse (byte '/' :: byte '/' :: s) = byte '/' :: collapse s := by
  rw [collapse, replaceStr, replaceFrom, if_pos (doubled_iff.mpr ⟨rfl, rfl⟩)]
  rfl

theorem collapse_other {b : UInt8} {s : ByteString}
    (h : ¬(b = byte '/' ∧ s.head? = some (byte '/'))) : collapse (b :: s) = b :: collapse s := by
  rw [collapse, replaceStr, replaceFrom, if_neg (fun hstart => h (doubled_iff.mp hstart))]
  rfl

/-- A text is empty, begins with two slashes, or with a byte that stays. -/
theorem collapse_induction {P : ByteString → Prop} (nil : P [])
    (doubled : ∀ s, P s → P (byte '/' :: byte '/' :: s))
    (other : ∀ b s, ¬(b = byte '/' ∧ s.head? = some (byte '/')) → P s → P (b :: s)) :
    ∀ s, P s := by
  intro s
  induction hlength : s.length using Nat.strong_induction_on generalizing s with
  | _ n ih =>
      cases s with
      | nil => exact nil
      | cons b s =>
          rw [List.length_cons] at hlength
          by_cases h : b = byte '/' ∧ s.head? = some (byte '/')
          · obtain ⟨rfl, hhead⟩ := h
            cases s with
            | nil => cases hhead
            | cons c s =>
                obtain rfl : c = byte '/' := Option.some.inj hhead
                rw [List.length_cons] at hlength
                exact doubled s (ih s.length (by omega) s rfl)
          · exact other b s h (ih s.length (by omega) s rfl)

theorem head?_collapse (s : ByteString) : (collapse s).head? = s.head? := by
  cases s with
  | nil => rfl
  | cons b s =>
      by_cases h : b = byte '/' ∧ s.head? = some (byte '/')
      · obtain ⟨rfl, hhead⟩ := h
        cases s with
        | nil => cases hhead
        | cons c s =>
            obtain rfl : c = byte '/' := Option.some.inj hhead
            rw [collapse_doubled]
            rfl
      · rw [collapse_other h]
        rfl

theorem length_collapse_le (s : ByteString) : (collapse s).length ≤ s.length := by
  induction s using collapse_induction with
  | nil => exact Nat.le_refl _
  | doubled s ih =>
      rw [collapse_doubled, List.length_cons, List.length_cons, List.length_cons]
      omega
  | other b s h ih =>
      rw [collapse_other h, List.length_cons, List.length_cons]
      omega

/-- **A PASS** shortens a text with doubled slashes. -/
theorem length_collapse_lt {s : ByteString} (h : containsStr s (ascii "//") = true) :
    (collapse s).length < s.length := by
  induction s using collapse_induction with
  | nil => exact absurd h (by decide)
  | doubled s ih =>
      have hle := length_collapse_le s
      rw [collapse_doubled, List.length_cons, List.length_cons, List.length_cons]
      omega
  | other b s hother ih =>
      rw [containsStr_cons, Bool.or_eq_true, doubled_iff, or_iff_right hother] at h
      rw [collapse_other hother, List.length_cons, List.length_cons]
      exact Nat.succ_lt_succ (ih h)

/-! ## The text without doubled slashes -/

theorem oneSlash_doubled {b : UInt8} {s : ByteString}
    (h : b = byte '/' ∧ s.head? = some (byte '/')) : oneSlash (b :: s) = oneSlash s := by
  rw [oneSlash, if_pos h]

theorem oneSlash_other {b : UInt8} {s : ByteString}
    (h : ¬(b = byte '/' ∧ s.head? = some (byte '/'))) : oneSlash (b :: s) = b :: oneSlash s := by
  rw [oneSlash, if_neg h]

theorem oneSlash_collapse (s : ByteString) : oneSlash (collapse s) = oneSlash s := by
  induction s using collapse_induction with
  | nil => rfl
  | doubled s ih =>
      rw [collapse_doubled, oneSlash_doubled (⟨rfl, rfl⟩ : _ ∧ (byte '/' :: s).head? = _), oneSlash,
        oneSlash, head?_collapse, ih]
  | other b s h ih => rw [collapse_other h, oneSlash, oneSlash, head?_collapse, ih]

theorem oneSlash_of_free {s : ByteString} (h : containsStr s (ascii "//") = false) :
    oneSlash s = s := by
  induction s with
  | nil => rfl
  | cons b s ih =>
      rw [containsStr_cons, Bool.or_eq_false_iff] at h
      have hother : ¬(b = byte '/' ∧ s.head? = some (byte '/')) := by
        intro hdoubled
        rw [doubled_iff.mpr hdoubled] at h
        cases h.1
      rw [oneSlash, if_neg hother, ih h.2]

theorem head?_oneSlash (s : ByteString) : (oneSlash s).head? = s.head? := by
  induction s with
  | nil => rfl
  | cons b s ih =>
      rw [oneSlash]
      split
      · rename_i h
        rw [ih, h.2, h.1]
        rfl
      · rfl

theorem oneSlash_free (s : ByteString) : containsStr (oneSlash s) (ascii "//") = false := by
  induction s with
  | nil => rfl
  | cons b s ih =>
      rw [oneSlash]
      split
      · exact ih
      · rename_i h
        rw [containsStr_cons, ih, Bool.or_false, Bool.eq_false_iff, ne_eq, doubled_iff,
          head?_oneSlash]
        exact h

/-- **THE LOOP ENDS**, with the text without doubled slashes. -/
theorem collapseLoop_eq {passes : Nat} :
    ∀ {s : ByteString}, s.length < passes → collapseLoop passes s = some (oneSlash s) := by
  induction passes with
  | zero => intro s h; exact absurd h (Nat.not_lt_zero _)
  | succ passes ih =>
      intro s h
      rw [collapseLoop]
      split
      · rename_i hcontains
        have hshorter := length_collapse_lt hcontains
        rw [ih (by omega), oneSlash_collapse]
      · rename_i hfree
        rw [oneSlash_of_free (Bool.eq_false_iff.mpr hfree)]

theorem collapseSlashes_eq (s : ByteString) : collapseSlashes s = oneSlash s := by
  rw [collapseSlashes, collapseLoop_eq (Nat.lt_succ_self _), Option.getD_some]

theorem length_oneSlash_le (s : ByteString) : (oneSlash s).length ≤ s.length := by
  induction s with
  | nil => exact Nat.le_refl _
  | cons b s ih =>
      rw [oneSlash]
      split
      · rw [List.length_cons]
        omega
      · rw [List.length_cons, List.length_cons]
        omega

theorem mem_oneSlash {s : ByteString} {b : UInt8} (h : b ∈ oneSlash s) : b ∈ s := by
  induction s with
  | nil => exact h
  | cons c s ih =>
      rw [oneSlash] at h
      split at h
      · exact List.mem_cons_of_mem _ (ih h)
      · rcases List.mem_cons.mp h with rfl | hmem
        · exact List.mem_cons_self ..
        · exact List.mem_cons_of_mem _ (ih hmem)

/-- Slashes at the end become one. -/
theorem oneSlash_append_slashes {s slashes : ByteString} (hs : s.getLast? ≠ some (byte '/'))
    (hne : slashes ≠ []) (h : ∀ b ∈ slashes, b = byte '/') :
    oneSlash (s ++ slashes) = oneSlash s ++ ascii "/" := by
  induction s with
  | nil =>
      rw [List.nil_append]
      -- behind nothing, each slash but the last is followed by another
      induction slashes with
      | nil => exact absurd rfl hne
      | cons b slashes ih =>
          obtain rfl := h b (List.mem_cons_self ..)
          cases slashes with
          | nil => rfl
          | cons c slashes =>
              obtain rfl := h c (List.mem_cons_of_mem _ (List.mem_cons_self ..))
              rw [oneSlash_doubled ⟨rfl, rfl⟩]
              exact ih (List.cons_ne_nil _ _) (fun b hb => h b (List.mem_cons_of_mem _ hb))
  | cons b s ih =>
      cases s with
      | nil =>
          have hb : b ≠ byte '/' := fun heq => hs (congrArg some heq)
          have hother : ∀ t : ByteString, ¬(b = byte '/' ∧ t.head? = some (byte '/')) :=
            fun t h => hb h.1
          have hnil := ih (fun hlast => by cases hlast)
          rw [List.nil_append] at hnil
          rw [List.singleton_append, oneSlash_other (hother _), hnil, oneSlash_other (hother _)]
          rfl
      | cons c s =>
          have hrest := ih (by rwa [List.getLast?_cons_cons] at hs)
          have hhead : (c :: s ++ slashes).head? = (c :: s).head? := rfl
          rw [List.cons_append]
          by_cases hdoubled : b = byte '/' ∧ (c :: s).head? = some (byte '/')
          · rw [oneSlash_doubled hdoubled, oneSlash_doubled (hhead ▸ hdoubled), hrest]
          · rw [oneSlash_other hdoubled, oneSlash_other (hhead ▸ hdoubled), hrest]
            rfl

theorem getLast?_oneSlash {s : ByteString} : (oneSlash s).getLast? = s.getLast? := by
  induction s with
  | nil => rfl
  | cons b s ih =>
      cases s with
      | nil =>
          rw [oneSlash, if_neg (fun h => by cases h.2)]
          rfl
      | cons c s =>
          rw [oneSlash, List.getLast?_cons_cons]
          split
          · exact ih
          · have hne : oneSlash (c :: s) ≠ [] := by
              intro hnil
              have hhead := head?_oneSlash (c :: s)
              rw [hnil] at hhead
              cases hhead
            rw [List.getLast?_cons_of_ne_nil hne]
            exact ih

end SlashRuns
