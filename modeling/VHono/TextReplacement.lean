import VHono.ByteCompare

/-! # Replacing in parts of a text

    A pattern without the byte that separates the parts of a text is replaced in
    each part on its own.  A pattern that begins with a byte is looked for only
    where that byte stands. -/

namespace ByteString

/-- A text in which the pattern does not occur is left as it is. -/
theorem replaceStr_free {pat s : ByteString} (rep : ByteString) (h : containsStr s pat = false) :
    replaceStr s pat rep = s := by
  induction s with
  | nil => rfl
  | cons b s ih =>
      rw [containsStr_cons, Bool.or_eq_false_iff] at h
      rw [replaceStr, replaceFrom, if_neg (Bool.eq_false_iff.mp h.1)]
      exact congrArg (b :: ·) (ih h.2)

/-- Only bytes of the text and of what is put in are left. -/
theorem mem_replaceFrom {pat rep : ByteString} {b : UInt8} :
    ∀ {skip : Nat} {s : ByteString}, b ∈ replaceFrom pat rep skip s → b ∈ s ∨ b ∈ rep := by
  intro skip s
  induction s generalizing skip with
  | nil => exact fun h => by cases skip <;> cases h
  | cons c s ih =>
      intro h
      cases skip with
      | succ skip => exact (ih h).imp_left (List.mem_cons_of_mem c)
      | zero =>
          rw [replaceFrom] at h
          split at h
          · rcases List.mem_append.mp h with hrep | hrest
            · exact .inr hrep
            · exact (ih hrest).imp_left (List.mem_cons_of_mem c)
          · rcases List.mem_cons.mp h with rfl | hrest
            · exact .inl (List.mem_cons_self ..)
            · exact (ih hrest).imp_left (List.mem_cons_of_mem c)

theorem replaceFrom_sep {c : UInt8} {pat : ByteString} (hc : c ∉ pat) (hne : pat ≠ [])
    (rep b : ByteString) (a : ByteString) :
    ∀ skip, skip ≤ a.length → replaceFrom pat rep skip (a ++ c :: b)
      = replaceFrom pat rep skip a ++ c :: replaceFrom pat rep 0 b := by
  induction a with
  | nil =>
      intro skip hskip
      obtain rfl : skip = 0 := Nat.le_zero.mp hskip
      have hnil : startsWith [] pat = false := by
        cases pat with
        | nil => exact absurd rfl hne
        | cons d pat => rfl
      have hstart : startsWith (c :: b) pat = false := (startsWith_sep hc [] b).trans hnil
      show replaceFrom pat rep 0 (c :: b) = c :: replaceFrom pat rep 0 b
      rw [replaceFrom, if_neg (Bool.eq_false_iff.mp hstart)]
  | cons x a ih =>
      intro skip hskip
      cases skip with
      | succ skip => exact ih skip (Nat.le_of_succ_le_succ hskip)
      | zero =>
          have hsame := startsWith_sep hc (x :: a) b
          rw [List.cons_append] at hsame ⊢
          rw [replaceFrom, replaceFrom, hsame]
          by_cases hstart : startsWith (x :: a) pat = true
          · -- the pattern found lies within the part
            have hlen := (startsWith_iff.mp hstart).length_le
            rw [List.length_cons] at hlen
            rw [if_pos hstart, if_pos hstart, ih _ (by omega), List.append_assoc]
          · rw [if_neg hstart, if_neg hstart, ih 0 (Nat.zero_le _)]
            rfl

theorem replaceStr_sep {c : UInt8} {pat : ByteString} (hc : c ∉ pat) (hne : pat ≠ [])
    (rep a b : ByteString) :
    replaceStr (a ++ c :: b) pat rep = replaceStr a pat rep ++ c :: replaceStr b pat rep :=
  replaceFrom_sep hc hne rep b a 0 (Nat.zero_le _)

/-- **PART BY PART**: what is joined by a byte that the pattern does not have. -/
theorem replaceStr_intercalate {c : UInt8} {pat : ByteString} (hc : c ∉ pat) (hne : pat ≠ [])
    (rep : ByteString) (parts : List ByteString) :
    replaceStr ([c].intercalate parts) pat rep
      = [c].intercalate (parts.map (replaceStr · pat rep)) := by
  induction parts with
  | nil => rfl
  | cons part parts ih =>
      cases parts with
      | nil =>
          rw [List.map_cons, List.map_nil, List.intercalate_singleton, List.intercalate_singleton]
      | cons second parts =>
          rw [List.map_cons, List.map_cons, List.intercalate_cons_cons, List.intercalate_cons_cons,
            List.append_assoc, List.singleton_append, replaceStr_sep hc hne, ih, List.map_cons,
            List.append_assoc, List.singleton_append]

/-- A pattern that begins with a byte is found at the only place where that byte stands, if the
    rest of it comes next. -/
theorem replaceStr_headed {c : UInt8} {name text : ByteString} (hc : c ∉ text) (rep : ByteString) :
    replaceStr (c :: text) (c :: name) rep
      = if startsWith text name = true then rep ++ text.drop name.length else c :: text := by
  have hfree : ∀ s, c ∉ s → replaceStr s (c :: name) rep = s := fun s hs =>
    replaceStr_free rep (not_containsStr_of_mem (List.mem_cons_self ..) hs)
  have hstart : startsWith (c :: text) (c :: name) = startsWith text name := by
    show (c == c && startsWith text name) = _
    rw [beq_self_eq_true, Bool.true_and]
  rw [replaceStr, replaceFrom, hstart]
  split
  · rename_i hname
    obtain ⟨rest, rfl⟩ := startsWith_iff.mp hname
    have hskip := replaceFrom_skip (c :: name) rep name rest
    rw [List.length_cons, Nat.add_sub_cancel, hskip, List.drop_left]
    exact congrArg (rep ++ ·) (hfree rest (fun h => hc (List.mem_append_right _ h)))
  · exact congrArg (c :: ·) (hfree text hc)

end ByteString
