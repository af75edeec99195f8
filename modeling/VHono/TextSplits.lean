import VHono.ByteCompare
import VHono.ByteScan

/-! # Pieces of a text

    What splitting a text at a separator says of the pieces: joined by the
    separator they are the text again, each is a part of it and holds no
    separator, and the first is what stands before the first separator. -/

namespace ByteString

theorem splitFrom_cons_start {b : UInt8} {s sep : ByteString} (h : startsWith (b :: s) sep = true) :
    splitFrom sep 0 (b :: s) = [] :: splitFrom sep (sep.length - 1) s := by
  rw [splitFrom, if_pos h]

theorem splitFrom_ne_nil (sep : ByteString) :
    ∀ (s : ByteString) (skip : Nat), splitFrom sep skip s ≠ [] := by
  intro s
  induction s with
  | nil => intro skip; cases skip <;> exact List.cons_ne_nil _ _
  | cons b s ih =>
      intro skip
      cases skip with
      | succ skip => exact ih skip
      | zero =>
          rw [splitFrom]
          split
          · exact List.cons_ne_nil _ _
          · split <;> exact List.cons_ne_nil _ _

theorem splitFrom_cons_other {b : UInt8} {s sep : ByteString}
    (h : startsWith (b :: s) sep = false) :
    ∃ piece pieces, splitFrom sep 0 s = piece :: pieces ∧
      splitFrom sep 0 (b :: s) = (b :: piece) :: pieces := by
  obtain ⟨piece, pieces, hpieces⟩ := List.exists_cons_of_ne_nil (splitFrom_ne_nil sep s 0)
  refine ⟨piece, pieces, hpieces, ?_⟩
  rw [splitFrom, if_neg (Bool.eq_false_iff.mp h), hpieces]

/-- The first piece begins the text. -/
theorem splitFrom_head_prefix {sep : ByteString} :
    ∀ {s piece : ByteString} {pieces : List ByteString},
      splitFrom sep 0 s = piece :: pieces → piece <+: s := by
  intro s
  induction s with
  | nil =>
      intro piece pieces h
      exact (List.cons.inj h).1 ▸ List.prefix_refl []
  | cons b s ih =>
      intro piece pieces h
      cases hstart : startsWith (b :: s) sep with
      | true =>
          rw [splitFrom_cons_start hstart] at h
          exact (List.cons.inj h).1 ▸ List.nil_prefix
      | false =>
          obtain ⟨first, rest, hs, hbs⟩ := splitFrom_cons_other hstart
          rw [hbs] at h
          exact (List.cons.inj h).1 ▸ List.cons_prefix_cons.mpr ⟨rfl, ih hs⟩

/-- No piece holds the separator. -/
theorem splitFrom_piece_free {sep : ByteString} (hsep : sep ≠ []) :
    ∀ (s : ByteString) (skip : Nat),
      ∀ piece ∈ splitFrom sep skip s, containsStr piece sep = false := by
  intro s
  induction s with
  | nil =>
      intro skip piece hpiece
      have hnil : piece = [] := by cases skip <;> exact List.mem_singleton.mp hpiece
      rw [hnil, containsStr_nil hsep]
  | cons b s ih =>
      intro skip piece hpiece
      cases skip with
      | succ skip => exact ih skip piece hpiece
      | zero =>
          cases hstart : startsWith (b :: s) sep with
          | true =>
              rw [splitFrom_cons_start hstart] at hpiece
              rcases List.mem_cons.mp hpiece with rfl | hpiece
              · exact containsStr_nil hsep
              · exact ih _ piece hpiece
          | false =>
              obtain ⟨first, rest, hs, hbs⟩ := splitFrom_cons_other hstart
              rw [hbs] at hpiece
              rcases List.mem_cons.mp hpiece with rfl | hpiece
              · have hbegin : startsWith (b :: first) sep = false := by
                  rw [Bool.eq_false_iff] at hstart ⊢
                  intro hfirst
                  exact hstart (startsWith_iff.mpr ((startsWith_iff.mp hfirst).trans
                    (List.cons_prefix_cons.mpr ⟨rfl, splitFrom_head_prefix hs⟩)))
                rw [containsStr_cons, hbegin, Bool.false_or]
                exact ih 0 first (hs ▸ List.mem_cons_self ..)
              · exact ih 0 piece (hs ▸ List.mem_cons_of_mem _ hpiece)

theorem splitStr_piece_free {s sep piece : ByteString} (hsep : sep ≠ [])
    (hpiece : piece ∈ splitStr s sep) : containsStr piece sep = false :=
  splitFrom_piece_free hsep s 0 piece hpiece

/-- Joined again, the pieces are the text. -/
theorem intercalate_splitFrom {sep : ByteString} (hsep : sep ≠ []) :
    ∀ (s : ByteString) (skip : Nat), sep.intercalate (splitFrom sep skip s) = s.drop skip := by
  intro s
  induction s with
  | nil => intro skip; cases skip <;> rfl
  | cons b s ih =>
      intro skip
      cases skip with
      | succ skip => exact ih skip
      | zero =>
          cases hstart : startsWith (b :: s) sep with
          | true =>
              obtain ⟨first, rest, hrest⟩ :=
                List.exists_cons_of_ne_nil (splitFrom_ne_nil sep s (sep.length - 1))
              obtain ⟨t, ht⟩ := startsWith_iff.mp hstart
              have htail : s.drop (sep.length - 1) = t := by
                cases sep with
                | nil => exact absurd rfl hsep
                | cons c sep =>
                    rw [← (List.cons.inj ht).2]
                    exact List.drop_left
              rw [splitFrom_cons_start hstart, hrest, List.intercalate_cons_cons, ← hrest, ih,
                htail, List.nil_append]
              exact ht
          | false =>
              obtain ⟨first, rest, hs, hbs⟩ := splitFrom_cons_other hstart
              have hjoin := ih 0
              rw [hs] at hjoin
              rw [hbs, List.drop_zero]
              cases rest with
              | nil =>
                  rw [List.intercalate_singleton] at hjoin ⊢
                  exact congrArg (b :: ·) hjoin
              | cons second rest =>
                  rw [List.intercalate_cons_cons] at hjoin ⊢
                  exact congrArg (b :: ·) hjoin

theorem intercalate_splitStr {sep : ByteString} (hsep : sep ≠ []) (s : ByteString) :
    sep.intercalate (splitStr s sep) = s := intercalate_splitFrom hsep s 0

theorem infix_intercalate (sep : ByteString) {piece : ByteString} {pieces : List ByteString}
    (h : piece ∈ pieces) : piece <:+: sep.intercalate pieces := by
  induction pieces with
  | nil => cases h
  | cons first rest ih =>
      cases rest with
      | nil =>
          rw [List.intercalate_singleton, List.mem_singleton.mp h]
      | cons second rest =>
          rw [List.intercalate_cons_cons]
          rcases List.mem_cons.mp h with rfl | h
          · exact ⟨[], sep ++ sep.intercalate (second :: rest), by simp⟩
          · exact (ih h).trans (List.suffix_append _ _).isInfix

theorem splitStr_piece_within {s sep piece : ByteString} (hsep : sep ≠ [])
    (hpiece : piece ∈ splitStr s sep) : piece <:+: s := by
  have hwithin : piece <:+: sep.intercalate (splitStr s sep) := infix_intercalate sep hpiece
  rwa [intercalate_splitStr hsep] at hwithin

/-- The pieces after the first, joined again, are a part of the text. -/
theorem splitStr_tail_within {s sep : ByteString} (hsep : sep ≠ []) :
    sep.intercalate (splitStr s sep).tail <:+: s := by
  have hjoin := intercalate_splitStr hsep s
  cases hpieces : splitStr s sep with
  | nil => exact ⟨s, [], by simp⟩
  | cons first rest =>
      rw [hpieces] at hjoin
      cases rest with
      | nil => exact ⟨s, [], by simp⟩
      | cons second rest =>
          rw [List.intercalate_cons_cons] at hjoin
          rw [← hjoin]
          exact (List.suffix_append _ _).isInfix

/-! ## Walking to the first separator -/

theorem splitStr_step {b : UInt8} {s sep piece : ByteString} {pieces : List ByteString}
    (h : startsWith (b :: s) sep = false) (hs : splitStr s sep = piece :: pieces) :
    splitStr (b :: s) sep = (b :: piece) :: pieces := by
  rw [splitStr] at hs
  rw [splitStr, splitFrom, if_neg (Bool.eq_false_iff.mp h), hs]

/-- Bytes other than the separator's first go to the first piece. -/
theorem splitStr_plain {c : UInt8} {sep m s piece : ByteString} {pieces : List ByteString}
    (hm : c ∉ m) (hs : splitStr s (c :: sep) = piece :: pieces) :
    splitStr (m ++ s) (c :: sep) = (m ++ piece) :: pieces := by
  induction m with
  | nil => exact hs
  | cons b m ih =>
      obtain ⟨hb, hm⟩ := not_or.mp (fun h => hm (List.mem_cons.mpr h))
      refine splitStr_step ?_ (ih hm)
      show (c == b && _) = false
      rw [beq_eq_false_iff_ne.mpr hb, Bool.false_and]

/-- A separator begins a piece. -/
theorem splitStr_sep {sep : ByteString} (hsep : sep ≠ []) (s : ByteString) :
    splitStr (sep ++ s) sep = [] :: splitStr s sep := by
  cases sep with
  | nil => exact absurd rfl hsep
  | cons c sep => exact splitFrom_append (m := []) (List.not_mem_nil)

/-! ## The first piece -/

/-- A text before which no separator starts is the first piece. -/
theorem splitStr_first {sep m s : ByteString} (hsep : sep ≠ [])
    (h : ∀ t, t ≠ [] → t <:+ m → startsWith (t ++ (sep ++ s)) sep = false) :
    splitStr (m ++ (sep ++ s)) sep = m :: splitStr s sep := by
  induction m with
  | nil => exact splitStr_sep hsep s
  | cons b m ih =>
      have hrest := ih (fun t ht hsuffix => h t ht (hsuffix.trans (List.suffix_cons b m)))
      have hstart : startsWith (b :: (m ++ (sep ++ s))) sep = false :=
        h (b :: m) (List.cons_ne_nil _ _) (List.suffix_refl _)
      exact splitStr_step hstart hrest

/-- A text without the separator, cut off by a byte the separator does not have. -/
theorem splitStr_first_sep {c : UInt8} {sep m : ByteString} (hc : c ∉ sep) (hsep : sep ≠ [])
    (hm : containsStr m sep = false) (s : ByteString) :
    splitStr (m ++ [c] ++ (sep ++ s)) sep = (m ++ [c]) :: splitStr s sep := by
  refine splitStr_first hsep ?_
  intro t ht hsuffix
  rcases List.suffix_concat_iff.mp hsuffix with rfl | ⟨t', rfl, hsuffix'⟩
  · exact absurd rfl ht
  · rw [List.append_assoc, List.singleton_append, startsWith_sep hc, Bool.eq_false_iff]
    intro hstart
    rw [containsStr_of_part hsuffix'.isInfix (containsStr_iff_within.mpr
      (startsWith_iff.mp hstart).isInfix)] at hm
    exact Bool.noConfusion hm

theorem splitStr_free {sep s : ByteString} (h : containsStr s sep = false) :
    splitStr s sep = [s] := by
  induction s with
  | nil => rfl
  | cons b s ih =>
      rw [containsStr_cons, Bool.or_eq_false_iff] at h
      exact splitStr_step h.1 (ih h.2)

/-! ## Searches and blanks -/

/-- A search succeeds exactly if the pattern occurs. -/
theorem indexOf_isSome (pat s : ByteString) : (indexOf pat s).isSome = containsStr s pat := by
  induction s with
  | nil => cases pat <;> rfl
  | cons b s ih =>
      cases hstart : startsWith (b :: s) pat with
      | true => rw [indexOf_here hstart, containsStr_cons, hstart]; rfl
      | false =>
          rw [indexOf_skip hstart, Option.isSome_map, ih, containsStr_cons, hstart, Bool.false_or]

theorem slice_within (s : ByteString) (i e : Nat) : slice s i e <:+: s :=
  (List.drop_suffix i _).isInfix.trans (List.take_prefix e s).isInfix

theorem dropWhile_concat {test : UInt8 → Bool} {c : UInt8} (hc : test c = false)
    (s : ByteString) : ∃ t, (s ++ [c]).dropWhile test = t ++ [c] := by
  induction s with
  | nil => exact ⟨[], List.dropWhile_cons_of_neg (by simp [hc])⟩
  | cons b s ih =>
      obtain ⟨t, ht⟩ := ih
      cases hb : test b with
      | true => exact ⟨t, (List.dropWhile_cons_of_pos hb).trans ht⟩
      | false => exact ⟨b :: s, List.dropWhile_cons_of_neg (by simp [hb])⟩

/-- Trimming keeps the first byte that is no blank. -/
theorem trimSpace_head {before s : ByteString} {c : UInt8}
    (hbefore : ∀ b ∈ before, isSpace b = true) (hc : isSpace c = false) :
    ∃ t, trimSpace (before ++ c :: s) = c :: t := by
  obtain ⟨t, ht⟩ := dropWhile_concat hc s.reverse
  refine ⟨t.reverse, ?_⟩
  rw [trimSpace, dropWhile_all hbefore, List.dropWhile_cons_of_neg (by simp [hc]),
    List.reverse_cons, ht, List.reverse_append]
  rfl

theorem intercalate_ne_nil {sep : ByteString} {texts : List ByteString} (hne : texts ≠ [])
    (h : ∀ t ∈ texts, t ≠ []) : sep.intercalate texts ≠ [] := by
  cases texts with
  | nil => exact absurd rfl hne
  | cons t texts =>
      have ht : t ≠ [] := h t (List.mem_cons_self ..)
      cases texts with
      | nil => rwa [List.intercalate_singleton]
      | cons t' texts =>
          rw [List.intercalate_cons_cons]
          exact List.append_ne_nil_of_left_ne_nil (List.append_ne_nil_of_left_ne_nil ht _) _

/-- Texts without the byte, joined by it, are the pieces again. -/
theorem splitStr_intercalate {c : UInt8} : ∀ {texts : List ByteString}, texts ≠ [] →
    (∀ t ∈ texts, c ∉ t) → splitStr ([c].intercalate texts) [c] = texts := by
  intro texts
  induction texts with
  | nil => exact fun hne => absurd rfl hne
  | cons t texts ih =>
      intro _ hfree
      have ht : c ∉ t := hfree t (List.mem_cons_self ..)
      cases texts with
      | nil =>
          have hsplit : splitStr (t ++ []) [c] = [t ++ []] := splitStr_plain ht rfl
          rw [List.append_nil] at hsplit
          rw [List.intercalate_singleton, hsplit]
      | cons t' texts =>
          have hrest := ih (List.cons_ne_nil _ _)
            (fun u hu => hfree u (List.mem_cons_of_mem _ hu))
          have hsep := splitStr_sep (List.cons_ne_nil c []) ([c].intercalate (t' :: texts))
          rw [hrest] at hsep
          rw [List.intercalate_cons_cons, List.append_assoc, splitStr_plain ht hsep,
            List.append_nil]

end ByteString
