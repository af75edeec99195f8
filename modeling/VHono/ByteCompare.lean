import VHono.ByteString

/-! # Comparing byte strings, and cutting a text out of them

    The order in which a language compares strings, byte by byte, a beginning
    before what it begins; and the replacement of a text by nothing, which
    shortens every string that the text occurs in. -/

namespace ByteString

/-- `s < t` -/
def precedes : ByteString → ByteString → Bool
  | _, [] => false
  | [], _ :: _ => true
  | a :: s, b :: t => decide (a.toNat < b.toNat) || (decide (a.toNat = b.toNat) && precedes s t)

theorem precedes_cons {a b : UInt8} {s t : ByteString} :
    precedes (a :: s) (b :: t) = true ↔
      a.toNat < b.toNat ∨ (a.toNat = b.toNat ∧ precedes s t = true) := by
  rw [precedes, Bool.or_eq_true, Bool.and_eq_true, decide_eq_true_eq, decide_eq_true_eq]

theorem precedes_irrefl (s : ByteString) : precedes s s = false := by
  induction s with
  | nil => rfl
  | cons a s ih => simp [precedes, ih]

theorem precedes_trans {s t u : ByteString} (hst : precedes s t = true) (htu : precedes t u = true) :
    precedes s u = true := by
  induction s generalizing t u with
  | nil =>
      cases u with
      | nil =>
          cases t with
          | nil => exact htu
          | cons b t => cases htu
      | cons c u => rfl
  | cons a s ih =>
      cases t with
      | nil => cases hst
      | cons b t =>
          cases u with
          | nil => cases htu
          | cons c u =>
              rw [precedes_cons] at hst htu ⊢
              rcases hst with hab | ⟨hab, hst⟩
              · exact Or.inl (by omega)
              · rcases htu with hbc | ⟨hbc, htu⟩
                · exact Or.inl (by omega)
                · exact Or.inr ⟨by omega, ih hst htu⟩

theorem precedes_asymm {s t : ByteString} (h : precedes s t = true) : precedes t s = false := by
  rw [Bool.eq_false_iff]
  intro hback
  exact Bool.false_ne_true ((precedes_irrefl s).symm.trans (precedes_trans h hback))

/-- Of two texts that are not one, one comes first. -/
theorem precedes_or_eq (s t : ByteString) :
    precedes s t = true ∨ s = t ∨ precedes t s = true := by
  induction s generalizing t with
  | nil =>
      cases t with
      | nil => exact .inr (.inl rfl)
      | cons b t => exact .inl rfl
  | cons a s ih =>
      cases t with
      | nil => exact .inr (.inr rfl)
      | cons b t =>
          rcases Nat.lt_trichotomy a.toNat b.toNat with hlt | heq | hgt
          · exact .inl (precedes_cons.mpr (.inl hlt))
          · rcases ih t with hst | rfl | hts
            · exact .inl (precedes_cons.mpr (.inr ⟨heq, hst⟩))
            · exact .inr (.inl (by rw [UInt8.toNat_inj.mp heq]))
            · exact .inr (.inr (precedes_cons.mpr (.inr ⟨heq.symm, hts⟩)))
          · exact .inr (.inr (precedes_cons.mpr (.inl hgt)))

/-- What comes before a beginning comes before the whole. -/
theorem precedes_append {s t : ByteString} (h : precedes s t = true) (u : ByteString) :
    precedes s (t ++ u) = true := by
  induction s generalizing t with
  | nil =>
      cases t with
      | nil => cases h
      | cons b t => rfl
  | cons a s ih =>
      cases t with
      | nil => cases h
      | cons b t =>
          rw [precedes_cons] at h
          rw [List.cons_append, precedes_cons]
          exact h.imp id (fun ⟨hab, hst⟩ => ⟨hab, ih hst⟩)

/-! ## Occurrences -/

theorem containsStr_nil {pat : ByteString} (hpat : pat ≠ []) : containsStr [] pat = false := by
  cases pat with
  | nil => exact absurd rfl hpat
  | cons c pat => rfl

theorem containsStr_cons (b : UInt8) (s pat : ByteString) :
    containsStr (b :: s) pat = (startsWith (b :: s) pat || containsStr s pat) := by
  rw [containsStr, List.tails_cons, List.any_cons]
  rfl

/-- What occurs in a part occurs in the whole. -/
theorem containsStr_of_part {s t pat : ByteString} (hst : s <:+: t)
    (h : containsStr s pat = true) : containsStr t pat = true := by
  obtain ⟨a, c, rfl⟩ := hst
  obtain ⟨tail, htail, hstart⟩ := List.any_eq_true.mp h
  obtain ⟨b, rfl⟩ := (List.mem_tails _ _).mp htail
  refine List.any_eq_true.mpr ⟨tail ++ c, (List.mem_tails _ _).mpr ⟨a ++ b, ?_⟩, ?_⟩
  · simp only [List.append_assoc]
  · exact startsWith_iff.mpr ((startsWith_iff.mp hstart).trans (List.prefix_append _ _))

/-- A text with a byte that is missing does not occur. -/
theorem not_containsStr_of_mem {s pat : ByteString} {b : UInt8} (hpat : b ∈ pat) (hs : b ∉ s) :
    containsStr s pat = false := by
  rw [Bool.eq_false_iff]
  intro h
  obtain ⟨tail, htail, hstart⟩ := List.any_eq_true.mp h
  exact hs (((List.mem_tails _ _).mp htail).subset ((startsWith_iff.mp hstart).subset hpat))

/-- A text without a byte occurs on one side of it. -/
theorem startsWith_sep {c : UInt8} {pat : ByteString} (hc : c ∉ pat) (a b : ByteString) :
    startsWith (a ++ c :: b) pat = startsWith a pat := by
  induction pat generalizing a with
  | nil => rw [startsWith_nil, startsWith_nil]
  | cons d pat ih =>
      obtain ⟨hd, hpat⟩ := not_or.mp (fun h => hc (List.mem_cons.mpr h))
      cases a with
      | nil =>
          show (d == c && _) = false
          rw [beq_eq_false_iff_ne.mpr (fun h => hd h.symm), Bool.false_and]
      | cons x a => exact congrArg (d == x && ·) (ih hpat a)

theorem containsStr_sep {c : UInt8} {pat : ByteString} (hc : c ∉ pat) (hne : pat ≠ [])
    (a b : ByteString) :
    containsStr (a ++ c :: b) pat = (containsStr a pat || containsStr b pat) := by
  induction a with
  | nil =>
      have hstart := startsWith_sep hc [] b
      have hnil : startsWith [] pat = false := by
        cases pat with
        | nil => exact absurd rfl hne
        | cons d pat => rfl
      rw [List.nil_append] at hstart ⊢
      rw [containsStr_cons, hstart, hnil, containsStr_nil hne]
  | cons x a ih =>
      have hstart := startsWith_sep hc (x :: a) b
      rw [List.cons_append] at hstart ⊢
      rw [containsStr_cons, containsStr_cons, hstart, ih, Bool.or_assoc]

/-- A byte in front counts only where the text begins with it. -/
theorem containsStr_cons_ne {b : UInt8} {pat : ByteString} (h : pat.head? ≠ some b)
    (hne : pat ≠ []) (s : ByteString) : containsStr (b :: s) pat = containsStr s pat := by
  cases pat with
  | nil => exact absurd rfl hne
  | cons d pat =>
      have hd : (d == b) = false := beq_eq_false_iff_ne.mpr (fun heq => h (congrArg some heq))
      have hstart : startsWith (b :: s) (d :: pat) = false := by
        show (d == b && _) = false
        rw [hd, Bool.false_and]
      rw [containsStr_cons, hstart, Bool.false_or]

theorem containsStr_iff_within {s pat : ByteString} : containsStr s pat = true ↔ pat <:+: s := by
  constructor
  · intro h
    obtain ⟨tail, htail, hstart⟩ := List.any_eq_true.mp h
    exact (startsWith_iff.mp hstart).isInfix.trans ((List.mem_tails _ _).mp htail).isInfix
  · exact fun h => containsStr_of_part h
      (List.any_eq_true.mpr ⟨pat, (List.mem_tails _ _).mpr (List.suffix_refl _),
        startsWith_iff.mpr (List.prefix_refl _)⟩)

/-- A byte behind counts only where the text ends in it. -/
theorem containsStr_concat_ne {b : UInt8} {pat : ByteString} (h : pat.getLast? ≠ some b)
    (hne : pat ≠ []) (s : ByteString) : containsStr (s ++ [b]) pat = containsStr s pat := by
  rw [Bool.eq_iff_iff, containsStr_iff_within, containsStr_iff_within, List.infix_concat_iff]
  refine ⟨fun hor => hor.resolve_left (fun hsuffix => ?_), Or.inr⟩
  rcases List.suffix_concat_iff.mp hsuffix with rfl | ⟨t, rfl, -⟩
  · exact hne rfl
  · exact h List.getLast?_concat

/-- What ends in bytes that a text does not have. -/
theorem containsStr_append_free {pat : ByteString} (hne : pat ≠ []) (s : ByteString)
    {t : ByteString} (ht : ∀ b ∈ t, b ∉ pat) : containsStr (s ++ t) pat = containsStr s pat := by
  cases t with
  | nil => rw [List.append_nil]
  | cons b t =>
      obtain ⟨c, hc⟩ := List.exists_mem_of_ne_nil pat hne
      have hrest : containsStr t pat = false :=
        not_containsStr_of_mem hc (fun hmem => ht c (List.mem_cons_of_mem _ hmem) hc)
      rw [containsStr_sep (ht b (List.mem_cons_self ..)) hne, hrest, Bool.or_false]

/-- What begins with bytes that a text does not have. -/
theorem containsStr_free_append {pat : ByteString} (hne : pat ≠ []) (s : ByteString) :
    ∀ {t : ByteString}, (∀ b ∈ t, b ∉ pat) → containsStr (t ++ s) pat = containsStr s pat := by
  intro t
  induction t with
  | nil => intro _; rw [List.nil_append]
  | cons b t ih =>
      intro ht
      have hsep := containsStr_sep (ht b (List.mem_cons_self ..)) hne [] (t ++ s)
      rw [List.nil_append] at hsep
      rw [List.cons_append, hsep, containsStr_nil hne, Bool.false_or]
      exact ih (fun c hc => ht c (List.mem_cons_of_mem _ hc))

/-- A text without the byte between some texts occurs in one of them. -/
theorem containsStr_intercalate {c : UInt8} {pat : ByteString} (hc : c ∉ pat) (hne : pat ≠ [])
    (texts : List ByteString) :
    containsStr ([c].intercalate texts) pat = texts.any (containsStr · pat) := by
  induction texts with
  | nil => exact containsStr_nil hne
  | cons t texts ih =>
      cases texts with
      | nil => rw [List.intercalate_singleton, List.any_cons, List.any_nil, Bool.or_false]
      | cons t' texts =>
          rw [List.intercalate_cons_cons, List.append_assoc, List.singleton_append,
            containsStr_sep hc hne, ih]
          rfl

/-! ## Cutting out -/

theorem replaceFrom_skip (pat rep : ByteString) : ∀ (t s : ByteString),
    replaceFrom pat rep t.length (t ++ s) = replaceFrom pat rep 0 s := by
  intro t
  induction t with
  | nil => intro s; rfl
  | cons b t ih => intro s; exact ih s

/-- The text at the beginning is cut out. -/
theorem replaceStr_append {pat : ByteString} (hpat : pat ≠ []) (s : ByteString) :
    replaceStr (pat ++ s) pat [] = replaceStr s pat [] := by
  cases pat with
  | nil => exact absurd rfl hpat
  | cons c pat =>
      have hstart : startsWith (c :: (pat ++ s)) (c :: pat) = true := startsWith_append (c :: pat) s
      show replaceFrom (c :: pat) [] 0 (c :: (pat ++ s)) = _
      rw [replaceFrom, if_pos hstart]
      exact replaceFrom_skip (c :: pat) [] pat s

/-- A byte is replaced wherever it stands. -/
theorem replaceStr_byte (c : UInt8) (rep s : ByteString) :
    replaceStr s [c] rep = s.flatMap (fun b => if b = c then rep else [b]) := by
  rw [replaceStr]
  induction s with
  | nil => rfl
  | cons b s ih =>
      rw [List.flatMap_cons, ← ih, replaceFrom]
      by_cases hb : b = c
      · rw [if_pos (by simp [startsWith, hb]), if_pos hb]
        rfl
      · rw [if_neg (by simp [startsWith, Ne.symm hb]), if_neg hb]
        rfl

theorem length_replaceFrom (pat : ByteString) :
    ∀ (s : ByteString) (skip : Nat), (replaceFrom pat [] skip s).length ≤ s.length := by
  intro s
  induction s with
  | nil => intro skip; cases skip <;> exact Nat.le_refl _
  | cons b s ih =>
      intro skip
      cases skip with
      | succ skip =>
          rw [replaceFrom, List.length_cons]
          exact Nat.le_succ_of_le (ih skip)
      | zero =>
          rw [replaceFrom]
          split
          · rw [List.nil_append, List.length_cons]
            exact Nat.le_succ_of_le (ih _)
          · rw [List.length_cons, List.length_cons]
            exact Nat.succ_le_succ (ih 0)

/-- **CUTTING OUT SHORTENS.**  A string keeps its length only if the text does not occur in it,
    and then it is left as it is. -/
theorem replaceStr_spec {pat : ByteString} (hpat : pat ≠ []) (s : ByteString) :
    (containsStr s pat = false ∧ replaceStr s pat [] = s) ∨
      (containsStr s pat = true ∧ (replaceStr s pat []).length < s.length) := by
  induction s with
  | nil => exact Or.inl ⟨containsStr_nil hpat, rfl⟩
  | cons b s ih =>
      rw [replaceStr, replaceFrom, containsStr_cons]
      by_cases hstart : startsWith (b :: s) pat = true
      · rw [if_pos hstart, hstart]
        exact Or.inr ⟨rfl, Nat.lt_succ_of_le (length_replaceFrom pat s _)⟩
      · rw [if_neg hstart, Bool.eq_false_iff.mpr hstart, Bool.false_or]
        rcases ih with ⟨hnone, hsame⟩ | ⟨hsome, hshort⟩
        · exact Or.inl ⟨hnone, congrArg (b :: ·) hsame⟩
        · exact Or.inr ⟨hsome, Nat.succ_lt_succ hshort⟩

end ByteString
