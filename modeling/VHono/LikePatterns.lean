import VHono.ByteString

/-! # The LIKE operator of SQLite

    A pattern and a text are read as characters, up to a NUL byte.  `%` stands
    for any text and `_` for any character; the letters of ASCII match in
    either case.  A byte that continues no character is one of its own, and
    one that begins none stands for U+FFFD. -/

namespace LikePatterns

open ByteString

/-! ## Characters -/

/-- A byte that goes on with a character. -/
def continues (c : UInt8) : Bool := 128 ≤ c.toNat && c.toNat < 192

/-- The bits of a first byte. -/
def leadBits (c : UInt8) : Nat :=
  if c.toNat < 224 then c.toNat - 192
  else if c.toNat < 240 then c.toNat - 224
  else if c.toNat < 248 then c.toNat - 240
  else if c.toNat < 252 then c.toNat - 248
  else if c.toNat < 254 then c.toNat - 252 else 0

/-- What is not a character, or could have been written shorter than in two bytes. -/
def settle (n : Nat) : Nat :=
  if n < 128 || n / 2048 = 27 || n / 2 = 32767 then 65533 else n

/-- The characters from a place on, where one may have begun. -/
def charsFrom : Option Nat → ByteString → List Nat
  | none, [] => []
  | some n, [] => [settle n]
  | none, c :: s =>
    if c = 0 then []
    else if c.toNat < 192 then c.toNat :: charsFrom none s
    else charsFrom (some (leadBits c)) s
  | some n, c :: s =>
    if continues c then charsFrom (some ((n * 64 + c.toNat % 64) % 2 ^ 32)) s
    else settle n ::
      (if c = 0 then []
      else if c.toNat < 192 then c.toNat :: charsFrom none s
      else charsFrom (some (leadBits c)) s)

def chars (s : ByteString) : List Nat := charsFrom none s

example : chars [195, 169, 37] = [233, 37] := by decide

/-! ## Matching -/

/-- A letter of ASCII in lower case. -/
def fold (c : Nat) : Nat := if 65 ≤ c && c ≤ 90 then c + 32 else c

/-- A character of the pattern stands for one of the text. -/
def fits (c d : Nat) : Bool := c = 95 || fold c = fold d

def isLike : List Nat → List Nat → Bool
  | [], [] => true
  | [], _ :: _ => false
  | c :: p, s =>
    if c = 37 then s.tails.any (isLike p)
    else match s with
      | [] => false
      | d :: s => fits c d && isLike p s

/-- `text LIKE pattern` -/
def like (pattern text : ByteString) : Bool := isLike (chars pattern) (chars text)

theorem fits_self (c : Nat) : fits c c = true := by
  rw [fits, Bool.or_eq_true, decide_eq_true_iff, decide_eq_true_iff]
  exact Or.inr rfl

theorem isLike_any_of_tail {p s t : List Nat} (ht : t <:+ s) (h : isLike p t = true) :
    isLike (37 :: p) s = true := by
  rw [isLike.eq_def]
  dsimp only
  rw [if_pos rfl, List.any_eq_true]
  exact ⟨t, (List.mem_tails t s).mpr ht, h⟩

theorem isLike_cons {c d : Nat} (hfits : fits c d = true) (hany : c ≠ 37) {p s : List Nat}
    (h : isLike p s = true) : isLike (c :: p) (d :: s) = true := by
  show (if c = 37 then _ else (fits c d && isLike p s)) = true
  rw [if_neg hany, hfits, h]
  rfl

/-- A text stands for itself, wildcards included. -/
theorem isLike_append (a : List Nat) {p s : List Nat} (h : isLike p s = true) :
    isLike (a ++ p) (a ++ s) = true := by
  induction a with
  | nil => exact h
  | cons c a ih =>
      by_cases hany : c = 37
      · rw [hany]
        exact isLike_any_of_tail (List.suffix_cons 37 (a ++ s)) ih
      · exact isLike_cons (fits_self c) hany ih

theorem isLike_any (s : List Nat) : isLike [37] s = true :=
  isLike_any_of_tail List.nil_suffix rfl

/-! ## Prefixes of ASCII -/

def IsAscii (s : ByteString) : Prop := ∀ c ∈ s, c ≠ 0 ∧ c.toNat < 128

theorem chars_cons {c : UInt8} (hzero : c ≠ 0) (hc : c.toNat < 128) (s : ByteString) :
    chars (c :: s) = c.toNat :: chars s := by
  rw [chars, charsFrom, if_neg hzero, if_pos (by omega)]
  rfl

theorem chars_append {s : ByteString} (hs : IsAscii s) (t : ByteString) :
    chars (s ++ t) = s.map UInt8.toNat ++ chars t := by
  induction s with
  | nil => rfl
  | cons c s ih =>
      rw [IsAscii, List.forall_mem_cons] at hs
      rw [List.cons_append, chars_cons hs.1.1 hs.1.2, ih hs.2]
      rfl

/-- A text that starts with such a prefix is like the prefix followed by anything. -/
theorem like_of_startsWith {start text : ByteString} (hstart : IsAscii start)
    (h : startsWith text start = true) : like (start ++ ascii "%") text = true := by
  obtain ⟨rest, rfl⟩ := startsWith_iff.mp h
  rw [like, chars_append hstart, chars_append hstart]
  exact isLike_append _ (isLike_any _)

/-- A character that began with a longer byte is none of ASCII. -/
theorem charsFrom_some (s : ByteString) :
    ∀ n, ∃ m rest, charsFrom (some n) s = m :: rest ∧ 128 ≤ m := by
  have hsettle : ∀ n, 128 ≤ settle n := by
    intro n
    rw [settle]
    split
    · decide
    · rename_i h
      simp only [Bool.or_eq_true, decide_eq_true_iff, not_or] at h
      omega
  induction s with
  | nil => exact fun n => ⟨_, _, rfl, hsettle n⟩
  | cons c s ih =>
      intro n
      rw [charsFrom]
      split
      · exact ih _
      · exact ⟨_, _, rfl, hsettle n⟩

/-- The first character of a text, if it is one of ASCII, is its first byte. -/
theorem eq_cons_of_chars {text : ByteString} {c : UInt8} (hc : c.toNat < 128) {rest : List Nat}
    (h : chars text = c.toNat :: rest) : ∃ s, text = c :: s ∧ chars s = rest := by
  cases text with
  | nil => cases h
  | cons b s =>
      rw [chars, charsFrom] at h
      split at h
      · cases h
      · split at h
        · obtain ⟨hb, hrest⟩ := List.cons.inj h
          exact ⟨s, by rw [UInt8.toNat_inj.mp hb], hrest⟩
        · obtain ⟨m, rest', hchars, hm⟩ := charsFrom_some s (leadBits b)
          rw [hchars] at h
          have hmc := (List.cons.inj h).1
          omega

/-- The byte stands for more than itself: a wildcard or a letter. -/
def isLoose (c : UInt8) : Bool :=
  c = byte '%' || c = byte '_' || (65 ≤ c.toNat && c.toNat ≤ 90) || (97 ≤ c.toNat && c.toNat ≤ 122)

theorem eq_of_fits {c : UInt8} (hc : isLoose c = false) {d : Nat} (h : fits c.toNat d = true) :
    d = c.toNat := by
  have hline : c.toNat ≠ 95 := by
    intro heq
    have hbyte : c = byte '_' := UInt8.toNat_inj.mp heq
    rw [hbyte] at hc
    cases hc
  simp only [isLoose, Bool.or_eq_false_iff, Bool.and_eq_false_iff, decide_eq_false_iff_not] at hc
  simp only [fits, fold, Bool.or_eq_true, decide_eq_true_iff, Bool.and_eq_true] at h
  rcases h with h | h
  · exact absurd h hline
  · split at h <;> split at h <;> omega

/-- A prefix without wildcards and letters matches only what starts with it. -/
theorem startsWith_of_like {start : ByteString} (hstart : IsAscii start)
    (hloose : ∀ c ∈ start, isLoose c = false) : ∀ {text : ByteString},
      like (start ++ ascii "%") text = true → startsWith text start = true := by
  induction start with
  | nil => intro text _; exact startsWith_nil text
  | cons c start ih =>
      intro text h
      rw [IsAscii, List.forall_mem_cons] at hstart
      rw [List.forall_mem_cons] at hloose
      have hany : c.toNat ≠ 37 := by
        intro heq
        have hbyte : c = byte '%' := UInt8.toNat_inj.mp heq
        rw [hbyte] at hloose
        cases hloose.1
      rw [like, List.cons_append, chars_cons hstart.1.1 hstart.1.2, isLike.eq_def] at h
      dsimp only at h
      rw [if_neg hany] at h
      cases htext : chars text with
      | nil => rw [htext] at h; cases h
      | cons d rest =>
          rw [htext, Bool.and_eq_true] at h
          rw [eq_of_fits hloose.1 h.1] at htext
          obtain ⟨s, rfl, hs⟩ := eq_cons_of_chars hstart.1.2 htext
          rw [← hs] at h
          have hrest := startsWith_iff.mp (ih hstart.2 hloose.2 h.2)
          exact startsWith_iff.mpr ((List.prefix_cons_inj c).mpr hrest)

/-- Another byte that such a byte stands for. -/
def other (c : UInt8) : UInt8 :=
  if c = byte '_' then byte '-' else if c.toNat ≤ 90 then c + 32 else c - 32

theorem other_spec {c : UInt8} (hc : isLoose c = true) (hany : c ≠ byte '%') :
    other c ≠ c ∧ other c ≠ 0 ∧ (other c).toNat < 128 ∧ fits c.toNat (other c).toNat = true := by
  simp only [isLoose, Bool.or_eq_true, Bool.and_eq_true, decide_eq_true_iff] at hc
  rw [other]
  by_cases hline : c = byte '_'
  · rw [if_pos hline, hline]
    decide
  · have hletter : (65 ≤ c.toNat ∧ c.toNat ≤ 90) ∨ (97 ≤ c.toNat ∧ c.toNat ≤ 122) := by
      rcases hc with ((hc | hc) | hc) | hc
      · exact absurd hc hany
      · exact absurd hc hline
      · exact Or.inl hc
      · exact Or.inr hc
    have hplace : (if c.toNat ≤ 90 then c + 32 else c - 32).toNat
        = if c.toNat ≤ 90 then c.toNat + 32 else c.toNat - 32 := by
      split
      · rw [UInt8.toNat_add]
        exact Nat.mod_eq_of_lt (by simp; omega)
      · rw [UInt8.toNat_sub_of_le _ _ (UInt8.le_iff_toNat_le.mpr (by simp; omega))]
        rfl
    rw [if_neg hline]
    refine ⟨fun heq => ?_, fun heq => ?_, ?_, ?_⟩
    · rw [heq] at hplace
      split at hplace <;> omega
    · rw [heq] at hplace
      have hzero : (0 : UInt8).toNat = 0 := rfl
      split at hplace <;> omega
    · rw [hplace]
      split <;> omega
    · rw [hplace, fits, Bool.or_eq_true, decide_eq_true_iff, decide_eq_true_iff]
      refine Or.inr ?_
      simp only [fold, Bool.and_eq_true, decide_eq_true_iff]
      split <;> split <;> split <;> omega

/-- **WHICH PREFIXES LIKE TELLS EXACTLY**: among those of ASCII the ones without wildcards and
    letters. -/
theorem like_exact_iff {start : ByteString} (hstart : IsAscii start) :
    (∀ text, like (start ++ ascii "%") text = true ↔ startsWith text start = true) ↔
      ∀ c ∈ start, isLoose c = false := by
  constructor
  · intro h c hc
    by_contra hloose
    rw [Bool.not_eq_false] at hloose
    obtain ⟨a, b, rfl⟩ := List.append_of_mem hc
    rw [IsAscii, List.forall_mem_append, List.forall_mem_cons] at hstart
    obtain ⟨ha, hcc, hb⟩ := hstart
    have hpattern : chars ((a ++ c :: b) ++ ascii "%")
        = a.map UInt8.toNat ++ c.toNat :: (b.map UInt8.toNat ++ [37]) := by
      rw [List.append_assoc, chars_append ha, List.cons_append, chars_cons hcc.1 hcc.2,
        chars_append hb]
      rfl
    have hrest : isLike (b.map UInt8.toNat ++ [37]) (b.map UInt8.toNat ++ []) = true :=
      isLike_append _ (isLike_any [])
    by_cases hany : c = byte '%'
    · -- the wildcard stands for nothing
      have hlike : like ((a ++ c :: b) ++ ascii "%") (a ++ b ++ []) = true := by
        rw [like, hpattern, hany, List.append_assoc, chars_append ha, chars_append hb]
        exact isLike_append _ (isLike_any_of_tail (List.suffix_refl _) hrest)
      have hlength := (startsWith_iff.mp ((h _).mp hlike)).length_le
      simp at hlength
    · obtain ⟨hne, hzero, hascii, hfits⟩ := other_spec hloose hany
      have hlike : like ((a ++ c :: b) ++ ascii "%") (a ++ other c :: (b ++ [])) = true := by
        rw [like, hpattern, chars_append ha, chars_cons hzero hascii, chars_append hb]
        exact isLike_append _ (isLike_cons hfits (fun heq => hany (UInt8.toNat_inj.mp heq)) hrest)
      have hpre := startsWith_iff.mp ((h _).mp hlike)
      rw [List.prefix_append_right_inj, List.append_nil] at hpre
      exact hne (List.cons_prefix_cons.mp hpre).1.symm
  · intro h text
    exact ⟨startsWith_of_like hstart h, like_of_startsWith hstart⟩

/-! ## Words -/

/-- Characters that stand for themselves, and for no other but a capital letter. -/
def IsPlain (w : List Nat) : Prop := ∀ c ∈ w, c ≠ 37 ∧ c ≠ 95 ∧ fold c = c

theorem fits_iff {c d : Nat} (hany : c ≠ 95) (hfold : fold c = c) :
    fits c d = true ↔ c = fold d := by
  rw [fits, Bool.or_eq_true, decide_eq_true_iff, decide_eq_true_iff, hfold]
  exact ⟨fun h => h.resolve_left hany, Or.inr⟩

/-- A word, followed by anything. -/
theorem isLike_word {w : List Nat} (hw : IsPlain w) : ∀ s : List Nat,
    isLike (w ++ [37]) s = true ↔ w <+: s.map fold := by
  induction w with
  | nil => exact fun s => iff_of_true (isLike_any s) List.nil_prefix
  | cons c w ih =>
      rw [IsPlain, List.forall_mem_cons] at hw
      obtain ⟨⟨hany, hone, hfold⟩, hw⟩ := hw
      intro s
      cases s with
      | nil =>
          rw [List.cons_append, isLike, if_neg hany]
          exact iff_of_false Bool.false_ne_true (fun h => absurd (List.prefix_nil.mp h) (by simp))
      | cons d s =>
          rw [List.cons_append, isLike, if_neg hany, Bool.and_eq_true, fits_iff hone hfold, ih hw,
            List.map_cons, List.cons_prefix_cons]

/-- A word between two of anything. -/
theorem isLike_within {w : List Nat} (hw : IsPlain w) (s : List Nat) :
    isLike (37 :: (w ++ [37])) s = true ↔ w <:+: s.map fold := by
  rw [isLike.eq_def]
  dsimp only
  rw [if_pos rfl, List.any_eq_true, List.infix_iff_prefix_suffix]
  constructor
  · rintro ⟨t, ht, hlike⟩
    exact ⟨t.map fold, (isLike_word hw t).mp hlike, ((List.mem_tails t s).mp ht).map fold⟩
  · rintro ⟨t, hprefix, hsuffix⟩
    obtain ⟨t, ht, rfl⟩ := List.suffix_map_iff.mp hsuffix
    exact ⟨t, (List.mem_tails t s).mpr ht, (isLike_word hw t).mpr hprefix⟩

end LikePatterns
