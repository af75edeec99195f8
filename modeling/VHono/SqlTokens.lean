import VHono.SqlLiterals

/-! # Words, strings and numbers

    What a byte can do to what has been read; from it, what is lexed as a word
    is one, and a string costs the quotes that it is written with.  A word and
    a number are read back if nothing that continues them follows. -/

namespace SqliteLexer

open ByteString

/-! ## What a byte does -/

/-- A token that is neither a word nor a string. -/
def Token.isPlain : Token → Bool
  | .word _ => false
  | .string _ => false
  | _ => true

/-- A state that holds the beginning of neither. -/
def State.isPlain : State → Bool
  | .word _ => false
  | .hexLetter _ => false
  | .quoted _ _ => false
  | .closing _ _ => false
  | _ => true

def Plain (r : List Token × State) : Prop := (∀ t ∈ r.1, t.isPlain = true) ∧ r.2.isPlain = true

theorem plain_quiet {q : State} (h : q.isPlain = true) : Plain ([], q) := ⟨List.forall_mem_nil _, h⟩

theorem plain_emit {t : Token} (h : t.isPlain = true) : Plain ([t], .start) :=
  ⟨List.forall_mem_singleton.mpr h, rfl⟩

/-- What the first byte of a token leads to. -/
inductive Opens (c : UInt8) : List Token × State → Prop
  | plain {r : List Token × State} (h : Plain r) : Opens c r
  | word (h : isLetter c = true) : Opens c ([], .word [c])
  | hexLetter (h : isLetter c = true) : Opens c ([], .hexLetter c)
  | quoted (h : isQuote c = true) : Opens c ([], .quoted c [])

theorem begin_opens (c : UInt8) : Opens c (begin c) := by
  have hquiet : ∀ q : State, q.isPlain = true → Opens c ([], q) := fun q h => .plain (plain_quiet h)
  rw [begin]
  refine iteInduction (fun _ => hquiet _ rfl) (fun _ => ?_)
  refine iteInduction (fun hquote => .quoted hquote) (fun _ => ?_)
  iterate 3 refine iteInduction (fun _ => hquiet _ rfl) (fun _ => ?_)
  refine iteInduction (fun hx => .hexLetter ?_) (fun _ => ?_)
  · rw [Bool.or_eq_true, decide_eq_true_iff, decide_eq_true_iff] at hx
    rcases hx with rfl | rfl <;> rfl
  refine iteInduction (fun hletter => .word hletter) (fun _ => ?_)
  iterate 10 refine iteInduction (fun _ => hquiet _ rfl) (fun _ => ?_)
  exact iteInduction (fun _ => .plain (plain_emit rfl)) (fun _ => .plain (plain_emit rfl))

/-- What a byte does to a state. -/
inductive Moves : State → UInt8 → List Token × State → Prop
  | plain {q : State} {c : UInt8} {r : List Token × State} (h : Plain r) : Moves q c r
  | ended {q : State} {c : UInt8} : Moves q c (finish q, .ended)
  | next {q : State} {c : UInt8} {ts : List Token} {r : List Token × State}
      (h : ∀ t ∈ ts, t.isPlain = true ∨ t ∈ finish q) (hr : Opens c r) : Moves q c (ts ++ r.1, r.2)
  | word {acc : ByteString} {c : UInt8} (h : isWordByte c = true) :
      Moves (.word acc) c ([], .word (acc ++ [c]))
  | hexLetter {letter c : UInt8} (h : isWordByte c = true) :
      Moves (.hexLetter letter) c ([], .word [letter, c])
  | quoted {quote c : UInt8} {acc : ByteString} (h : c ≠ quote) :
      Moves (.quoted quote acc) c ([], .quoted quote (acc ++ [c]))
  | closing {quote : UInt8} {acc : ByteString} : Moves (.quoted quote acc) quote ([], .closing quote acc)
  | doubled {quote : UInt8} {acc : ByteString} :
      Moves (.closing quote acc) quote ([], .quoted quote (acc ++ [quote]))

theorem moves_quiet {q q' : State} {c : UInt8} (h : q'.isPlain = true) : Moves q c ([], q') :=
  .plain (plain_quiet h)

theorem moves_emit {q : State} {c : UInt8} {t : Token} (h : t.isPlain = true) :
    Moves q c ([t], .start) :=
  .plain (plain_emit h)

theorem close_moves (q : State) (c : UInt8) : Moves q c (close q c) :=
  .next (fun _ ht => .inr ht) (begin_opens c)

theorem stepMinus_moves (q : State) (c : UInt8) (t : Token) (ht : t.isPlain = true) :
    Moves q c (t :: (stepMinus c).1, (stepMinus c).2) := by
  rw [stepMinus]
  split
  · exact .plain ⟨List.forall_mem_singleton.mpr ht, rfl⟩
  · split
    · exact .plain ⟨List.forall_mem_singleton.mpr ht, rfl⟩
    · show Moves q c ([t, .op (ascii "-")] ++ (begin c).1, (begin c).2)
      refine .next ?_ (begin_opens c)
      rw [List.forall_mem_cons, List.forall_mem_singleton]
      exact ⟨.inl ht, .inl rfl⟩

theorem stepByte_moves (q : State) (c : UInt8) : Moves q c (stepByte q c) := by
  have hclose := close_moves q c
  cases q with
  | start =>
      show Moves .start c ([] ++ (begin c).1, (begin c).2)
      exact .next (List.forall_mem_nil _) (begin_opens c)
  | word acc => exact iteInduction (fun h => .word h) (fun _ => hclose)
  | hexLetter letter =>
      refine iteInduction (fun _ => moves_quiet rfl) (fun _ => ?_)
      exact iteInduction (fun h => .hexLetter h) (fun _ => hclose)
  | blob acc =>
      refine iteInduction (fun _ => moves_quiet rfl) (fun _ => ?_)
      refine iteInduction (fun _ => moves_emit ?_) (fun _ => moves_quiet rfl)
      split <;> rfl
  | badBlob acc => exact iteInduction (fun _ => moves_emit rfl) (fun _ => moves_quiet rfl)
  | dot => exact iteInduction (fun _ => moves_quiet rfl) (fun _ => hclose)
  | number acc phase =>
      rw [stepByte]
      split
      · exact moves_quiet rfl
      · exact iteInduction (fun _ => moves_quiet rfl) (fun _ => hclose)
  | sign acc sign =>
      refine iteInduction (fun _ => moves_quiet rfl) (fun _ => ?_)
      exact iteInduction (fun _ => stepMinus_moves _ c _ rfl) (fun _ => hclose)
  | quoted quote acc =>
      refine iteInduction (fun h => ?_) (fun h => .quoted h)
      rw [h]
      exact .closing
  | closing quote acc =>
      refine iteInduction (fun h => ?_) (fun _ => hclose)
      rw [h]
      exact .doubled
  | bracket acc => exact iteInduction (fun _ => moves_emit rfl) (fun _ => moves_quiet rfl)
  | minus =>
      refine iteInduction (fun _ => moves_quiet rfl) (fun _ => ?_)
      exact iteInduction (fun _ => moves_quiet rfl) (fun _ => hclose)
  | arrow => exact iteInduction (fun _ => moves_emit rfl) (fun _ => hclose)
  | lineComment => exact iteInduction (fun _ => moves_quiet rfl) (fun _ => moves_quiet rfl)
  | slash => exact iteInduction (fun _ => moves_quiet rfl) (fun _ => hclose)
  | blockOpen => exact iteInduction (fun _ => moves_quiet rfl) (fun _ => moves_quiet rfl)
  | blockComment => exact iteInduction (fun _ => moves_quiet rfl) (fun _ => moves_quiet rfl)
  | blockStar =>
      refine iteInduction (fun _ => moves_quiet rfl) (fun _ => ?_)
      exact iteInduction (fun _ => moves_quiet rfl) (fun _ => moves_quiet rfl)
  | less => exact iteInduction (fun _ => moves_emit rfl) (fun _ => hclose)
  | greater => exact iteInduction (fun _ => moves_emit rfl) (fun _ => hclose)
  | equal => exact iteInduction (fun _ => moves_emit rfl) (fun _ => hclose)
  | bang => exact iteInduction (fun _ => moves_emit rfl) (fun _ => hclose)
  | pipe => exact iteInduction (fun _ => moves_emit rfl) (fun _ => hclose)
  | question acc => exact iteInduction (fun _ => moves_quiet rfl) (fun _ => hclose)
  | parameter acc => exact iteInduction (fun _ => moves_quiet rfl) (fun _ => hclose)
  | ended => exact moves_quiet rfl

theorem step_moves (q : State) (c : UInt8) : Moves q c (step q c) :=
  iteInduction (fun _ => .ended) (fun _ => stepByte_moves q c)

theorem finish_cases (q : State) :
    (∀ t ∈ finish q, t.isPlain = true) ∨ (∃ acc, q = .word acc ∧ finish q = [.word acc]) ∨
      (∃ letter, q = .hexLetter letter ∧ finish q = [.word [letter]]) ∨
      ∃ acc, q = .closing (byte '\'') acc ∧ finish q = [.string acc] := by
  cases q with
  | word acc => exact .inr (.inl ⟨acc, rfl, rfl⟩)
  | hexLetter letter => exact .inr (.inr (.inl ⟨letter, rfl, rfl⟩))
  | closing quote acc =>
      by_cases h : quote = byte '\''
      · exact .inr (.inr (.inr ⟨acc, by rw [h], by rw [h]; rfl⟩))
      · refine .inl (List.forall_mem_singleton.mpr ?_)
        rw [literal, if_neg h]
        rfl
  | number acc phase =>
      refine .inl ?_
      rw [finish]
      split <;> exact List.forall_mem_singleton.mpr rfl
  | parameter acc =>
      refine .inl ?_
      rw [finish]
      split <;> exact List.forall_mem_singleton.mpr rfl
  | sign acc sign =>
      refine .inl ?_
      rw [finish, List.forall_mem_cons, List.forall_mem_singleton]
      exact ⟨rfl, rfl⟩
  | blockOpen =>
      refine .inl ?_
      rw [finish, List.forall_mem_cons, List.forall_mem_singleton]
      exact ⟨rfl, rfl⟩
  | start => exact .inl (List.forall_mem_nil _)
  | lineComment => exact .inl (List.forall_mem_nil _)
  | blockComment => exact .inl (List.forall_mem_nil _)
  | blockStar => exact .inl (List.forall_mem_nil _)
  | ended => exact .inl (List.forall_mem_nil _)
  | _ => exact .inl (List.forall_mem_singleton.mpr rfl)

/-! ## Words -/

/-- A text that is one word. -/
def IsWord (text : ByteString) : Prop :=
  ∃ b rest, text = b :: rest ∧ isLetter b = true ∧ ∀ c ∈ rest, isWordByte c = true

theorem IsWord.append {text : ByteString} (h : IsWord text) {c : UInt8} (hc : isWordByte c = true) :
    IsWord (text ++ [c]) := by
  obtain ⟨b, rest, rfl, hb, hrest⟩ := h
  refine ⟨b, rest ++ [c], rfl, hb, ?_⟩
  intro d hd
  rcases List.mem_append.mp hd with hmem | hlast
  · exact hrest d hmem
  · rw [List.mem_singleton.mp hlast]
    exact hc

theorem isWord_singleton {b : UInt8} (h : isLetter b = true) : IsWord [b] :=
  ⟨b, [], rfl, h, List.forall_mem_nil _⟩

/-- The state holds a word if it holds the beginning of one. -/
def State.Worded : State → Prop
  | .word acc => IsWord acc
  | .hexLetter letter => isLetter letter = true
  | _ => True

/-- What is called a word is one. -/
def Worded (ts : List Token) : Prop := ∀ text, .word text ∈ ts → IsWord text

theorem State.worded_of_isPlain {q : State} (h : q.isPlain = true) : q.Worded := by
  cases q with
  | word acc => cases h
  | hexLetter letter => cases h
  | _ => trivial

theorem worded_of_plain {r : List Token × State} (h : Plain r) : Worded r.1 ∧ r.2.Worded := by
  refine ⟨fun text hmem => ?_, State.worded_of_isPlain h.2⟩
  exact nomatch h.1 _ hmem

theorem worded_append {ts ts' : List Token} (h : Worded ts) (h' : Worded ts') : Worded (ts ++ ts') :=
  fun text hmem => (List.mem_append.mp hmem).elim (h text) (h' text)

theorem worded_finish {q : State} (h : q.Worded) : Worded (finish q) := by
  intro text hmem
  rcases finish_cases q with hplain | ⟨acc, rfl, hfinish⟩ | ⟨letter, rfl, hfinish⟩ | ⟨acc, -, hfinish⟩
  · exact nomatch hplain _ hmem
  · rw [hfinish] at hmem
    rw [Token.word.inj (List.mem_singleton.mp hmem)]
    exact h
  · rw [hfinish] at hmem
    rw [Token.word.inj (List.mem_singleton.mp hmem)]
    exact isWord_singleton h
  · rw [hfinish] at hmem
    exact nomatch List.mem_singleton.mp hmem

theorem worded_opens {c : UInt8} {r : List Token × State} (h : Opens c r) :
    Worded r.1 ∧ r.2.Worded := by
  cases h with
  | plain h => exact worded_of_plain h
  | word h => exact ⟨nofun, isWord_singleton h⟩
  | hexLetter h => exact ⟨nofun, h⟩
  | quoted h => exact ⟨nofun, trivial⟩

theorem worded_moves {q : State} {c : UInt8} {r : List Token × State} (h : Moves q c r)
    (hq : q.Worded) : Worded r.1 ∧ r.2.Worded := by
  cases h with
  | plain h => exact worded_of_plain h
  | ended => exact ⟨worded_finish hq, trivial⟩
  | next h hr =>
      refine ⟨worded_append ?_ (worded_opens hr).1, (worded_opens hr).2⟩
      intro text hmem
      rcases h _ hmem with hplain | hfinish
      · cases hplain
      · exact worded_finish hq text hfinish
  | word h => exact ⟨nofun, IsWord.append hq h⟩
  | hexLetter h => exact ⟨nofun, IsWord.append (isWord_singleton hq) h⟩
  | quoted h => exact ⟨nofun, trivial⟩
  | closing => exact ⟨nofun, trivial⟩
  | doubled => exact ⟨nofun, trivial⟩

theorem worded_lexFrom (s : ByteString) : ∀ q : State, q.Worded → Worded (lexFrom q s) := by
  induction s with
  | nil => exact fun q hq => worded_finish hq
  | cons c s ih =>
      intro q hq
      have hstep := worded_moves (step_moves q c) hq
      exact worded_append hstep.1 (ih _ hstep.2)

/-- **WHAT IS LEXED AS A WORD IS ONE.** -/
theorem isWord_of_lex {text s : ByteString} (h : .word text ∈ lex s) : IsWord text :=
  worded_lexFrom s .start trivial text h

theorem not_zero_of_isWordByte {c : UInt8} (h : isWordByte c = true) : c ≠ 0 := by
  rintro rfl
  cases h

theorem lexFrom_word {rest : ByteString} (h : ∀ c ∈ rest, isWordByte c = true) (r : ByteString) :
    ∀ acc, lexFrom (.word acc) (rest ++ r) = lexFrom (.word (acc ++ rest)) r := by
  induction rest with
  | nil => intro acc; rw [List.append_nil]; rfl
  | cons c rest ih =>
      intro acc
      rw [List.forall_mem_cons] at h
      have hstep : step (.word acc) c = ([], .word (acc ++ [c])) := by
        rw [step, if_neg (not_zero_of_isWordByte h.1), stepByte, if_pos h.1]
      rw [List.cons_append, lexFrom, hstep, List.nil_append, ih h.2, List.append_assoc]
      rfl

theorem begin_letter {b : UInt8} (h : isLetter b = true) :
    begin b = ([], .word [b]) ∨ begin b = ([], .hexLetter b) := by
  have hne : ∀ d : UInt8, isLetter d = false → b ≠ d := by
    rintro d hd rfl
    rw [h] at hd
    cases hd
  have hspace : ¬ isSpace b = true := by
    simp [isSpace, hne 9 rfl, hne 10 rfl, hne 12 rfl, hne 13 rfl, hne 32 rfl]
  have hquote : ¬ isQuote b = true := by
    simp [isQuote, hne (byte '\'') rfl, hne (byte '"') rfl, hne 96 rfl]
  have hdigit : ¬ isDigitByte b = true := by
    intro hdigit
    rw [isDigitByte, Bool.and_eq_true, decide_eq_true_iff, decide_eq_true_iff,
      UInt8.le_iff_toNat_le, UInt8.le_iff_toNat_le] at hdigit
    have hlow : (byte '0').toNat = 48 := rfl
    have hhigh : (byte '9').toNat = 57 := rfl
    simp only [isLetter, Bool.or_eq_true, Bool.and_eq_true, decide_eq_true_iff] at h
    rcases h with ((h | h) | rfl) | h
    · omega
    · omega
    · exact absurd hdigit.2 (by decide)
    · omega
  rw [begin, if_neg hspace, if_neg hquote, if_neg (hne (byte '[') rfl), if_neg (hne (byte '0') rfl),
    if_neg hdigit]
  by_cases hx : (decide (b = byte 'x') || decide (b = byte 'X')) = true
  · rw [if_pos hx]
    exact Or.inr rfl
  · rw [if_neg hx, if_pos h]
    exact Or.inl rfl

theorem lex_word {text r : ByteString} (h : IsWord text) (hr : Sealed r) :
    lex (text ++ r) = .word text :: lex r := by
  obtain ⟨b, rest, rfl, hb, hrest⟩ := h
  have hword : isWordByte b = true := by
    rw [isWordByte, hb]
    rfl
  have hstart : step .start b = begin b := by
    rw [step, if_neg (not_zero_of_isWordByte hword), stepByte]
  rw [lex, List.cons_append, lexFrom, hstart]
  rcases begin_letter hb with hbegin | hbegin
  · rw [hbegin, List.nil_append, lexFrom_word hrest, lexFrom_sealed (closable_word _) hr]
    rfl
  · rw [hbegin, List.nil_append]
    cases rest with
    | nil =>
        rw [List.nil_append, lexFrom_sealed (closable_hexLetter b) hr]
        rfl
    | cons c rest =>
        rw [List.forall_mem_cons] at hrest
        have hquote : c ≠ byte '\'' := by
          rintro rfl
          exact Bool.false_ne_true hrest.1
        have hstep : step (.hexLetter b) c = ([], .word [b, c]) := by
          rw [step, if_neg (not_zero_of_isWordByte hrest.1), stepByte, if_neg hquote, if_pos hrest.1]
        rw [List.cons_append, lexFrom, hstep, List.nil_append, lexFrom_word hrest.2,
          lexFrom_sealed (closable_word _) hr]
        rfl

/-! ## Strings -/

/-- The quotes that have been read for a string that is not finished. -/
def owed : State → Nat
  | .quoted quote acc => if quote = byte '\'' then 1 + 2 * acc.count quote else 0
  | .closing quote acc => if quote = byte '\'' then 2 + 2 * acc.count quote else 0
  | _ => 0

/-- For each string `n` quotes have been read. -/
def PaidBy (n : Nat) (ts : List Token) : Prop :=
  ∀ text, .string text ∈ ts → 2 + 2 * text.count (byte '\'') ≤ n

theorem owed_of_isPlain {q : State} (h : q.isPlain = true) : owed q = 0 := by
  cases q with
  | quoted quote acc => cases h
  | closing quote acc => cases h
  | _ => rfl

theorem paid_of_plain {r : List Token × State} (h : Plain r) (n m : Nat) :
    PaidBy n r.1 ∧ owed r.2 ≤ m := by
  refine ⟨fun text hmem => ?_, ?_⟩
  · exact nomatch h.1 _ hmem
  · rw [owed_of_isPlain h.2]
    exact Nat.zero_le m

theorem paid_finish (q : State) : PaidBy (owed q) (finish q) := by
  intro text hmem
  rcases finish_cases q with hplain | ⟨acc, -, hfinish⟩ | ⟨letter, -, hfinish⟩ | ⟨acc, rfl, hfinish⟩
  · exact nomatch hplain _ hmem
  · rw [hfinish] at hmem
    exact nomatch List.mem_singleton.mp hmem
  · rw [hfinish] at hmem
    exact nomatch List.mem_singleton.mp hmem
  · rw [hfinish] at hmem
    rw [Token.string.inj (List.mem_singleton.mp hmem), owed, if_pos rfl]

theorem paid_opens {c : UInt8} {r : List Token × State} (h : Opens c r) (n : Nat) :
    PaidBy n r.1 ∧ owed r.2 ≤ [c].count (byte '\'') := by
  cases h with
  | plain h => exact paid_of_plain h _ _
  | word h => exact ⟨nofun, Nat.zero_le _⟩
  | hexLetter h => exact ⟨nofun, Nat.zero_le _⟩
  | quoted h =>
      refine ⟨nofun, ?_⟩
      rw [owed]
      split
      · rename_i hquote
        rw [hquote]
        exact Nat.le_refl _
      · exact Nat.zero_le _

theorem paid_moves {q : State} {c : UInt8} {r : List Token × State} (h : Moves q c r) :
    PaidBy (owed q) r.1 ∧ owed r.2 ≤ owed q + [c].count (byte '\'') := by
  cases h with
  | plain h => exact paid_of_plain h _ _
  | ended => exact ⟨paid_finish q, Nat.zero_le _⟩
  | next h hr =>
      refine ⟨?_, Nat.le_trans (paid_opens hr 0).2 (Nat.le_add_left _ _)⟩
      intro text hmem
      rcases List.mem_append.mp hmem with hts | hopen
      · rcases h _ hts with hplain | hfinish
        · cases hplain
        · exact paid_finish q text hfinish
      · exact (paid_opens hr _).1 text hopen
  | word h => exact ⟨nofun, Nat.zero_le _⟩
  | hexLetter h => exact ⟨nofun, Nat.zero_le _⟩
  | quoted h =>
      refine ⟨nofun, ?_⟩
      rw [owed, owed]
      split
      · rename_i hquote
        rw [hquote, List.count_append]
        rw [hquote] at h
        have hcount : [c].count (byte '\'') = 0 := List.count_eq_zero.mpr (by simpa using Ne.symm h)
        omega
      · exact Nat.zero_le _
  | closing =>
      refine ⟨nofun, ?_⟩
      rw [owed, owed]
      split
      · rename_i hquote
        rw [hquote, List.count_singleton_self]
        omega
      · exact Nat.zero_le _
  | doubled =>
      refine ⟨nofun, ?_⟩
      rw [owed, owed]
      split
      · rename_i hquote
        rw [hquote, List.count_append, List.count_singleton_self]
        omega
      · exact Nat.zero_le _

theorem paid_lexFrom (s : ByteString) :
    ∀ q : State, PaidBy (owed q + s.count (byte '\'')) (lexFrom q s) := by
  induction s with
  | nil => exact fun q => paid_finish q
  | cons c s ih =>
      intro q text hmem
      have hstep := paid_moves (step_moves q c)
      have hcount : (c :: s).count (byte '\'') = [c].count (byte '\'') + s.count (byte '\'') := by
        rw [← List.count_append]
        rfl
      rcases List.mem_append.mp hmem with hnow | hlater
      · have := hstep.1 text hnow
        omega
      · have := ih _ text hlater
        omega

/-- **A STRING COSTS ITS QUOTES**: the two around it, and two for each in it. -/
theorem count_of_lex {text s : ByteString} (h : .string text ∈ lex s) :
    2 + 2 * text.count (byte '\'') ≤ s.count (byte '\'') := by
  have hpaid := paid_lexFrom s .start text h
  rw [owed_of_isPlain rfl, Nat.zero_add] at hpaid
  exact hpaid

/-! ## Numbers -/

/-- The tokens of a number. -/
def signed (n : Int) : List Token :=
  if 0 ≤ n then [.number (decimal n.toNat)] else [.op (ascii "-"), .number (decimal n.natAbs)]

theorem numberStep_digit {c : UInt8} (h : isDigitByte c = true) {phase : Phase}
    (hphase : phase = .zero ∨ phase = .whole) : numberStep phase c = some .whole := by
  have hx : c ≠ byte 'x' := by
    rintro rfl
    cases h
  have hX : c ≠ byte 'X' := by
    rintro rfl
    cases h
  rcases hphase with rfl | rfl
  · simp [numberStep, h, hx, hX]
  · simp [numberStep, h]

theorem not_zero_of_isDigitByte {c : UInt8} (h : isDigitByte c = true) : c ≠ 0 := by
  rintro rfl
  cases h

theorem lexFrom_digits {digits : ByteString} (h : ∀ c ∈ digits, isDigitByte c = true)
    {r : ByteString} (hr : Sealed r) : ∀ (acc : ByteString) (phase : Phase),
      phase = .zero ∨ phase = .whole →
        lexFrom (.number acc phase) (digits ++ r) = .number (acc ++ digits) :: lex r := by
  induction digits with
  | nil =>
      intro acc phase hphase
      rw [List.nil_append, lexFrom_sealed (closable_number acc phase) hr, List.append_nil]
      rcases hphase with rfl | rfl <;> rfl
  | cons c digits ih =>
      intro acc phase hphase
      rw [List.forall_mem_cons] at h
      have hstep : step (.number acc phase) c = ([], .number (acc ++ [c]) .whole) := by
        rw [step, if_neg (not_zero_of_isDigitByte h.1), stepByte, numberStep_digit h.1 hphase]
      rw [List.cons_append, lexFrom, hstep, List.nil_append, ih h.2 _ _ (.inr rfl), List.append_assoc]
      rfl

theorem begin_digit {c : UInt8} (h : isDigitByte c = true) :
    ∃ phase, begin c = ([], .number [c] phase) ∧ (phase = .zero ∨ phase = .whole) := by
  have hne : ∀ d : UInt8, isDigitByte d = false → c ≠ d := by
    rintro d hd rfl
    rw [h] at hd
    cases hd
  have hspace : ¬ isSpace c = true := by
    simp [isSpace, hne 9 rfl, hne 10 rfl, hne 12 rfl, hne 13 rfl, hne 32 rfl]
  have hquote : ¬ isQuote c = true := by
    simp [isQuote, hne (byte '\'') rfl, hne (byte '"') rfl, hne 96 rfl]
  rw [begin, if_neg hspace, if_neg hquote, if_neg (hne (byte '[') rfl)]
  by_cases hzero : c = byte '0'
  · rw [if_pos hzero]
    exact ⟨.zero, rfl, .inl rfl⟩
  · rw [if_neg hzero, if_pos h]
    exact ⟨.whole, rfl, .inr rfl⟩

theorem lexFrom_decimal {q : State} (n : Nat) (ts : List Token)
    (hq : ∀ c, isDigitByte c = true → step q c = (ts ++ (begin c).1, (begin c).2)) {r : ByteString}
    (hr : Sealed r) : lexFrom q (decimal n ++ r) = ts ++ .number (decimal n) :: lex r := by
  have hdigits : ∀ c ∈ decimal n, isDigitByte c = true := fun c hc => isDigitByte_of_mem_decimal hc
  cases hn : decimal n with
  | nil => exact absurd hn (decimal_ne_nil n)
  | cons c digits =>
      rw [hn, List.forall_mem_cons] at hdigits
      obtain ⟨phase, hbegin, hphase⟩ := begin_digit hdigits.1
      rw [List.cons_append, lexFrom, hq c hdigits.1, hbegin, List.append_nil,
        lexFrom_digits hdigits.2 hr _ _ hphase]
      rfl

/-- **A NUMBER IS READ BACK.** -/
theorem lex_intStr (n : Int) {r : ByteString} (hr : Sealed r) :
    lex (intStr n ++ r) = signed n ++ lex r := by
  by_cases hn : 0 ≤ n
  · rw [intStr, if_pos hn, signed, if_pos hn, lex]
    refine lexFrom_decimal n.toNat [] (fun c hc => ?_) hr
    rw [step, if_neg (not_zero_of_isDigitByte hc)]
    rfl
  · rw [intStr, if_neg hn, signed, if_neg hn, List.cons_append, lex, lexFrom]
    show lexFrom .minus (decimal n.natAbs ++ r) = [.op (ascii "-")] ++ .number (decimal n.natAbs) :: lex r
    refine lexFrom_decimal n.natAbs _ (fun c hc => ?_) hr
    have hminus : c ≠ byte '-' := by
      rintro rfl
      cases hc
    have hgreater : c ≠ byte '>' := by
      rintro rfl
      cases hc
    show step .minus c = close .minus c
    rw [step, if_neg (not_zero_of_isDigitByte hc), stepByte, stepMinus, if_neg hminus,
      if_neg hgreater]

end SqliteLexer
