import VHono.SqliteLexer

/-! # What is lexed as one literal

    A text put between quotes is read back as one token exactly if its quotes
    are doubled and it has no NUL byte.  A text that is not closed by itself is
    closed by the white space or the punctuation that follows it. -/

namespace SqliteLexer

open ByteString

/-! ## Texts one after the other -/

/-- The tokens finished in a text, and the state after it. -/
def run : State → ByteString → List Token × State
  | q, [] => ([], q)
  | q, c :: s => ((step q c).1 ++ (run (step q c).2 s).1, (run (step q c).2 s).2)

theorem lexFrom_append (q : State) (s r : ByteString) :
    lexFrom q (s ++ r) = (run q s).1 ++ lexFrom (run q s).2 r := by
  induction s generalizing q with
  | nil => rfl
  | cons c s ih =>
      show (step q c).1 ++ lexFrom (step q c).2 (s ++ r) = _
      rw [ih, ← List.append_assoc]
      rfl

def State.isStart : State → Bool
  | .start => true
  | _ => false

/-- The text ends between two tokens. -/
def closes (text : ByteString) : Bool := (run .start text).2.isStart

theorem run_of_closes {text : ByteString} (h : closes text = true) :
    (run .start text).2 = .start := by
  rw [closes] at h
  cases hq : (run .start text).2 with
  | start => rfl
  | _ => rw [hq] at h; cases h

theorem run_append (q : State) (s r : ByteString) : (run q (s ++ r)).2 = (run (run q s).2 r).2 := by
  induction s generalizing q with
  | nil => rfl
  | cons c s ih => exact ih _

theorem closes_append {a b : ByteString} (ha : closes a = true) (hb : closes b = true) :
    closes (a ++ b) = true := by
  rw [closes, run_append, run_of_closes ha]
  exact hb

/-- A literal is evaluated character by character. -/
theorem closes_literal {l : List Char}
    (h : closes (l.map (fun c => c.toNat.toUInt8)) = true := by decide +kernel) :
    closes (ascii (String.ofList l)) = true := by
  rw [ascii, String.toList_ofList]
  exact h

theorem lex_append {text : ByteString} (h : closes text = true) (r : ByteString) :
    lex (text ++ r) = lex text ++ lex r := by
  have hstart := run_of_closes h
  have htext := lexFrom_append .start text []
  rw [List.append_nil, hstart] at htext
  rw [lex, lex, lexFrom_append, htext, hstart]
  show _ = _ ++ [] ++ lexFrom .start r
  rw [List.append_nil]

/-- A byte that closes every token that is not quoted. -/
def seals (c : UInt8) : Bool := c = byte ' ' || c = byte ',' || c = byte ')'

/-- What follows a value: nothing, or such a byte. -/
def Sealed (r : ByteString) : Prop := ∀ c, r.head? = some c → seals c = true

def Closable (q : State) : Prop := ∀ c, seals c = true → step q c = close q c

theorem seals_cases {c : UInt8} (h : seals c = true) : c = byte ' ' ∨ c = byte ',' ∨ c = byte ')' := by
  rw [seals, Bool.or_eq_true, Bool.or_eq_true, decide_eq_true_iff, decide_eq_true_iff,
    decide_eq_true_iff, or_assoc] at h
  exact h

theorem lexFrom_sealed {q : State} (hq : Closable q) {r : ByteString} (hr : Sealed r) :
    lexFrom q r = finish q ++ lex r := by
  cases r with
  | nil => exact (List.append_nil _).symm
  | cons c s =>
      have hc := hr c rfl
      have hstart : step .start c = begin c := by
        rcases seals_cases hc with rfl | rfl | rfl <;> rfl
      rw [lexFrom, hq c hc, lex, lexFrom, hstart, close, List.append_assoc]

theorem closable_word (acc : ByteString) : Closable (.word acc) := by
  intro c hc
  rcases seals_cases hc with rfl | rfl | rfl <;> rfl

theorem closable_hexLetter (letter : UInt8) : Closable (.hexLetter letter) := by
  intro c hc
  rcases seals_cases hc with rfl | rfl | rfl <;> rfl

theorem closable_number (acc : ByteString) (phase : Phase) : Closable (.number acc phase) := by
  intro c hc
  cases phase <;> rcases seals_cases hc with rfl | rfl | rfl <;> rfl

theorem isQuote_cases {quote : UInt8} (h : isQuote quote = true) :
    quote = byte '\'' ∨ quote = byte '"' ∨ quote = 96 := by
  rw [isQuote, Bool.or_eq_true, Bool.or_eq_true, decide_eq_true_iff, decide_eq_true_iff,
    decide_eq_true_iff, or_assoc] at h
  exact h

theorem isQuote_single : isQuote (byte '\'') = true := rfl

theorem isQuote_double : isQuote (byte '"') = true := rfl

theorem not_quote_of_seals {quote c : UInt8} (hquote : isQuote quote = true) (hc : seals c = true) :
    c ≠ quote := by
  rcases isQuote_cases hquote with rfl | rfl | rfl <;>
    rcases seals_cases hc with rfl | rfl | rfl <;> decide

theorem closable_closing {quote : UInt8} (hquote : isQuote quote = true) (acc : ByteString) :
    Closable (.closing quote acc) := by
  intro c hc
  have hne := not_quote_of_seals hquote hc
  have hzero : c ≠ 0 := by
    rcases seals_cases hc with rfl | rfl | rfl <;> decide
  rw [step, if_neg hzero, stepByte, if_neg hne]

/-! ## Quoted texts -/

/-- The text with its quotes doubled. -/
def double (quote : UInt8) (text : ByteString) : ByteString :=
  text.flatMap (fun b => if b = quote then [quote, quote] else [b])

theorem double_cons_quote (quote : UInt8) (text : ByteString) :
    double quote (quote :: text) = quote :: quote :: double quote text := by
  rw [double, List.flatMap_cons, if_pos rfl]
  rfl

theorem double_cons_other {quote b : UInt8} (h : b ≠ quote) (text : ByteString) :
    double quote (b :: text) = b :: double quote text := by
  rw [double, List.flatMap_cons, if_neg h]
  rfl

theorem double_of_not_mem {quote : UInt8} {text : ByteString} (h : quote ∉ text) :
    double quote text = text := by
  induction text with
  | nil => rfl
  | cons b text ih =>
      rw [List.mem_cons, not_or] at h
      rw [double_cons_other (Ne.symm h.1), ih h.2]

theorem step_quoted (quote : UInt8) {c : UInt8} (hzero : c ≠ 0) (acc : ByteString) :
    step (.quoted quote acc) c
      = if c = quote then ([], .closing quote acc) else ([], .quoted quote (acc ++ [c])) := by
  rw [step, if_neg hzero, stepByte]

theorem lexFrom_double {quote : UInt8} (hquote : isQuote quote = true) {text : ByteString}
    (htext : 0 ∉ text) (r : ByteString) :
    ∀ acc, lexFrom (.quoted quote acc) (double quote text ++ r)
      = lexFrom (.quoted quote (acc ++ text)) r := by
  have hzero : quote ≠ 0 := by
    rcases isQuote_cases hquote with rfl | rfl | rfl <;> decide
  induction text with
  | nil => intro acc; rw [List.append_nil]; rfl
  | cons b text ih =>
      intro acc
      rw [List.mem_cons, not_or] at htext
      have hstep := step_quoted quote (Ne.symm htext.1) acc
      by_cases hb : b = quote
      · subst hb
        have hclose : step (.closing b acc) b = ([], .quoted b (acc ++ [b])) := by
          rw [step, if_neg hzero, stepByte, if_pos rfl]
        rw [if_pos rfl] at hstep
        rw [double_cons_quote, List.cons_append, List.cons_append, lexFrom, hstep, List.nil_append,
          lexFrom, hclose, List.nil_append, ih htext.2, List.append_assoc]
        rfl
      · rw [if_neg hb] at hstep
        rw [double_cons_other hb, List.cons_append, lexFrom, hstep, List.nil_append, ih htext.2,
          List.append_assoc]
        rfl

/-- **A DOUBLED TEXT IS ONE TOKEN** that stands for the text. -/
theorem lex_literal {quote : UInt8} (hquote : isQuote quote = true) {text r : ByteString}
    (htext : 0 ∉ text) (hr : Sealed r) :
    lex (quote :: (double quote text ++ quote :: r)) = literal quote text :: lex r := by
  have hzero : quote ≠ 0 := by
    rcases isQuote_cases hquote with rfl | rfl | rfl <;> decide
  have hopen : step .start quote = ([], .quoted quote []) := by
    rcases isQuote_cases hquote with rfl | rfl | rfl <;> rfl
  have hclose := step_quoted quote hzero text
  rw [if_pos rfl] at hclose
  rw [lex, lexFrom, hopen, List.nil_append, lexFrom_double hquote htext, List.nil_append, lexFrom,
    hclose, List.nil_append, lexFrom_sealed (closable_closing hquote text) hr]
  rfl

theorem lexFrom_ended (s : ByteString) : lexFrom .ended s = [] := by
  induction s with
  | nil => rfl
  | cons c s ih =>
      have hstep : step .ended c = ([], .ended) := by
        rw [step]
        split <;> rfl
      rw [lexFrom, hstep, ih]
      rfl

/-- A NUL byte in it leaves a literal open. -/
theorem lex_literal_nul {quote : UInt8} (hquote : isQuote quote = true) {text : ByteString}
    (h : 0 ∈ text) (s : ByteString) :
    ∃ bad, lex (quote :: (double quote text ++ s)) = [.illegal bad] := by
  have hzero : (0 : UInt8) ≠ quote := by
    rcases isQuote_cases hquote with rfl | rfl | rfl <;> decide
  have hopen : step .start quote = ([], .quoted quote []) := by
    rcases isQuote_cases hquote with rfl | rfl | rfl <;> rfl
  obtain ⟨a, b, rfl, ha⟩ := List.eq_append_cons_of_mem h
  have hdouble : double quote (a ++ 0 :: b) = double quote a ++ 0 :: double quote b := by
    rw [double, List.flatMap_append]
    exact congrArg _ (double_cons_other hzero b)
  refine ⟨quote :: a, ?_⟩
  rw [lex, lexFrom, hopen, hdouble, List.nil_append, List.append_assoc,
    lexFrom_double hquote ha, List.nil_append]
  show [Token.illegal (quote :: a)] ++ lexFrom .ended (double quote b ++ s) = _
  rw [lexFrom_ended, List.append_nil]

/-- What a quoted token begins with: it is closed, and stands for the text up to there, or it is
    none. -/
theorem lexFrom_quoted {quote : UInt8} (hquote : isQuote quote = true) :
    ∀ (n : Nat) (s acc : ByteString), s.length ≤ n →
      (∃ text r ts, s = double quote text ++ quote :: r ∧ r.head? ≠ some quote ∧ 0 ∉ text ∧
        lexFrom (.quoted quote acc) s = literal quote (acc ++ text) :: ts) ∨
      ∃ text ts, lexFrom (.quoted quote acc) s = .illegal text :: ts := by
  have hzero : quote ≠ 0 := by
    rcases isQuote_cases hquote with rfl | rfl | rfl <;> decide
  intro n
  induction n with
  | zero =>
      intro s acc hs
      rw [List.length_eq_zero_iff.mp (Nat.le_zero.mp hs)]
      exact Or.inr ⟨_, _, rfl⟩
  | succ n ih =>
      intro s acc hs
      cases s with
      | nil => exact Or.inr ⟨_, _, rfl⟩
      | cons c s =>
          by_cases hc : c = 0
          · rw [hc]
            exact Or.inr ⟨_, _, rfl⟩
          · have hstep := step_quoted quote hc acc
            by_cases hquoted : c = quote
            · subst hquoted
              rw [if_pos rfl] at hstep
              rw [lexFrom, hstep, List.nil_append]
              cases s with
              | nil => exact Or.inl ⟨[], [], _, rfl, nofun, List.not_mem_nil, by rw [List.append_nil]; rfl⟩
              | cons d s =>
                  by_cases hd : d = c
                  · -- a doubled quote, and the text goes on
                    subst hd
                    have hclose : step (.closing d acc) d = ([], .quoted d (acc ++ [d])) := by
                      rw [step, if_neg hzero, stepByte, if_pos rfl]
                    rw [lexFrom, hclose, List.nil_append]
                    rw [List.length_cons, List.length_cons] at hs
                    rcases ih s (acc ++ [d]) (by omega) with ⟨text, r, ts, rfl, hr, htext, hlex⟩ | hbad
                    · refine Or.inl ⟨d :: text, r, ts, by rw [double_cons_quote]; rfl, hr, ?_, ?_⟩
                      · rw [List.mem_cons, not_or]
                        exact ⟨Ne.symm hzero, htext⟩
                      · rw [hlex, List.append_assoc]
                        rfl
                    · exact Or.inr hbad
                  · refine Or.inl ⟨[], d :: s, ?_⟩
                    have hother : lexFrom (.closing c acc) (d :: s)
                        = literal c acc :: ((begin d).1 ++ lexFrom (step (.closing c acc) d).2 s) ∨
                        lexFrom (.closing c acc) (d :: s)
                          = literal c acc :: lexFrom .ended s := by
                      by_cases hnul : d = 0
                      · rw [hnul]
                        exact Or.inr rfl
                      · rw [lexFrom, step, if_neg hnul, stepByte, if_neg hd]
                        exact Or.inl rfl
                    rcases hother with h | h
                    · exact ⟨_, rfl, fun heq => hd (Option.some.inj heq), List.not_mem_nil,
                        by rw [h, List.append_nil]⟩
                    · exact ⟨_, rfl, fun heq => hd (Option.some.inj heq), List.not_mem_nil,
                        by rw [h, List.append_nil]⟩
            · rw [if_neg hquoted] at hstep
              rw [List.length_cons] at hs
              rw [lexFrom, hstep, List.nil_append]
              rcases ih s (acc ++ [c]) (by omega) with ⟨text, r, ts, rfl, hr, htext, hlex⟩ | hbad
              · refine Or.inl ⟨c :: text, r, ts, by rw [double_cons_other hquoted]; rfl, hr, ?_, ?_⟩
                · rw [List.mem_cons, not_or]
                  exact ⟨Ne.symm hc, htext⟩
                · rw [hlex, List.append_assoc]
                  rfl
              · exact Or.inr hbad

theorem literal_injective {quote : UInt8} {a b : ByteString} (h : literal quote a = literal quote b) :
    a = b := by
  rw [literal, literal] at h
  split at h
  · exact Token.string.inj h
  · exact Token.name.inj h

theorem literal_ne_illegal {quote : UInt8} {a b : ByteString} : literal quote a ≠ .illegal b := by
  rw [literal]
  split <;> exact nofun

/-- The first token of what is opened by a quote, if it is a literal. -/
theorem literal_of_lex {quote : UInt8} (hquote : isQuote quote = true) {text s : ByteString}
    {ts : List Token} (h : lex (quote :: s) = literal quote text :: ts) :
    0 ∉ text ∧ ∃ r, s = double quote text ++ quote :: r ∧ r.head? ≠ some quote := by
  have hopen : step .start quote = ([], .quoted quote []) := by
    rcases isQuote_cases hquote with rfl | rfl | rfl <;> rfl
  rw [lex, lexFrom, hopen, List.nil_append] at h
  rcases lexFrom_quoted hquote s.length s [] (Nat.le_refl _) with
    ⟨text', r, ts', hs, hr, htext, hlex⟩ | ⟨bad, ts', hlex⟩
  · rw [hlex, List.nil_append] at h
    obtain rfl := literal_injective (List.cons.inj h).1
    exact ⟨htext, r, hs, hr⟩
  · rw [hlex] at h
    exact absurd (List.cons.inj h).1.symm literal_ne_illegal

/-- A name is not a string. -/
theorem not_string_of_lex {quote : UInt8} (hquote : isQuote quote = true) (hother : quote ≠ byte '\'')
    {text s : ByteString} {ts : List Token} : lex (quote :: s) ≠ .string text :: ts := by
  intro h
  have hopen : step .start quote = ([], .quoted quote []) := by
    rcases isQuote_cases hquote with rfl | rfl | rfl <;> rfl
  rw [lex, lexFrom, hopen, List.nil_append] at h
  rcases lexFrom_quoted hquote s.length s [] (Nat.le_refl _) with
    ⟨text', r, ts', -, -, -, hlex⟩ | ⟨bad, ts', hlex⟩
  · rw [hlex, literal, if_neg hother] at h
    exact nomatch (List.cons.inj h).1
  · rw [hlex] at h
    exact nomatch (List.cons.inj h).1

/-- Doubling the quotes of a text is seen in what is written, unless it has none. -/
theorem not_mem_of_double_eq {quote : UInt8} {text r r' : ByteString}
    (hr : r.head? ≠ some quote) (h : double quote text ++ quote :: r' = text ++ quote :: r) :
    quote ∉ text := by
  -- once one quote is ahead, it is never caught up with
  have hahead : ∀ (text : ByteString) (k : Nat), List.replicate (k + 1) quote ++
      (double quote text ++ quote :: r') ≠ text ++ quote :: r := by
    intro text
    induction text with
    | nil =>
        intro k heq
        refine hr ?_
        rw [List.replicate_succ, List.cons_append, List.nil_append] at heq
        rw [← (List.cons.inj heq).2]
        cases k with
        | zero => rfl
        | succ k => rfl
    | cons b text ih =>
        intro k heq
        rw [List.replicate_succ, List.cons_append, List.cons_append] at heq
        obtain ⟨rfl, hrest⟩ := List.cons.inj heq
        rw [double_cons_quote] at hrest
        refine ih (k + 1) ?_
        rw [← hrest, List.replicate_succ', List.replicate_succ']
        simp only [List.append_assoc, List.cons_append, List.nil_append]
  induction text with
  | nil => exact List.not_mem_nil
  | cons b text ih =>
      by_cases hb : b = quote
      · subst hb
        rw [double_cons_quote, List.cons_append, List.cons_append, List.cons_append] at h
        exact absurd (List.cons.inj h).2 (hahead text 0)
      · rw [double_cons_other hb, List.cons_append, List.cons_append] at h
        rw [List.mem_cons, not_or]
        exact ⟨Ne.symm hb, ih (List.cons.inj h).2⟩

end SqliteLexer
