import VHono.ByteString

/-! # Scanning byte strings by position

    The loops with which a hand-written parser walks over a buffer: search for
    a pattern from a position on, advance while a test holds, cut out a range,
    split at a separator, trim and compare without case.  Each has the lemma
    that evaluates it on a buffer whose parts are known. -/

namespace ByteString

/-- The byte at a position; past the end it is zero. -/
def byteAt (s : ByteString) (i : Nat) : UInt8 := s.getD i 0

/-- `s[i..e]` -/
def slice (s : ByteString) (i e : Nat) : ByteString := (s.take e).drop i

/-- The first position at which the pattern occurs. -/
def indexOf (pat : ByteString) : ByteString → Option Nat
  | [] => if pat = [] then some 0 else none
  | b :: s => if startsWith (b :: s) pat then some 0 else (indexOf pat s).map (· + 1)

/-- The first position not before `start` at which the pattern occurs. -/
def indexFrom (pat s : ByteString) (start : Nat) : Option Nat :=
  (indexOf pat (s.drop start)).map (· + start)

/-- The last position of a byte, searched from the end. -/
def lastIndexOf (c : UInt8) (s : ByteString) : Option Nat :=
  (s.reverse.idxOf? c).map (fun k => s.length - 1 - k)

/-- `for i < e && test(s[i]) { i++ }` -/
def spanEnd (test : UInt8 → Bool) (s : ByteString) (i e : Nat) : Nat :=
  i + ((slice s i e).takeWhile test).length

/-- `s.split(sep)`; the counter skips the bytes of a separator. -/
def splitFrom (sep : ByteString) : Nat → ByteString → List ByteString
  | _, [] => [[]]
  | skip + 1, _ :: s => splitFrom sep skip s
  | 0, b :: s =>
    if startsWith (b :: s) sep then [] :: splitFrom sep (sep.length - 1) s
    else match splitFrom sep 0 s with
      | [] => [[b]]
      | piece :: pieces => (b :: piece) :: pieces

def splitStr (s sep : ByteString) : List ByteString := splitFrom sep 0 s

def isSpace (b : UInt8) : Bool :=
  b == 32 || b == 9 || b == 10 || b == 11 || b == 12 || b == 13

/-- `s.trim_space()` -/
def trimSpace (s : ByteString) : ByteString :=
  ((s.dropWhile isSpace).reverse.dropWhile isSpace).reverse

/-- ASCII lower case -/
def lowerByte (b : UInt8) : UInt8 := if byte 'A' ≤ b ∧ b ≤ byte 'Z' then b + 32 else b

def toLower (s : ByteString) : ByteString := s.map lowerByte

def eqIgnoreCase (s t : ByteString) : Bool := toLower s == toLower t

def containsIgnoreCase (s t : ByteString) : Bool := containsStr (toLower s) (toLower t)

/-! ## Slices and spans -/

/-- A range of a buffer whose parts are known. -/
theorem slice_eq {s a m rest : ByteString} {i e : Nat} (hs : s = a ++ (m ++ rest))
    (hi : i = a.length) (he : e = i + m.length) : slice s i e = m := by
  subst hs hi he
  rw [slice, ← List.append_assoc, List.take_append_of_le_length (by simp),
    List.take_of_length_le (by simp), List.drop_left]

theorem slice_right (a s : ByteString) (k : Nat) :
    slice (a ++ s) a.length (a.length + k) = s.take k := by
  rw [slice, List.take_append, List.take_of_length_le (by omega), List.drop_left,
    Nat.add_sub_cancel_left]

theorem takeWhile_append_all {test : UInt8 → Bool} {m s : ByteString}
    (hm : ∀ b ∈ m, test b = true) : (m ++ s).takeWhile test = m ++ s.takeWhile test := by
  induction m with
  | nil => rfl
  | cons b m ih =>
      rw [List.cons_append, List.takeWhile_cons_of_pos (hm b (List.mem_cons_self ..)),
        ih (fun b' hb' => hm b' (List.mem_cons_of_mem _ hb'))]
      rfl

/-- The span runs to the first byte that fails the test. -/
theorem spanEnd_stop {test : UInt8 → Bool} {s a m rest : ByteString} {c : UInt8} {i e : Nat}
    (hs : s = a ++ (m ++ c :: rest)) (hi : i = a.length) (hm : ∀ b ∈ m, test b = true)
    (hc : test c = false) (he : i + m.length < e) : spanEnd test s i e = i + m.length := by
  subst hs hi
  obtain ⟨k, rfl⟩ : ∃ k, e = a.length + (m.length + (k + 1)) :=
    ⟨e - a.length - m.length - 1, by omega⟩
  rw [spanEnd, slice_right, List.take_append, List.take_of_length_le (by omega),
    Nat.add_sub_cancel_left, List.take_succ_cons, takeWhile_append_all hm,
    List.takeWhile_cons_of_neg (by simp [hc]), List.append_nil]

/-! ## Searching -/

theorem startsWith_cons (b c : UInt8) (s pat : ByteString) :
    startsWith (b :: s) (c :: pat) = (c == b && startsWith s pat) := rfl

/-- A pattern found right where the search begins. -/
theorem indexOf_here {pat s : ByteString} (h : startsWith s pat = true) :
    indexOf pat s = some 0 := by
  cases s with
  | nil =>
      have hpat : pat = [] := List.prefix_nil.mp (startsWith_iff.mp h)
      rw [indexOf, if_pos hpat]
  | cons b s => rw [indexOf, if_pos h]

/-- A byte at which the pattern does not start moves the search on. -/
theorem indexOf_skip {pat s : ByteString} {b : UInt8} (h : startsWith (b :: s) pat = false) :
    indexOf pat (b :: s) = (indexOf pat s).map (· + 1) := by
  rw [indexOf, if_neg (by simp [h])]

/-- Bytes other than the pattern's first cannot start it. -/
theorem indexOf_append {c : UInt8} {pat m s : ByteString} (hm : c ∉ m) :
    indexOf (c :: pat) (m ++ s) = (indexOf (c :: pat) s).map (· + m.length) := by
  induction m with
  | nil => simp
  | cons b m ih =>
      have hb : (c == b) = false :=
        beq_eq_false_iff_ne.mpr (fun h => hm (h ▸ List.mem_cons_self ..))
      have hskip : startsWith (b :: (m ++ s)) (c :: pat) = false := by
        rw [startsWith_cons, hb, Bool.false_and]
      rw [List.cons_append, indexOf_skip hskip, ih (fun h => hm (List.mem_cons_of_mem _ h)),
        Option.map_map]
      congr 1

theorem indexOf_found {c : UInt8} {pat m s : ByteString} (hm : c ∉ m) :
    indexOf (c :: pat) (m ++ (c :: pat ++ s)) = some m.length := by
  rw [indexOf_append hm, indexOf_here (startsWith_append _ _)]
  simp

/-- A pattern lies in a text in which something comes before and after it. -/
theorem containsStr_append (a pat s : ByteString) : containsStr (a ++ (pat ++ s)) pat = true :=
  List.any_eq_true.mpr ⟨pat ++ s, (List.mem_tails _ _).mpr (List.suffix_append a _),
    startsWith_append pat s⟩

theorem indexFrom_append (pat a s : ByteString) :
    indexFrom pat (a ++ s) a.length = (indexOf pat s).map (· + a.length) := by
  rw [indexFrom, List.drop_left]

theorem lastIndexOf_eq_none {c : UInt8} {s : ByteString} (h : c ∉ s) :
    lastIndexOf c s = none := by
  have : s.reverse.idxOf? c = none := List.idxOf?_eq_none_iff.mpr (by simpa using h)
  rw [lastIndexOf, this]
  rfl

/-! ## Splitting -/

/-- A line without the separator's first byte is the first piece. -/
theorem splitFrom_append {c : UInt8} {sep m s : ByteString} (hm : c ∉ m) :
    splitFrom (c :: sep) 0 (m ++ (c :: sep ++ s)) = m :: splitFrom (c :: sep) 0 s := by
  induction m with
  | nil =>
      have hskip : ∀ (t u : ByteString), splitFrom (c :: sep) t.length (t ++ u)
          = splitFrom (c :: sep) 0 u := by
        intro t u
        induction t with
        | nil => rfl
        | cons b t ih => exact ih
      show splitFrom (c :: sep) 0 (c :: (sep ++ s)) = _
      have hstart : startsWith (c :: (sep ++ s)) (c :: sep) = true := startsWith_append _ _
      rw [splitFrom, if_pos hstart]
      exact congrArg ([] :: ·) (hskip sep s)
  | cons b m ih =>
      have hb : (c == b) = false :=
        beq_eq_false_iff_ne.mpr (fun h => hm (h ▸ List.mem_cons_self ..))
      have hstart : startsWith (b :: (m ++ (c :: sep ++ s))) (c :: sep) = false := by
        rw [startsWith_cons, hb, Bool.false_and]
      rw [List.cons_append, splitFrom, if_neg (Bool.not_eq_true _ ▸ hstart),
        ih (fun h => hm (List.mem_cons_of_mem _ h))]

theorem splitStr_lines {c : UInt8} {sep : ByteString} :
    ∀ (lines : List ByteString) (s : ByteString), (∀ l ∈ lines, c ∉ l) →
      splitStr (lines.flatMap (· ++ (c :: sep)) ++ s) (c :: sep)
        = lines ++ splitStr s (c :: sep) := by
  intro lines
  induction lines with
  | nil => intro s _; rfl
  | cons l lines ih =>
      intro s h
      have hrest := ih s (fun l' hl' => h l' (List.mem_cons_of_mem _ hl'))
      rw [splitStr] at hrest ⊢
      rw [List.flatMap_cons, List.append_assoc, List.append_assoc,
        splitFrom_append (h l (List.mem_cons_self ..)), hrest]
      rfl

/-! ## Trimming -/

theorem dropWhile_all {test : UInt8 → Bool} {m s : ByteString}
    (hm : ∀ b ∈ m, test b = true) : (m ++ s).dropWhile test = s.dropWhile test := by
  induction m with
  | nil => rfl
  | cons b m ih =>
      rw [List.cons_append, List.dropWhile_cons_of_pos (hm b (List.mem_cons_self ..)),
        ih (fun b' hb' => hm b' (List.mem_cons_of_mem _ hb'))]

theorem dropWhile_eq_self {test : UInt8 → Bool} {s : ByteString}
    (h : ∀ b, s.head? = some b → test b = false) : s.dropWhile test = s := by
  cases s with
  | nil => rfl
  | cons b s => rw [List.dropWhile_cons_of_neg (by simp [h b rfl])]

/-- Blanks around a text that neither starts nor ends in one are trimmed off. -/
theorem trimSpace_padded {before after s : ByteString}
    (hbefore : ∀ b ∈ before, isSpace b = true) (hafter : ∀ b ∈ after, isSpace b = true)
    (hhead : ∀ b, s.head? = some b → isSpace b = false)
    (hlast : ∀ b, s.getLast? = some b → isSpace b = false) :
    trimSpace (before ++ (s ++ after)) = s := by
  rw [trimSpace, dropWhile_all hbefore]
  cases s with
  | nil =>
      have hnil : after.dropWhile isSpace = [] := by
        have := dropWhile_all (s := []) hafter
        rw [List.append_nil] at this
        exact this
      rw [List.nil_append, hnil]
      rfl
  | cons b s =>
      have hleft : (b :: s ++ after).dropWhile isSpace = b :: s ++ after := by
        refine dropWhile_eq_self ?_
        intro b' hb'
        exact hhead b' hb'
      rw [hleft, List.reverse_append, dropWhile_all (by simpa using hafter),
        dropWhile_eq_self, List.reverse_reverse]
      intro b' hb'
      rw [List.head?_reverse] at hb'
      exact hlast b' hb'

end ByteString
