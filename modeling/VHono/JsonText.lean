import VHono.Utf8
import VHono.ByteDecimals
import VHono.ByteScan

/-! # JSON texts

    A decoder for the grammar of RFC 8259.  An integer is kept as a number,
    any other number as its literal, and an object as the list of its members
    in the order of the text. -/

inductive Json
  | null
  | bool (b : Bool)
  | integer (n : Int)
  | real (literal : ByteString)
  | string (s : ByteString)
  | array (items : List Json)
  | object (members : List (ByteString × Json))

namespace JsonText

open ByteString

def isBlank (b : UInt8) : Bool := b == 0x20 || b == 0x09 || b == 0x0A || b == 0x0D

def skip (s : ByteString) : ByteString := s.dropWhile isBlank

/-- The character, after blanks. -/
def expect (c : UInt8) (s : ByteString) : Option ByteString :=
  match skip s with
  | d :: t => if d = c then some t else none
  | [] => none

/-! ## Strings -/

/-- What a character of a string stands for: a byte of the text, or a code unit of UTF-16. -/
inductive Piece
  | byte (b : UInt8)
  | unit (n : Nat)

def shortEscape (e : UInt8) : Option UInt8 :=
  if e = byte '"' then some (byte '"')
  else if e = byte '\\' then some (byte '\\')
  else if e = byte '/' then some (byte '/')
  else if e = byte 'b' then some 0x08
  else if e = byte 'f' then some 0x0C
  else if e = byte 'n' then some 0x0A
  else if e = byte 'r' then some 0x0D
  else if e = byte 't' then some 0x09
  else none

def hexDigit (b : UInt8) : Option Nat :=
  if byte '0' ≤ b ∧ b ≤ byte '9' then some (b.toNat - 48)
  else if byte 'a' ≤ b ∧ b ≤ byte 'f' then some (b.toNat - 87)
  else if byte 'A' ≤ b ∧ b ≤ byte 'F' then some (b.toNat - 55)
  else none

def hexUnit (a b c d : UInt8) : Option Nat := do
  let a ← hexDigit a
  let b ← hexDigit b
  let c ← hexDigit c
  let d ← hexDigit d
  some (((a * 16 + b) * 16 + c) * 16 + d)

/-- A string from after its opening quote to its closing one, and what follows. -/
def pieces : ByteString → Option (List Piece × ByteString)
  | [] => none
  | b :: s =>
      if b = byte '"' then some ([], s)
      else if b = byte '\\' then
        match s with
        | [] => none
        | e :: s =>
            match shortEscape e with
            | some c => (pieces s).map (fun r => (.byte c :: r.1, r.2))
            | none =>
                match s with
                | h₁ :: h₂ :: h₃ :: h₄ :: s =>
                    if e = byte 'u' then
                      match hexUnit h₁ h₂ h₃ h₄ with
                      | some n => (pieces s).map (fun r => (.unit n :: r.1, r.2))
                      | none => none
                    else none
                | _ => none
      else if b < 0x20 then none
      else (pieces s).map (fun r => (.byte b :: r.1, r.2))

/-- The UTF-8 of a code point. -/
def codePoint (n : Nat) : ByteString :=
  if n < 0x80 then [UInt8.ofNat n]
  else if n < 0x800 then [UInt8.ofNat (0xC0 + n / 64), UInt8.ofNat (0x80 + n % 64)]
  else if n < 0x10000 then
    [UInt8.ofNat (0xE0 + n / 4096), UInt8.ofNat (0x80 + n / 64 % 64), UInt8.ofNat (0x80 + n % 64)]
  else
    [UInt8.ofNat (0xF0 + n / 262144), UInt8.ofNat (0x80 + n / 4096 % 64),
      UInt8.ofNat (0x80 + n / 64 % 64), UInt8.ofNat (0x80 + n % 64)]

def isHigh (n : Nat) : Bool := 0xD800 ≤ n && n < 0xDC00

def isLow (n : Nat) : Bool := 0xDC00 ≤ n && n < 0xE000

/-- A unit that is no half of a pair; a lone half is a replacement character. -/
def loneUnit (n : Nat) : ByteString := codePoint (if isHigh n || isLow n then 0xFFFD else n)

/-- The bytes of a string, after a first half of a pair that waits for the second. -/
def joinAfter : Option Nat → List Piece → ByteString
  | none, [] => []
  | some high, [] => loneUnit high
  | none, .byte b :: ps => b :: joinAfter none ps
  | some high, .byte b :: ps => loneUnit high ++ b :: joinAfter none ps
  | none, .unit n :: ps =>
      if isHigh n then joinAfter (some n) ps else loneUnit n ++ joinAfter none ps
  | some high, .unit n :: ps =>
      if isLow n then
        codePoint (0x10000 + (high - 0xD800) * 1024 + (n - 0xDC00)) ++ joinAfter none ps
      else if isHigh n then loneUnit high ++ joinAfter (some n) ps
      else loneUnit high ++ loneUnit n ++ joinAfter none ps

def text (s : ByteString) : Option (ByteString × ByteString) :=
  (pieces s).map (fun r => (joinAfter none r.1, r.2))

/-! ## Numbers -/

/-- A fraction, if there is one, and what follows. -/
def fraction (s : ByteString) : Option (ByteString × ByteString) :=
  match s with
  | c :: t =>
      if c ≠ byte '.' then some ([], s)
      else if t.takeWhile isDigitByte = [] then none
      else some (c :: t.takeWhile isDigitByte, t.dropWhile isDigitByte)
  | [] => some ([], [])

/-- An exponent, if there is one, and what follows. -/
def exponent (s : ByteString) : Option (ByteString × ByteString) :=
  match s with
  | c :: t =>
      if c ≠ byte 'e' ∧ c ≠ byte 'E' then some ([], s)
      else
        let sign := t.take (if startsWith t (ascii "+") || startsWith t (ascii "-") then 1 else 0)
        let t := t.drop sign.length
        if t.takeWhile isDigitByte = [] then none
        else some (c :: sign ++ t.takeWhile isDigitByte, t.dropWhile isDigitByte)
  | [] => some ([], [])

/-- A number after its sign.  Of the digits before a fraction, zero stands alone. -/
def unsigned (negative : Bool) (s : ByteString) : Option (Json × ByteString) :=
  let whole := s.takeWhile isDigitByte
  if whole = [] ∨ (startsWith whole (ascii "0") = true ∧ whole ≠ ascii "0") then none
  else do
    let (frac, t) ← fraction (s.dropWhile isDigitByte)
    let (exp, t) ← exponent t
    let n : Int := (readDecimal whole).getD 0
    if frac = [] ∧ exp = [] then some (.integer (if negative then -n else n), t)
    else some (.real ((if negative then ascii "-" else []) ++ whole ++ frac ++ exp), t)

def number (s : ByteString) : Option (Json × ByteString) :=
  if startsWith s (ascii "-") then unsigned true (s.drop 1) else unsigned false s

/-! ## Values -/

/-- Items with commas between them, up to the closing character; there are no more than
    characters. -/
def separated {α : Type} (item : ByteString → Option (α × ByteString)) (close : UInt8) :
    Nat → ByteString → Option (List α × ByteString)
  | 0, _ => none
  | fuel + 1, s => do
      let (a, t) ← item (skip s)
      match skip t with
      | [] => none
      | c :: t =>
          if c = close then some ([a], t)
          else if c = byte ',' then
            (separated item close fuel t).map (fun r => (a :: r.1, r.2))
          else none

def items {α : Type} (item : ByteString → Option (α × ByteString)) (close : UInt8)
    (s : ByteString) : Option (List α × ByteString) :=
  match expect close s with
  | some t => some ([], t)
  | none => separated item close s.length s

def member (value : ByteString → Option (Json × ByteString)) (s : ByteString) :
    Option ((ByteString × Json) × ByteString) := do
  let s ← expect (byte '"') s
  let (name, s) ← text s
  let s ← expect (byte ':') s
  let (v, s) ← value (skip s)
  some ((name, v), s)

/-- A value that is nested no deeper than the fuel. -/
def value : Nat → ByteString → Option (Json × ByteString)
  | 0, _ => none
  | fuel + 1, s =>
      match s with
      | [] => none
      | c :: t =>
          if c = byte '"' then (text t).map (fun r => (.string r.1, r.2))
          else if c = byte '{' then
            (items (member (value fuel)) (byte '}') t).map (fun r => (.object r.1, r.2))
          else if c = byte '[' then
            (items (value fuel) (byte ']') t).map (fun r => (.array r.1, r.2))
          else if startsWith s (ascii "null") then some (.null, s.drop 4)
          else if startsWith s (ascii "true") then some (.bool true, s.drop 4)
          else if startsWith s (ascii "false") then some (.bool false, s.drop 5)
          else number s

/-- A text is the UTF-8 of one value; it is not nested deeper than it is long. -/
def decode (s : ByteString) : Option Json :=
  if Utf8.valid s then
    match value s.length (skip s) with
    | some (v, rest) => if skip rest = [] then some v else none
    | none => none
  else none

/-! ## Reading strings -/

theorem text_end (s : ByteString) : text (byte '"' :: s) = some ([], s) := by
  rw [text, pieces.eq_def]
  rfl

theorem text_control {b : UInt8} (hb : b < 0x20) (s : ByteString) : text (b :: s) = none := by
  have hquote : b ≠ byte '"' := by
    rintro rfl
    exact absurd hb (by decide)
  have hslash : b ≠ byte '\\' := by
    rintro rfl
    exact absurd hb (by decide)
  rw [text, pieces.eq_def]
  simp only [if_neg hquote, if_neg hslash, if_pos hb, Option.map_none]

theorem text_plain {b : UInt8} (hquote : b ≠ byte '"') (hslash : b ≠ byte '\\') (hb : ¬ b < 0x20)
    (s : ByteString) : text (b :: s) = (text s).map (fun r => (b :: r.1, r.2)) := by
  rw [text, pieces.eq_def]
  simp only [if_neg hquote, if_neg hslash, if_neg hb, text, Option.map_map]
  rfl

theorem text_escape {e c : UInt8} (h : shortEscape e = some c) (s : ByteString) :
    text (byte '\\' :: e :: s) = (text s).map (fun r => (c :: r.1, r.2)) := by
  have hslash : byte '\\' ≠ byte '"' := by decide
  rw [text, pieces.eq_def]
  simp only [if_neg hslash, if_true, h, text, Option.map_map]
  rfl

/-! ## Reading integers -/

theorem decimal_of_zero_head {n : Nat} (h : startsWith (decimal n) (ascii "0") = true) :
    decimal n = ascii "0" := by
  induction n using Nat.strongRecOn with
  | ind n ih =>
      by_cases hn : n < 10
      · have hsmall : ∀ m < 10, startsWith (decimal m) (ascii "0") = true →
            decimal m = ascii "0" := by decide
        exact hsmall n hn h
      · -- more digits follow, and the first of them is no zero either
        have hsplit : decimal n = decimal (n / 10) ++ [(n % 10).digitChar.toNat.toUInt8] := by
          rw [decimal, Nat.toDigits_of_base_le (by decide) (by omega), List.map_append, decimal]
          rfl
        obtain ⟨c, rest, hrest⟩ := List.exists_cons_of_ne_nil (decimal_ne_nil (n / 10))
        have hhead : startsWith (decimal (n / 10)) (ascii "0") = true := by
          rw [hsplit, hrest] at h
          rw [hrest]
          simpa [startsWith, ascii] using h
        have hzero := ih (n / 10) (by omega) hhead
        have hread := readDecimal_decimal (n / 10)
        rw [hzero, show readDecimal (ascii "0") = some 0 by decide] at hread
        have := Option.some.inj hread
        omega

/-- What does not go on with a number. -/
def Stops (s : ByteString) : Prop :=
  ∃ c t, s = c :: t ∧ isDigitByte c = false ∧ c ≠ byte '.' ∧ c ≠ byte 'e' ∧ c ≠ byte 'E'

theorem span_decimal (n : Nat) {s : ByteString} (hs : Stops s) :
    (decimal n ++ s).takeWhile isDigitByte = decimal n ∧
      (decimal n ++ s).dropWhile isDigitByte = s := by
  obtain ⟨c, t, rfl, hc, -⟩ := hs
  have hall : ∀ b ∈ decimal n, isDigitByte b = true := fun b hb => isDigitByte_of_mem_decimal hb
  have hstop : ¬ isDigitByte c = true := by rw [hc]; exact Bool.false_ne_true
  constructor
  · rw [List.takeWhile_append_of_pos hall, List.takeWhile_cons_of_neg hstop, List.append_nil]
  · rw [List.dropWhile_append_of_pos hall, List.dropWhile_cons_of_neg hstop]

theorem fraction_stops {s : ByteString} (hs : Stops s) : fraction s = some ([], s) := by
  obtain ⟨c, t, rfl, -, hdot, -⟩ := hs
  rw [fraction, if_pos hdot]

theorem exponent_stops {s : ByteString} (hs : Stops s) : exponent s = some ([], s) := by
  obtain ⟨c, t, rfl, -, -, he, hE⟩ := hs
  rw [exponent, if_pos ⟨he, hE⟩]

theorem unsigned_decimal (negative : Bool) (n : Nat) {s : ByteString} (hs : Stops s) :
    unsigned negative (decimal n ++ s) = some (.integer (if negative then -n else n), s) := by
  obtain ⟨htake, hdrop⟩ := span_decimal n hs
  have hzero : ¬ (decimal n = [] ∨
      (startsWith (decimal n) (ascii "0") = true ∧ decimal n ≠ ascii "0")) := by
    rintro (hnil | ⟨hhead, hmore⟩)
    · exact decimal_ne_nil n hnil
    · exact hmore (decimal_of_zero_head hhead)
  simp only [unsigned, htake, hdrop, if_neg hzero, fraction_stops hs, exponent_stops hs,
    readDecimal_decimal, Option.getD_some, Option.bind_eq_bind, Option.bind_some, and_self, if_true]

theorem number_intStr (n : Int) {s : ByteString} (hs : Stops s) :
    number (intStr n ++ s) = some (.integer n, s) := by
  rw [number, intStr]
  by_cases hn : 0 ≤ n
  · obtain ⟨b, t, ht⟩ := List.exists_cons_of_ne_nil (decimal_ne_nil n.toNat)
    have hdigit : isDigitByte b = true := isDigitByte_of_mem_decimal (ht ▸ List.mem_cons_self ..)
    have hsign : ¬ startsWith (decimal n.toNat ++ s) (ascii "-") = true := by
      rw [ht]
      intro h
      have hb : 45 = b := by simpa [startsWith, ascii] using h
      rw [← hb] at hdigit
      exact absurd hdigit (by decide)
    rw [if_pos hn, if_neg hsign, unsigned_decimal false _ hs, if_neg Bool.false_ne_true,
      Int.toNat_of_nonneg hn]
  · have hsign : startsWith (byte '-' :: (decimal n.natAbs ++ s)) (ascii "-") = true :=
      startsWith_append (ascii "-") _
    rw [if_neg hn, List.cons_append, if_pos hsign, List.drop_one, List.tail_cons,
      unsigned_decimal true _ hs, if_pos rfl]
    congr 3
    omega

/-! ## Reading items -/

theorem skip_of_stop {b : UInt8} (hb : isBlank b = false) (s : ByteString) :
    skip (b :: s) = b :: s :=
  List.dropWhile_cons_of_neg (by rw [hb]; exact Bool.false_ne_true)

theorem expect_here {c : UInt8} (hc : isBlank c = false) (s : ByteString) :
    expect c (c :: s) = some s := by
  rw [expect, skip_of_stop hc]
  exact if_pos rfl

/-- A text that reads as an item where a comma or the closing character follows. -/
def Reads {α : Type} (item : ByteString → Option (α × ByteString)) (close : UInt8) (t : ByteString)
    (a : Option α) : Prop :=
  (∃ b s, t = b :: s ∧ isBlank b = false ∧ b ≠ close) ∧
    ∀ c s, c = byte ',' ∨ c = close → item (t ++ c :: s) = a.map (fun a => (a, c :: s))

section Items

variable {α β : Type} {item : ByteString → Option (α × ByteString)} {close : UInt8}
variable {f : β → ByteString} {g : β → Option α}

theorem Reads.skip {t : ByteString} {a : Option α} (h : Reads item close t a) (s : ByteString) :
    JsonText.skip (t ++ s) = t ++ s := by
  obtain ⟨⟨b, t', rfl, hb, -⟩, -⟩ := h
  exact skip_of_stop hb _

/-- The texts of the items, one or more, with commas between them. -/
theorem separated_texts (hblank : isBlank close = false) (hcomma : close ≠ byte ',')
    (rest : ByteString) : ∀ (bs : List β), bs ≠ [] → (∀ b ∈ bs, Reads item close (f b) (g b)) →
      ∀ fuel, bs.length ≤ fuel →
        separated item close fuel (List.intercalate (ascii ",") (bs.map f) ++ close :: rest)
          = (bs.mapM g).map (fun as => (as, rest)) := by
  intro bs
  induction bs with
  | nil => exact fun hne => absurd rfl hne
  | cons b bs ih =>
      intro _ hreads fuel hfuel
      obtain ⟨fuel, rfl⟩ := Nat.exists_eq_add_of_lt (Nat.lt_of_lt_of_le (Nat.succ_pos _) hfuel)
      have hb := hreads b (List.mem_cons_self ..)
      rw [Nat.zero_add, separated]
      cases bs with
      | nil =>
          rw [List.map_singleton, List.intercalate_singleton, hb.skip, hb.2 close rest (.inr rfl)]
          cases hg : g b with
          | none => simp [hg]
          | some a => simp [hg, skip_of_stop hblank]
      | cons b' bs =>
          have hmore := ih (List.cons_ne_nil _ _)
            (fun c hc => hreads c (List.mem_cons_of_mem _ hc)) fuel (by simpa using hfuel)
          have hsep : isBlank (byte ',') = false := by decide
          rw [List.map_cons, List.intercalate_cons_of_ne_nil (by simp), List.append_assoc,
            List.append_assoc, hb.skip]
          show (item (f b ++ byte ',' :: (List.intercalate (ascii ",") ((b' :: bs).map f) ++
            close :: rest))).bind _ = _
          rw [hb.2 _ _ (.inl rfl)]
          cases hg : g b with
          | none => simp [List.mapM_cons, hg]
          | some a =>
              rw [Option.map_some, Option.bind_some]
              dsimp only
              rw [skip_of_stop hsep]
              show (if byte ',' = close then _ else if byte ',' = byte ',' then _ else _) = _
              have hcons : (b :: b' :: bs).mapM g = ((b' :: bs).mapM g).map (a :: ·) := by
                rw [List.mapM_cons, hg]
                cases (b' :: bs).mapM g <;> rfl
              rw [if_neg (Ne.symm hcomma), if_pos rfl, hmore, hcons, Option.map_map, Option.map_map]
              rfl

theorem length_le_intercalate (sep : ByteString) : ∀ {ts : List ByteString}, (∀ t ∈ ts, t ≠ []) →
    ts.length ≤ (List.intercalate sep ts).length := by
  intro ts
  induction ts with
  | nil => exact fun _ => Nat.le_refl _
  | cons t ts ih =>
      intro h
      have ht : 1 ≤ t.length := List.length_pos_of_ne_nil (h t (List.mem_cons_self ..))
      have hts := ih (fun t' ht' => h t' (List.mem_cons_of_mem _ ht'))
      cases ts with
      | nil => simpa using ht
      | cons t' ts =>
          rw [List.intercalate_cons_cons, List.length_append, List.length_append, List.length_cons]
          omega

/-- The texts of the items, none or more. -/
theorem items_texts (hblank : isBlank close = false) (hcomma : close ≠ byte ',') (bs : List β)
    (hreads : ∀ b ∈ bs, Reads item close (f b) (g b)) (rest : ByteString) :
    items item close (List.intercalate (ascii ",") (bs.map f) ++ close :: rest)
      = (bs.mapM g).map (fun as => (as, rest)) := by
  cases bs with
  | nil =>
      show items item close (close :: rest) = _
      rw [items, expect, skip_of_stop hblank]
      simp
  | cons b bs =>
      have hlength : (b :: bs).length ≤ (List.intercalate (ascii ",") ((b :: bs).map f) ++
          close :: rest).length := by
        have hne : ∀ t ∈ (b :: bs).map f, t ≠ [] := by
          intro t ht
          obtain ⟨c, hc, rfl⟩ := List.mem_map.mp ht
          obtain ⟨⟨d, s, hd, -⟩, -⟩ := hreads c hc
          rw [hd]
          exact List.cons_ne_nil _ _
        have := length_le_intercalate (ascii ",") hne
        rw [List.length_map] at this
        rw [List.length_append]
        omega
      have hfirst : expect close (List.intercalate (ascii ",") ((b :: bs).map f) ++ close :: rest)
          = none := by
        obtain ⟨⟨d, s, hd, hdblank, hdclose⟩, -⟩ := hreads b (List.mem_cons_self ..)
        have hcons : ∃ t, List.intercalate (ascii ",") ((b :: bs).map f) = d :: t := by
          cases bs with
          | nil => exact ⟨s, by rw [List.map_singleton, List.intercalate_singleton, hd]⟩
          | cons b' bs =>
              rw [List.map_cons, List.intercalate_cons_of_ne_nil (by simp), hd]
              exact ⟨_, rfl⟩
        obtain ⟨t, ht⟩ := hcons
        rw [ht, List.cons_append, expect, skip_of_stop hdblank]
        exact if_neg hdclose
      rw [items, hfirst]
      exact separated_texts hblank hcomma rest _ (List.cons_ne_nil _ _) hreads _ hlength

end Items

/-! ## Objects without blanks -/

/-- A name and a value, as texts, with a colon between them. -/
def memberText (name v : ByteString) : ByteString :=
  ascii "\"" ++ name ++ ascii "\":" ++ v

/-- The text of an object of given members. -/
def objectText (members : List ByteString) : ByteString :=
  ascii "\x7b" ++ List.intercalate (ascii ",") members ++ ascii "\x7d"

/-- A text that reads as a string up to a quote. -/
def Spells (t : ByteString) (a : Option ByteString) : Prop :=
  ∀ s, text (t ++ byte '"' :: s) = a.map (fun a => (a, s))

variable {fuel : Nat} {close : UInt8} {t name v : ByteString} {a n : Option ByteString}

theorem reads_string (fuel : Nat) (h : Spells t a) (hclose : close ≠ byte '"') :
    Reads (value (fuel + 1)) close (ascii "\"" ++ t ++ ascii "\"") (a.map .string) := by
  have hquote : isBlank (byte '"') = false := by decide
  refine ⟨⟨byte '"', t ++ ascii "\"", rfl, hquote, Ne.symm hclose⟩, fun c s _ => ?_⟩
  have htext : ascii "\"" ++ t ++ ascii "\"" ++ c :: s = byte '"' :: (t ++ byte '"' :: c :: s) := by
    rw [List.append_assoc, List.append_assoc]
    rfl
  rw [htext, value, if_pos rfl, h, Option.map_map, Option.map_map]
  rfl

/-- The first character of a number is no other. -/
theorem ne_of_numeral {c d : UInt8} (hc : c = byte '-' ∨ isDigitByte c = true)
    (hminus : d ≠ byte '-') (hdigit : isDigitByte d = false) : c ≠ d := by
  rintro rfl
  rcases hc with hc | hc
  · exact hminus hc
  · exact Bool.false_ne_true (hdigit.symm.trans hc)

/-- What begins no other value begins a number. -/
theorem value_number {c : UInt8} (hc : c = byte '-' ∨ isDigitByte c = true) (s : ByteString) :
    value (fuel + 1) (c :: s) = number (c :: s) := by
  have hword : ∀ (pat : ByteString) d w, pat = d :: w → d ≠ byte '-' → isDigitByte d = false →
      ¬ startsWith (c :: s) pat = true := by
    rintro _ d w rfl hminus hdigit h
    rw [startsWith_cons, Bool.and_eq_true, beq_iff_eq] at h
    exact ne_of_numeral hc hminus hdigit h.1.symm
  have hne := fun d => ne_of_numeral (d := d) hc
  rw [value, if_neg (hne _ (by decide) (by decide)), if_neg (hne _ (by decide) (by decide)),
    if_neg (hne _ (by decide) (by decide)),
    if_neg (hword (ascii "null") (byte 'n') (ascii "ull") rfl (by decide) (by decide)),
    if_neg (hword (ascii "true") (byte 't') (ascii "rue") rfl (by decide) (by decide)),
    if_neg (hword (ascii "false") (byte 'f') (ascii "alse") rfl (by decide) (by decide))]

theorem value_quote (fuel : Nat) (s : ByteString) :
    value (fuel + 1) (byte '"' :: s) = (text s).map (fun r => (.string r.1, r.2)) := by
  rw [value, if_pos rfl]

theorem value_brace (fuel : Nat) (s : ByteString) : value (fuel + 1) (byte '{' :: s)
    = (items (member (value fuel)) (byte '}') s).map (fun r => (.object r.1, r.2)) := by
  rw [value, if_neg (by decide), if_pos rfl]

theorem value_bracket (fuel : Nat) (s : ByteString) : value (fuel + 1) (byte '[' :: s)
    = (items (value fuel) (byte ']') s).map (fun r => (.array r.1, r.2)) := by
  rw [value, if_neg (by decide), if_neg (by decide), if_pos rfl]

theorem startsWith_other {c d : UInt8} (h : d ≠ c) (s pat : ByteString) :
    ¬ startsWith (c :: s) (d :: pat) = true := by
  rw [startsWith_cons, Bool.and_eq_true, beq_iff_eq]
  exact fun hboth => h hboth.1

/-- The three words. -/
theorem value_null (fuel : Nat) (s : ByteString) :
    value (fuel + 1) (ascii "null" ++ s) = some (.null, s) := by
  have hword : startsWith (byte 'n' :: (ascii "ull" ++ s)) (ascii "null") = true :=
    startsWith_append (ascii "null") s
  show value (fuel + 1) (byte 'n' :: (ascii "ull" ++ s)) = _
  rw [value, if_neg (by decide), if_neg (by decide), if_neg (by decide), if_pos hword]
  rfl

theorem value_true (fuel : Nat) (s : ByteString) :
    value (fuel + 1) (ascii "true" ++ s) = some (.bool true, s) := by
  have hword : startsWith (byte 't' :: (ascii "rue" ++ s)) (ascii "true") = true :=
    startsWith_append (ascii "true") s
  have hnull : ¬ startsWith (byte 't' :: (ascii "rue" ++ s)) (ascii "null") = true :=
    startsWith_other (by decide) _ (ascii "ull")
  show value (fuel + 1) (byte 't' :: (ascii "rue" ++ s)) = _
  rw [value, if_neg (by decide), if_neg (by decide), if_neg (by decide), if_neg hnull,
    if_pos hword]
  rfl

theorem value_false (fuel : Nat) (s : ByteString) :
    value (fuel + 1) (ascii "false" ++ s) = some (.bool false, s) := by
  have hword : startsWith (byte 'f' :: (ascii "alse" ++ s)) (ascii "false") = true :=
    startsWith_append (ascii "false") s
  have hnull : ¬ startsWith (byte 'f' :: (ascii "alse" ++ s)) (ascii "null") = true :=
    startsWith_other (by decide) _ (ascii "ull")
  have htrue : ¬ startsWith (byte 'f' :: (ascii "alse" ++ s)) (ascii "true") = true :=
    startsWith_other (by decide) _ (ascii "rue")
  show value (fuel + 1) (byte 'f' :: (ascii "alse" ++ s)) = _
  rw [value, if_neg (by decide), if_neg (by decide), if_neg (by decide), if_neg hnull,
    if_neg htrue, if_pos hword]
  rfl

theorem reads_integer (fuel : Nat) (n : Int) : Reads (value (fuel + 1)) (byte '}') (intStr n)
    (some (.integer n)) := by
  obtain ⟨b, t, ht⟩ := List.exists_cons_of_ne_nil (intStr_ne_nil n)
  have hb : b = byte '-' ∨ isDigitByte b = true := mem_intStr (ht ▸ List.mem_cons_self ..)
  have hother := fun d => ne_of_numeral (d := d) hb
  refine ⟨⟨b, t, ht, ?_, hother _ (by decide) (by decide)⟩, fun c s hc => ?_⟩
  · simp only [isBlank, Bool.or_eq_false_iff, beq_eq_false_iff_ne]
    exact ⟨⟨⟨hother _ (by decide) (by decide), hother _ (by decide) (by decide)⟩,
      hother _ (by decide) (by decide)⟩, hother _ (by decide) (by decide)⟩
  · have hstops : Stops (c :: s) := by
      refine ⟨c, s, rfl, ?_⟩
      rcases hc with rfl | rfl <;> decide
    rw [Option.map_some, ← number_intStr n hstops, ht]
    exact value_number hb _

theorem reads_member {item : ByteString → Option (Json × ByteString)} {j : Option Json}
    (hname : Spells name n) (hvalue : Reads item (byte '}') v j) :
    Reads (member item) (byte '}') (memberText name v)
      (n.bind (fun n => j.map (fun j => (n, j)))) := by
  have hquote : isBlank (byte '"') = false := by decide
  have hcolon : isBlank (byte ':') = false := by decide
  have hclose : byte '"' ≠ byte '}' := by decide
  refine ⟨⟨byte '"', name ++ ascii "\":" ++ v, ?_, hquote, hclose⟩, fun c s hc => ?_⟩
  · rw [memberText, List.append_assoc, List.append_assoc, List.append_assoc]
    rfl
  · have htext : memberText name v ++ c :: s
        = byte '"' :: (name ++ byte '"' :: byte ':' :: (v ++ c :: s)) := by
      rw [memberText, List.append_assoc, List.append_assoc, List.append_assoc]
      rfl
    have hname' := hname (byte ':' :: (v ++ c :: s))
    simp only [htext, member, expect_here hquote, Option.bind_eq_bind, Option.bind_some, hname']
    cases n with
    | none => rfl
    | some n =>
        simp only [Option.map_some, Option.bind_some, expect_here hcolon, hvalue.skip,
          hvalue.2 c s hc]
        cases j <;> rfl

/-- The text of an object is its members, if all of them can be read. -/
theorem decode_objectText {β : Type} {f : β → ByteString} {g : β → Option (ByteString × Json)}
    (bs : List β)
    (hreads : ∀ b ∈ bs, ∀ fuel, Reads (member (value (fuel + 1))) (byte '}') (f b) (g b)) :
    decode (objectText (bs.map f)) =
      if Utf8.valid (objectText (bs.map f)) then (bs.mapM g).map .object else none := by
  rw [decode]
  split
  · have hbrace : isBlank (byte '{') = false := by decide
    have htext : objectText (bs.map f)
        = byte '{' :: (List.intercalate (ascii ",") (bs.map f) ++ byte '}' :: []) := by
      rw [objectText, List.append_assoc]
      rfl
    have hfuel : ∃ fuel, (objectText (bs.map f)).length = fuel + 2 := by
      refine ⟨(List.intercalate (ascii ",") (bs.map f)).length, ?_⟩
      rw [htext, List.length_cons, List.length_append]
      rfl
    obtain ⟨fuel, hfuel⟩ := hfuel
    have hitems := items_texts (show isBlank (byte '}') = false by decide) (by decide) bs
      (fun b hb => hreads b hb fuel) []
    rw [hfuel, htext, skip_of_stop hbrace, value, if_neg (by decide), if_pos rfl, hitems]
    cases bs.mapM g <;> rfl
  · rfl

/-- Objects are UTF-8 if their members are. -/
theorem valid_objectText (ts : List ByteString) :
    Utf8.valid (objectText ts) = ts.all Utf8.valid := by
  have htext : objectText ts = byte '{' :: (List.intercalate [byte ','] ts ++ byte '}' :: []) := by
    rw [objectText, List.append_assoc]
    rfl
  rw [htext, Utf8.valid_cons_ascii (by decide), Utf8.valid_append_ascii (by decide),
    Utf8.valid_intercalate (by decide)]
  exact Bool.and_true _

end JsonText
