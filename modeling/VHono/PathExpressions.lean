import VHono.ByteScan

/-! # Expressions for paths

    The regular expressions that path patterns are translated to: literal
    bytes, special ones behind a backslash, `.`, `[^/]`, named groups `(?P<name>[^/]+)`, and a star
    after any of them, between the anchors `^` and `$`.  A star repeats the item
    before it, a second star adds nothing, and a star with nothing before it
    stands for itself.

    `Reads` is what such an expression matches and captures; `allReads` finds
    every way to read a text. -/

namespace PathExpressions

open ByteString

inductive Item
  | lit (b : UInt8)
  | dot
  | nonSlash
  | group (name : ByteString)
  deriving DecidableEq

structure Token where
  item    : Item
  starred : Bool
  deriving DecidableEq

/-! ## What is matched -/

def Item.accepts : Item → ByteString → Bool
  | .lit b, s => s == [b]
  | .dot, s => s.length == 1
  | .nonSlash, s => s.length == 1 && decide (byte '/' ∉ s)
  | .group _, s => s != [] && decide (byte '/' ∉ s)

/-- The repetitions of an item. -/
def Item.acceptsMany : Item → ByteString → Bool
  | .lit b, s => s.all (· == b)
  | .dot, _ => true
  | .nonSlash, s => decide (byte '/' ∉ s)
  | .group _, s => decide (byte '/' ∉ s)

def Token.accepts (t : Token) (s : ByteString) : Bool :=
  if t.starred then t.item.acceptsMany s else t.item.accepts s

abbrev Captures := List (ByteString × ByteString)

def Token.capture (t : Token) (s : ByteString) : Captures :=
  match t.item with
  | .group name => [(name, s)]
  | _ => []

/-- A whole text read by the tokens one after another, with what the groups captured. -/
inductive Reads : List Token → ByteString → Captures → Prop
  | nil : Reads [] [] []
  | cons {t : Token} {ts : List Token} {s rest : ByteString} {caps : Captures} :
      t.accepts s = true → Reads ts rest caps → Reads (t :: ts) (s ++ rest) (t.capture s ++ caps)

/-- Every way to read a text. -/
def allReads : List Token → ByteString → List Captures
  | [], s => if s = [] then [[]] else []
  | t :: ts, s =>
    (List.range (s.length + 1)).flatMap (fun k =>
      if t.accepts (s.take k) then (allReads ts (s.drop k)).map (t.capture (s.take k) ++ ·) else [])

theorem mem_allReads {ts : List Token} {s : ByteString} {caps : Captures} :
    caps ∈ allReads ts s ↔ Reads ts s caps := by
  constructor
  · intro h
    induction ts generalizing s caps with
    | nil =>
        rw [allReads] at h
        split at h
        · rename_i hs
          rw [hs, List.mem_singleton.mp h]
          exact .nil
        · cases h
    | cons t ts ih =>
        obtain ⟨k, -, hk⟩ := List.mem_flatMap.mp h
        split at hk
        · rename_i haccepts
          obtain ⟨rest, hrest, rfl⟩ := List.mem_map.mp hk
          have hreads := Reads.cons haccepts (ih hrest)
          rwa [List.take_append_drop] at hreads
        · cases hk
  · intro h
    induction h with
    | nil => exact List.mem_singleton.mpr rfl
    | @cons t ts s rest caps haccepts _ ih =>
        refine List.mem_flatMap.mpr ⟨s.length, List.mem_range.mpr ?_, ?_⟩
        · rw [List.length_append]
          omega
        · have htake : (s ++ rest).take s.length = s := List.take_left
          have hdrop : (s ++ rest).drop s.length = rest := List.drop_left
          rw [htake, hdrop, if_pos haccepts]
          exact List.mem_map.mpr ⟨caps, ih, rfl⟩

/-- A list of tokens reads what its parts read one after the other. -/
theorem reads_append {ts us : List Token} {s : ByteString} {caps : Captures} :
    Reads (ts ++ us) s caps ↔ ∃ a b c d, s = a ++ b ∧ caps = c ++ d ∧ Reads ts a c ∧ Reads us b d := by
  constructor
  · intro h
    induction ts generalizing s caps with
    | nil => exact ⟨[], s, [], caps, rfl, rfl, .nil, h⟩
    | cons t ts ih =>
        cases h with
        | @cons _ _ x rest caps haccepts hrest =>
            obtain ⟨a, b, c, d, rfl, rfl, ha, hb⟩ := ih hrest
            exact ⟨x ++ a, b, t.capture x ++ c, d, (List.append_assoc ..).symm,
              (List.append_assoc ..).symm, .cons haccepts ha, hb⟩
  · rintro ⟨a, b, c, d, rfl, rfl, ha, hb⟩
    induction ha with
    | nil => exact hb
    | cons haccepts _ ih =>
        rw [List.append_assoc, List.append_assoc]
        exact .cons haccepts ih

theorem reads_singleton {t : Token} {s : ByteString} {caps : Captures} :
    Reads [t] s caps ↔ t.accepts s = true ∧ caps = t.capture s := by
  constructor
  · intro h
    cases h with
    | cons haccepts hrest =>
        cases hrest
        rw [List.append_nil, List.append_nil]
        exact ⟨haccepts, rfl⟩
  · rintro ⟨haccepts, rfl⟩
    have hreads := Reads.cons haccepts .nil
    rwa [List.append_nil, List.append_nil] at hreads

theorem reads_nil {s : ByteString} {caps : Captures} : Reads [] s caps ↔ s = [] ∧ caps = [] := by
  constructor
  · intro h
    cases h
    exact ⟨rfl, rfl⟩
  · rintro ⟨rfl, rfl⟩
    exact .nil

theorem reads_lits {text s : ByteString} {caps : Captures} :
    Reads (text.map (fun b => ⟨.lit b, false⟩)) s caps ↔ s = text ∧ caps = [] := by
  induction text generalizing s caps with
  | nil => exact reads_nil
  | cons b text ih =>
      have hsplit : (b :: text).map (fun b => (⟨.lit b, false⟩ : Token))
          = [⟨.lit b, false⟩] ++ text.map (fun b => ⟨.lit b, false⟩) := rfl
      rw [hsplit, reads_append]
      constructor
      · rintro ⟨x, y, c, d, rfl, rfl, hx, hy⟩
        obtain ⟨haccepts, rfl⟩ := reads_singleton.mp hx
        obtain ⟨rfl, rfl⟩ := ih.mp hy
        have hx' : x = [b] := beq_iff_eq.mp haccepts
        rw [hx']
        exact ⟨rfl, rfl⟩
      · rintro ⟨rfl, rfl⟩
        exact ⟨[b], text, [], [], rfl, rfl, reads_singleton.mpr ⟨beq_self_eq_true [b], rfl⟩,
          ih.mpr ⟨rfl, rfl⟩⟩

theorem reads_group {name s : ByteString} {caps : Captures} :
    Reads [⟨.group name, false⟩] s caps ↔ (s ≠ [] ∧ byte '/' ∉ s) ∧ caps = [(name, s)] := by
  rw [reads_singleton]
  show (s != [] && decide (byte '/' ∉ s)) = true ∧ caps = [(name, s)] ↔ _
  rw [Bool.and_eq_true, bne_iff_ne, decide_eq_true_eq]

/-! ## Reading an expression -/

/-- A piece of an expression, before the stars are attached. -/
inductive Mark
  | item (i : Item)
  | star
  deriving DecidableEq

def Mark.groupName : Mark → Option ByteString
  | .item (.group name) => some name
  | _ => none

/-- The tokens from a pending item on. -/
def attachStars : Item → Bool → List Mark → List Token
  | i, starred, [] => [⟨i, starred⟩]
  | i, _, .star :: ms => attachStars i true ms
  | i, starred, .item j :: ms => ⟨i, starred⟩ :: attachStars j false ms

def tokensOf : List Mark → List Token
  | [] => []
  | .item i :: ms => attachStars i false ms
  | .star :: ms => attachStars (.lit (byte '*')) false ms

/-- Without stars every item is a token. -/
theorem attachStars_items (items : List Item) (i : Item) (starred : Bool) :
    attachStars i starred (items.map .item) = ⟨i, starred⟩ :: items.map (⟨·, false⟩) := by
  induction items generalizing i starred with
  | nil => rfl
  | cons j items ih => exact congrArg (⟨i, starred⟩ :: ·) (ih j false)

theorem tokensOf_items (items : List Item) :
    tokensOf (items.map .item) = items.map (⟨·, false⟩) := by
  cases items with
  | nil => rfl
  | cons i items => exact attachStars_items items i false

/-- An item ends the stars before it. -/
theorem attachStars_append (ms more : List Mark) (i j : Item) (starred : Bool) :
    attachStars i starred (ms ++ .item j :: more)
      = attachStars i starred ms ++ attachStars j false more := by
  induction ms generalizing i starred with
  | nil => rfl
  | cons m ms ih =>
      cases m with
      | star => exact ih i true
      | item k => exact congrArg (⟨i, starred⟩ :: ·) (ih k false)

/-- A shortest text of an item. -/
def Item.sample : Item → ByteString
  | .lit b => [b]
  | _ => [byte 'a']

def Mark.sample : Mark → ByteString
  | .item i => i.sample
  | .star => []

def sampleMarks (ms : List Mark) : ByteString := ms.flatMap Mark.sample

theorem accepts_sample (i : Item) (starred : Bool) :
    Token.accepts ⟨i, starred⟩ i.sample = true := by
  cases starred <;> cases i <;> simp [Token.accepts, Item.accepts, Item.acceptsMany, Item.sample] <;>
    decide

/-- Every token is read once. -/
theorem reads_sample (ms : List Mark) (i : Item) (starred : Bool) :
    ∃ caps, Reads (attachStars i starred ms) (i.sample ++ sampleMarks ms) caps := by
  induction ms generalizing i starred with
  | nil => exact ⟨_, .cons (accepts_sample i starred) .nil⟩
  | cons m ms ih =>
      cases m with
      | star => exact ih i true
      | item j =>
          obtain ⟨caps, hcaps⟩ := ih j false
          exact ⟨_, .cons (accepts_sample i starred) hcaps⟩

/-- A starred token is left out. -/
theorem reads_without (ms : List Mark) (i : Item) :
    ∃ caps, Reads (attachStars i true ms) (sampleMarks ms) caps := by
  have hempty : Token.accepts ⟨i, true⟩ [] = true := by
    cases i <;> simp [Token.accepts, Item.acceptsMany]
  induction ms with
  | nil => exact ⟨_, .cons hempty .nil⟩
  | cons m ms ih =>
      cases m with
      | star => exact ih
      | item j =>
          obtain ⟨caps, hcaps⟩ := reads_sample ms j false
          have hreads := Reads.cons hempty hcaps
          exact ⟨_, hreads⟩

/-- The bytes that stand for themselves only behind a backslash. -/
def metaBytes : List UInt8 :=
  ['?', '+', '.', '(', ')', '[', ']', '\x7b', '\x7d', '^', '$', '|'].map byte

/-- The marks of a text; the counter skips the bytes of a mark already read. -/
def readMarks : Nat → ByteString → Option (List Mark)
  | _, [] => some []
  | skip + 1, _ :: s => readMarks skip s
  | 0, b :: s =>
    if b = byte '\\' then
      match s.head? with
      | some c => if c ∈ metaBytes then (readMarks 1 s).map (.item (.lit c) :: ·) else none
      | none => none
    else if b = byte '*' then (readMarks 0 s).map (.star :: ·)
    else if b = byte '.' then (readMarks 0 s).map (.item .dot :: ·)
    else if startsWith (b :: s) (ascii "[^/]") then (readMarks 3 s).map (.item .nonSlash :: ·)
    else if startsWith (b :: s) (ascii "(?P<") then
      let name := (s.drop 3).takeWhile (· ≠ byte '>')
      if startsWith (s.drop (3 + name.length)) (ascii ">[^/]+)") then
        (readMarks (name.length + 10) s).map (.item (.group name) :: ·)
      else none
    else if b ∈ metaBytes then none
    else (readMarks 0 s).map (.item (.lit b) :: ·)

/-- The tokens of an expression between `^` and `$`. -/
def readAnchored (source : ByteString) : Option (List Token) :=
  if source.head? = some (byte '^') ∧ source.getLast? = some (byte '$') then
    (readMarks 0 source.tail.dropLast).map tokensOf
  else none

theorem readMarks_skip (k : Nat) (s : ByteString) : readMarks k s = readMarks 0 (s.drop k) := by
  induction k generalizing s with
  | zero => rfl
  | succ k ih =>
      cases s with
      | nil => rfl
      | cons b s => exact ih s

theorem readMarks_escaped {c : UInt8} (h : c ∈ metaBytes) (s : ByteString) :
    readMarks 0 (byte '\\' :: c :: s) = (readMarks 0 s).map (.item (.lit c) :: ·) := by
  rw [readMarks, if_pos rfl]
  exact if_pos h

theorem readMarks_star (s : ByteString) :
    readMarks 0 (byte '*' :: s) = (readMarks 0 s).map (.star :: ·) := by
  rw [readMarks, if_neg (by decide), if_pos rfl]

theorem readMarks_lit {b : UInt8} (hmeta : b ∉ metaBytes) (hstar : b ≠ byte '*')
    (hbackslash : b ≠ byte '\\') (s : ByteString) :
    readMarks 0 (b :: s) = (readMarks 0 s).map (.item (.lit b) :: ·) := by
  have hne : ∀ c ∈ metaBytes, (c == b) = false := fun c hc =>
    beq_eq_false_iff_ne.mpr (fun h => hmeta (h ▸ hc))
  have hbracket : startsWith (b :: s) (ascii "[^/]") = false := by
    show (byte '[' == b && _) = false
    rw [hne (byte '[') (by decide), Bool.false_and]
  have hparen : startsWith (b :: s) (ascii "(?P<") = false := by
    show (byte '(' == b && _) = false
    rw [hne (byte '(') (by decide), Bool.false_and]
  have hdot : b ≠ byte '.' := fun h => hmeta (h ▸ by decide)
  rw [readMarks, if_neg hbackslash, if_neg hstar, if_neg hdot, hbracket, hparen,
    if_neg Bool.false_ne_true, if_neg Bool.false_ne_true, if_neg hmeta]

theorem readMarks_group {name : ByteString} (h : byte '>' ∉ name) (s : ByteString) :
    readMarks 0 (ascii "(?P<" ++ (name ++ (ascii ">[^/]+)" ++ s)))
      = (readMarks 0 s).map (.item (.group name) :: ·) := by
  have htake : (name ++ (ascii ">[^/]+)" ++ s)).takeWhile (· ≠ byte '>') = name := by
    have hall : ∀ b ∈ name, decide (b ≠ byte '>') = true :=
      fun b hb => decide_eq_true (fun heq => h (heq ▸ hb))
    rw [takeWhile_append_all hall]
    exact List.append_nil name
  have hdrop : (name ++ (ascii ">[^/]+)" ++ s)).drop name.length = ascii ">[^/]+)" ++ s :=
    List.drop_left
  have hrest : (ascii "?P<" ++ (name ++ (ascii ">[^/]+)" ++ s))).drop (name.length + 10) = s := by
    have hlen : name.length + 10 = (ascii "?P<" ++ (name ++ ascii ">[^/]+)")).length := by
      rw [List.length_append, List.length_append]
      show name.length + 10 = 3 + (name.length + 7)
      omega
    rw [hlen]
    have happend : ascii "?P<" ++ (name ++ (ascii ">[^/]+)" ++ s))
        = ascii "?P<" ++ (name ++ ascii ">[^/]+)") ++ s := by simp only [List.append_assoc]
    rw [happend]
    exact List.drop_left
  show readMarks 0 (byte '(' :: (ascii "?P<" ++ (name ++ (ascii ">[^/]+)" ++ s)))) = _
  have hbracket : startsWith (byte '(' :: (ascii "?P<" ++ (name ++ (ascii ">[^/]+)" ++ s))))
      (ascii "[^/]") = false := rfl
  have hparen : startsWith (byte '(' :: (ascii "?P<" ++ (name ++ (ascii ">[^/]+)" ++ s))))
      (ascii "(?P<") = true := startsWith_append (ascii "(?P<") _
  rw [readMarks, if_neg (by decide), if_neg (by decide), if_neg (by decide), hbracket,
    if_neg Bool.false_ne_true, if_pos hparen]
  have htail : (ascii "?P<" ++ (name ++ (ascii ">[^/]+)" ++ s))).drop 3
      = name ++ (ascii ">[^/]+)" ++ s) := rfl
  dsimp only
  rw [htail, htake, ← List.drop_drop, htail, hdrop, if_pos (startsWith_append _ _), readMarks_skip,
    hrest]

end PathExpressions
