import VHono.ByteDecimals
import VHono.ByteScan
import Mathlib.Tactic

/-! # Event streams

    The grammar of `text/event-stream`: CR, LF and CRLF end a line, a line is a
    comment or a field with a value, and an empty line dispatches what the
    fields before it collected.  Texts that end with a line feed are read one
    after the other, and a text that ends with an empty line leaves nothing to
    the next. -/

namespace EventStream

open ByteString

/-! ## Lines -/

def addToFirst (b : UInt8) : List ByteString → List ByteString
  | [] => [[b]]
  | piece :: pieces => (b :: piece) :: pieces

/-- The text between the line ends; a carriage return before a line feed is a part of it. -/
def cut : ByteString → List ByteString
  | [] => [[]]
  | b :: s =>
      if b = 10 ∨ (b = 13 ∧ s.head? ≠ some 10) then [] :: cut s
      else if b = 13 then cut s
      else addToFirst b (cut s)

/-- The lines that are ended. -/
def lines (s : ByteString) : List ByteString := (cut s).dropLast

/-- All line ends become line feeds. -/
def normalise (s : ByteString) : ByteString := [10].intercalate (cut s)

/-! ## Fields and events -/

/-- An event as it is dispatched, with the fields of its own block; an empty name is that of a
    message. -/
structure Message where
  data  : ByteString
  name  : ByteString
  id    : Option ByteString
  retry : Option Int
  deriving DecidableEq, Repr

/-- What was collected since the last empty line. -/
structure Buffers where
  data  : ByteString
  name  : ByteString
  id    : Option ByteString
  retry : Option Int
  deriving DecidableEq, Repr

def Buffers.empty : Buffers := ⟨[], [], none, none⟩

/-- The name before the first colon, and the value after it and a space. -/
def fieldOf (line : ByteString) : ByteString × ByteString :=
  let rest := (line.dropWhile (fun b => b != byte ':')).drop 1
  (line.takeWhile (fun b => b != byte ':'), if rest.head? = some 32 then rest.drop 1 else rest)

/-- A field, by its name. -/
def Buffers.setField (st : Buffers) (name value : ByteString) : Buffers :=
  if name = ascii "event" then { st with name := value }
  else if name = ascii "data" then { st with data := st.data ++ value ++ [10] }
  else if name = ascii "id" then if 0 ∈ value then st else { st with id := some value }
  else if name = ascii "retry" then
    match readDecimal value with
    | some n => { st with retry := some n }
    | none => st
  else st

/-- One line; an event without data is not dispatched. -/
def Buffers.line (st : Buffers) (line : ByteString) : Buffers × List Message :=
  if line = [] then
    (.empty, if st.data = [] then [] else [⟨st.data.dropLast, st.name, st.id, st.retry⟩])
  else if line.head? = some (byte ':') then (st, [])
  else (st.setField (fieldOf line).1 (fieldOf line).2, [])

/-- Line after line. -/
def feed : Buffers → List ByteString → Buffers × List Message
  | st, [] => (st, [])
  | st, line :: lines =>
      let after := st.line line
      let rest := feed after.1 lines
      (rest.1, after.2 ++ rest.2)

/-- A byte order mark may come first. -/
def stripMark (s : ByteString) : ByteString := if startsWith s [0xEF, 0xBB, 0xBF] then s.drop 3 else s

def parse (s : ByteString) : List Message := (feed .empty (lines (stripMark s))).2

/-! ## Lines of texts -/

theorem cut_cons (b : UInt8) (s : ByteString) : cut (b :: s) =
    if b = 10 ∨ (b = 13 ∧ s.head? ≠ some 10) then [] :: cut s
    else if b = 13 then cut s
    else addToFirst b (cut s) :=
  rfl

theorem cut_ne_nil (s : ByteString) : cut s ≠ [] := by
  induction s with
  | nil => exact List.cons_ne_nil _ _
  | cons b s ih =>
      rw [cut]
      split
      · exact List.cons_ne_nil _ _
      · split
        · exact ih
        · obtain ⟨piece, pieces, heq⟩ := List.exists_cons_of_ne_nil ih
          rw [heq]
          exact List.cons_ne_nil _ _

theorem addToFirst_append (b : UInt8) {pieces : List ByteString} (h : pieces ≠ [])
    (more : List ByteString) : addToFirst b (pieces ++ more) = addToFirst b pieces ++ more := by
  obtain ⟨piece, rest, rfl⟩ := List.exists_cons_of_ne_nil h
  rfl

/-- The last piece may be the first. -/
theorem dropLast_addToFirst (b : UInt8) {pieces : List ByteString} (h : pieces.dropLast ≠ []) :
    (addToFirst b pieces).dropLast = addToFirst b pieces.dropLast := by
  have hne : pieces ≠ [] := by
    rintro rfl
    exact h rfl
  conv_lhs => rw [← List.dropLast_append_getLast hne, addToFirst_append b h, List.dropLast_concat]

theorem addToFirst_ne_nil (b : UInt8) (pieces : List ByteString) : addToFirst b pieces ≠ [] := by
  cases pieces with
  | nil => exact List.cons_ne_nil _ _
  | cons piece pieces => exact List.cons_ne_nil _ _

/-- What comes after a line feed does not change how the bytes before it are read. -/
theorem head_append_lf (s t : ByteString) : (s ++ 10 :: t).head? = (s ++ [10]).head? := by
  cases s with
  | nil => rfl
  | cons b s => rfl

theorem lines_ne_nil (s : ByteString) : lines (s ++ [10]) ≠ [] := by
  induction s with
  | nil => exact List.cons_ne_nil _ _
  | cons b s ih =>
      rw [lines, List.cons_append, cut]
      split
      · rw [List.dropLast_cons_of_ne_nil (cut_ne_nil _)]
        exact List.cons_ne_nil _ _
      · split
        · exact ih
        · rw [dropLast_addToFirst b ih]
          exact addToFirst_ne_nil _ _

/-- A text that a line feed ends does not touch what comes after it. -/
theorem cut_append (s t : ByteString) : cut (s ++ 10 :: t) = lines (s ++ [10]) ++ cut t := by
  induction s with
  | nil => rfl
  | cons b s ih =>
      rw [lines, List.cons_append, List.cons_append, cut, cut, head_append_lf s t, ih]
      split
      · rw [List.dropLast_cons_of_ne_nil (cut_ne_nil _)]
        rfl
      · split
        · rfl
        · rw [addToFirst_append b (lines_ne_nil s), dropLast_addToFirst b (lines_ne_nil s)]
          rfl

theorem lines_append (s t : ByteString) : lines (s ++ 10 :: t) = lines (s ++ [10]) ++ lines t := by
  rw [lines, cut_append, List.dropLast_append_of_ne_nil (cut_ne_nil t), lines, lines]

theorem cut_plain {s : ByteString} (hcr : (13 : UInt8) ∉ s) (hlf : (10 : UInt8) ∉ s) : cut s = [s] := by
  induction s with
  | nil => rfl
  | cons b s ih =>
      have hb13 : b ≠ 13 := fun h => hcr (h ▸ List.mem_cons_self)
      have hb10 : b ≠ 10 := fun h => hlf (h ▸ List.mem_cons_self)
      rw [cut, if_neg (by simp [hb13, hb10]), if_neg hb13,
        ih (fun h => hcr (List.mem_cons_of_mem _ h)) (fun h => hlf (List.mem_cons_of_mem _ h))]
      rfl

theorem cut_plain_append {pre s : ByteString} (hcr : (13 : UInt8) ∉ pre) (hlf : (10 : UInt8) ∉ pre)
    {first : ByteString} {rest : List ByteString} (h : cut s = first :: rest) :
    cut (pre ++ s) = (pre ++ first) :: rest := by
  induction pre with
  | nil => exact h
  | cons b pre ih =>
      have hb13 : b ≠ 13 := fun hb => hcr (hb ▸ List.mem_cons_self)
      have hb10 : b ≠ 10 := fun hb => hlf (hb ▸ List.mem_cons_self)
      rw [List.cons_append, cut, if_neg (by simp [hb13, hb10]), if_neg hb13,
        ih (fun hm => hcr (List.mem_cons_of_mem _ hm)) (fun hm => hlf (List.mem_cons_of_mem _ hm))]
      rfl

/-- No line holds a line end. -/
theorem plain_of_mem_cut {s line : ByteString} (h : line ∈ cut s) :
    (13 : UInt8) ∉ line ∧ (10 : UInt8) ∉ line := by
  induction s generalizing line with
  | nil =>
      obtain rfl := List.mem_singleton.mp h
      exact ⟨List.not_mem_nil, List.not_mem_nil⟩
  | cons b s ih =>
      rw [cut] at h
      split at h
      · rcases List.mem_cons.mp h with rfl | hmem
        · exact ⟨List.not_mem_nil, List.not_mem_nil⟩
        · exact ih hmem
      · rename_i hend
        split at h
        · exact ih h
        · rename_i hcr
          push Not at hend
          obtain ⟨piece, pieces, heq⟩ := List.exists_cons_of_ne_nil (cut_ne_nil s)
          rw [heq] at h
          rcases List.mem_cons.mp h with rfl | hmem
          · obtain ⟨hpiece13, hpiece10⟩ := ih (heq ▸ List.mem_cons_self)
            simp only [List.mem_cons, not_or]
            exact ⟨⟨Ne.symm hcr, hpiece13⟩, Ne.symm hend.1, hpiece10⟩
          · exact ih (heq ▸ List.mem_cons_of_mem _ hmem)

theorem plain_of_mem_lines {s line : ByteString} (h : line ∈ lines s) :
    (13 : UInt8) ∉ line ∧ (10 : UInt8) ∉ line :=
  plain_of_mem_cut (List.mem_of_mem_dropLast h)

/-- A text without line feeds, and the same text ended by one: a carriage return at its end is
    a line end of its own, or a part of one. -/
theorem cut_or {s : ByteString} (hlf : (10 : UInt8) ∉ s) :
    cut s = lines (s ++ [10]) ∨ cut s = lines (s ++ [10]) ++ [[]] := by
  induction s with
  | nil => exact Or.inl rfl
  | cons b s ih =>
      have hrest := ih (fun h => hlf (List.mem_cons_of_mem _ h))
      cases s with
      | nil =>
          by_cases hb : b = 13
          · rw [hb]
            exact Or.inr rfl
          · have hb10 : b ≠ 10 := fun h => hlf (h ▸ List.mem_cons_self)
            have hcr : (13 : UInt8) ∉ [b] := fun h => hb (List.mem_singleton.mp h).symm
            have hline : lines ([b] ++ [10]) = [[b]] := by
              rw [lines, cut_plain_append hcr hlf (show cut [10] = [] :: [[]] from rfl)]
              rfl
            rw [hline, cut_plain hcr hlf]
            exact Or.inl rfl
      | cons c s =>
          have hhead : (c :: s ++ [10]).head? = (c :: s).head? := rfl
          rw [lines, List.cons_append, cut_cons b (c :: s), cut_cons b (c :: s ++ [10]), hhead]
          split
          · rw [List.dropLast_cons_of_ne_nil (cut_ne_nil _)]
            rcases hrest with h | h
            · exact Or.inl (congrArg _ h)
            · exact Or.inr (congrArg _ h)
          · split
            · exact hrest
            · rw [dropLast_addToFirst b (lines_ne_nil (c :: s))]
              rcases hrest with h | h
              · exact Or.inl (congrArg _ h)
              · rw [h, addToFirst_append b (lines_ne_nil (c :: s))]
                exact Or.inr rfl

/-! ## Feeding -/

theorem feed_append (st : Buffers) (before after : List ByteString) :
    feed st (before ++ after) = ((feed (feed st before).1 after).1,
      (feed st before).2 ++ (feed (feed st before).1 after).2) := by
  induction before generalizing st with
  | nil => rfl
  | cons line before ih =>
      rw [List.cons_append, feed, ih]
      simp only [feed, List.append_assoc]

/-- An empty line leaves nothing. -/
theorem feed_blank (st : Buffers) (before : List ByteString) :
    (feed st (before ++ [[]])).1 = .empty := by
  rw [feed_append]
  rfl

theorem setField_data_ne {st : Buffers} (h : st.data ≠ []) (name value : ByteString) :
    (st.setField name value).data ≠ [] := by
  rw [Buffers.setField]
  split
  · exact h
  · split
    · exact List.append_ne_nil_of_right_ne_nil _ (List.cons_ne_nil _ _)
    · split
      · split <;> exact h
      · split
        · split <;> exact h
        · exact h

/-- Once there is data, an empty line dispatches it. -/
theorem feed_dispatches {st : Buffers} (h : st.data ≠ []) (before : List ByteString) :
    (feed st (before ++ [[]])).2 ≠ [] := by
  induction before generalizing st with
  | nil =>
      rw [List.nil_append, feed, Buffers.line, if_pos rfl, if_neg h]
      exact List.cons_ne_nil _ _
  | cons line before ih =>
      rw [List.cons_append, feed]
      by_cases hline : line = []
      · rw [Buffers.line, if_pos hline, if_neg h]
        exact List.cons_ne_nil _ _
      · rw [Buffers.line, if_neg hline]
        split
        · exact List.append_ne_nil_of_right_ne_nil _ (ih h)
        · exact List.append_ne_nil_of_right_ne_nil _ (ih (setField_data_ne h _ _))

/-! ## How much data lines carry -/

/-- The bytes that a line adds to the data. -/
def dataSize (line : ByteString) : Nat :=
  if (fieldOf line).1 = ascii "data" then (fieldOf line).2.length + 1 else 0

/-- The bytes of the data of messages, each with its line end. -/
def messageSize (messages : List Message) : Nat :=
  (messages.map (fun message => message.data.length + 1)).sum

theorem setField_size (st : Buffers) (line : ByteString) :
    (st.setField (fieldOf line).1 (fieldOf line).2).data.length ≤ st.data.length + dataSize line := by
  rw [Buffers.setField, dataSize]
  split
  · exact Nat.le_add_right _ _
  · split
    · rw [List.length_append, List.length_append, List.length_singleton, Nat.add_assoc]
    · split
      · split <;> exact Nat.le_add_right _ _
      · split
        · split <;> exact Nat.le_add_right _ _
        · exact Nat.le_add_right _ _

theorem line_size (st : Buffers) (line : ByteString) :
    messageSize (st.line line).2 + (st.line line).1.data.length
      ≤ st.data.length + dataSize line := by
  rw [Buffers.line]
  split
  · split
    · exact Nat.zero_le _
    · rename_i hdata
      have hpos : 0 < st.data.length := List.length_pos_iff.mpr hdata
      simp only [messageSize, List.map_cons, List.map_nil, List.sum_cons, List.sum_nil,
        List.length_dropLast, Buffers.empty, List.length_nil]
      omega
  · split
    · exact (Nat.zero_add _).le.trans (Nat.le_add_right _ _)
    · exact (Nat.zero_add _).le.trans (setField_size st line)

/-- No more data comes out than the lines carry. -/
theorem feed_size (st : Buffers) (fed : List ByteString) :
    messageSize (feed st fed).2 + (feed st fed).1.data.length
      ≤ st.data.length + (fed.map dataSize).sum := by
  induction fed generalizing st with
  | nil =>
      show 0 + st.data.length ≤ st.data.length + 0
      omega
  | cons line fed ih =>
      have hline := line_size st line
      have hrest := ih (st.line line).1
      rw [feed, List.map_cons, List.sum_cons]
      have hsum : messageSize ((st.line line).2 ++ (feed (st.line line).1 fed).2)
          = messageSize (st.line line).2 + messageSize (feed (st.line line).1 fed).2 := by
        rw [messageSize, List.map_append, List.sum_append]
        rfl
      dsimp only
      rw [hsum]
      omega

/-- A line carries less than itself. -/
theorem dataSize_lt (line : ByteString) : dataSize line < line.length + 1 := by
  rw [dataSize]
  split
  · rename_i hname
    have hsplit : (line.takeWhile (fun b => b != byte ':')).length
        + (line.dropWhile (fun b => b != byte ':')).length = line.length := by
      rw [← List.length_append, List.takeWhile_append_dropWhile]
    have hfour : (line.takeWhile (fun b => b != byte ':')).length = 4 := congrArg List.length hname
    have hvalue : (fieldOf line).2.length ≤ (line.dropWhile (fun b => b != byte ':')).length := by
      rw [fieldOf]
      dsimp only
      split
      · rw [List.length_drop, List.length_drop]
        omega
      · rw [List.length_drop]
        omega
    omega
  · exact Nat.succ_pos _

/-! ## What names and ids hold -/

/-- No line end stands in the name or in the id, and no NUL in the id. -/
def Plain (name : ByteString) (id : Option ByteString) : Prop :=
  ((13 : UInt8) ∉ name ∧ (10 : UInt8) ∉ name) ∧
  ∀ s, id = some s → (13 : UInt8) ∉ s ∧ (10 : UInt8) ∉ s ∧ (0 : UInt8) ∉ s

theorem plain_empty : Plain [] none := ⟨⟨List.not_mem_nil, List.not_mem_nil⟩, nofun⟩

/-- A value is a part of its line. -/
theorem mem_of_mem_value {line : ByteString} {b : UInt8} (h : b ∈ (fieldOf line).2) : b ∈ line := by
  rw [fieldOf] at h
  dsimp only at h
  split at h
  · exact (List.dropWhile_suffix _).mem (List.mem_of_mem_drop (List.mem_of_mem_drop h))
  · exact (List.dropWhile_suffix _).mem (List.mem_of_mem_drop h)

theorem setField_plain {st : Buffers} (h : Plain st.name st.id) (name : ByteString)
    {value : ByteString} (hcr : (13 : UInt8) ∉ value) (hlf : (10 : UInt8) ∉ value) :
    Plain (st.setField name value).name (st.setField name value).id := by
  rw [Buffers.setField]
  split
  · exact ⟨⟨hcr, hlf⟩, h.2⟩
  · split
    · exact h
    · split
      · split
        · exact h
        · rename_i hnul
          refine ⟨h.1, fun s hs => ?_⟩
          obtain rfl := Option.some.inj hs
          exact ⟨hcr, hlf, hnul⟩
      · split
        · split <;> exact h
        · exact h

theorem feed_plain {fed : List ByteString}
    (hfed : ∀ line ∈ fed, (13 : UInt8) ∉ line ∧ (10 : UInt8) ∉ line) {st : Buffers}
    (h : Plain st.name st.id) : ∀ message ∈ (feed st fed).2, Plain message.name message.id := by
  induction fed generalizing st with
  | nil => exact List.forall_mem_nil _
  | cons line fed ih =>
      obtain ⟨hline, hrest⟩ := List.forall_mem_cons.mp hfed
      rw [feed, Buffers.line]
      split
      · refine List.forall_mem_append.mpr ⟨?_, ih hrest plain_empty⟩
        split
        · exact List.forall_mem_nil _
        · exact List.forall_mem_singleton.mpr h
      · split
        · exact ih hrest h
        · exact ih hrest (setField_plain h _ (fun hm => hline.1 (mem_of_mem_value hm))
            (fun hm => hline.2 (mem_of_mem_value hm)))

end EventStream
