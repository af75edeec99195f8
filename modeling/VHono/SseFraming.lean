import VHono.ChunkedStream
import VHono.EventStream

/-! # Server-sent events on a stream

    `write_sse` puts its fields into lines as they are.  The data is split at
    line feeds only, so a carriage return that no line feed follows ends a line
    of its own, and the name and the id may hold any byte.  The size of the data
    that the lines carry tells when nothing of it was lost. -/

namespace VHono

open ByteString EventStream

/-- What `write_sse` writes. -/
def sseText (event : SSEEvent) : ByteString := (sseStrings event).flatten

/-- The event that a recipient should see: the data up to line ends, and the fields that are set. -/
def SSEEvent.message (event : SSEEvent) : Message where
  data := normalise event.data
  name := event.event
  id := if event.id = [] then none else some event.id
  retry := if event.retry > 0 then some event.retry else none

/-- Each carriage return comes before a line feed. -/
def NoStray (s : ByteString) : Prop := ∀ a b, s = a ++ 13 :: b → b.head? = some 10

/-- Nothing in the name and the id ends a line, and in the data only what comes back. -/
structure SSEEvent.Clean (event : SSEEvent) : Prop where
  name : (13 : UInt8) ∉ event.event ∧ (10 : UInt8) ∉ event.event
  data : NoStray event.data
  id   : (13 : UInt8) ∉ event.id ∧ (10 : UInt8) ∉ event.id ∧ (0 : UInt8) ∉ event.id

/-! ## Stray carriage returns -/

theorem noStray_cons {b : UInt8} {s : ByteString} :
    NoStray (b :: s) ↔ (b = 13 → s.head? = some 10) ∧ NoStray s := by
  constructor
  · intro h
    refine ⟨fun hb => h [] s (by rw [hb]; rfl), fun a c heq => h (b :: a) c (by rw [heq]; rfl)⟩
  · rintro ⟨hfirst, hrest⟩ a c heq
    cases a with
    | nil =>
        obtain ⟨rfl, rfl⟩ := List.cons.inj heq
        exact hfirst rfl
    | cons a' a =>
        obtain ⟨-, hs⟩ := List.cons.inj heq
        exact hrest a c hs

theorem length_addToFirst (b : UInt8) {pieces : List ByteString} (h : pieces ≠ []) :
    (addToFirst b pieces).length = pieces.length := by
  obtain ⟨piece, rest, rfl⟩ := List.exists_cons_of_ne_nil h
  rfl

/-- A line end for each line feed, and one more for each stray carriage return. -/
theorem cut_length (s : ByteString) : s.count 10 + 1 ≤ (cut s).length ∧
    (NoStray s ↔ (cut s).length = s.count 10 + 1) := by
  induction s with
  | nil => exact ⟨le_rfl, iff_of_true (fun a b h => absurd h (by simp)) rfl⟩
  | cons b s ih =>
      obtain ⟨hle, hiff⟩ := ih
      rw [noStray_cons, cut_cons, hiff]
      by_cases hlf : b = 10
      · subst hlf
        rw [if_pos (Or.inl rfl), List.count_cons_self, List.length_cons]
        exact ⟨by omega, by simp⟩
      · rw [List.count_cons_of_ne hlf]
        by_cases hcr : b = 13
        · subst hcr
          by_cases hhead : s.head? = some 10
          · rw [if_neg (by simp [hhead]), if_pos rfl]
            exact ⟨hle, by simp [hhead]⟩
          · rw [if_pos (Or.inr ⟨rfl, hhead⟩), List.length_cons]
            exact ⟨by omega, iff_of_false (fun h => hhead (h.1 rfl)) (by omega)⟩
        · rw [if_neg (by simp [hlf, hcr]), if_neg hcr, length_addToFirst b (cut_ne_nil s)]
          exact ⟨hle, by simp [hcr]⟩

/-! ## Splitting at line feeds -/

theorem splitStr_lf_cons (p rest : ByteString) (hp : (10 : UInt8) ∉ p) :
    splitStr (p ++ 10 :: rest) (ascii "\n") = p :: splitStr rest (ascii "\n") :=
  splitFrom_append hp

theorem splitStr_lf_plain {p : ByteString} (hp : (10 : UInt8) ∉ p) : splitStr p (ascii "\n") = [p] := by
  induction p with
  | nil => rfl
  | cons b p ih =>
      have hb : (10 == b) = false := beq_eq_false_iff_ne.mpr (fun h => hp (h ▸ List.mem_cons_self))
      have hrest := ih (fun h => hp (List.mem_cons_of_mem _ h))
      have hstart : startsWith (b :: p) (ascii "\n") = false := by
        rw [show ascii "\n" = [10] from rfl, startsWith_cons, hb, Bool.false_and]
      rw [splitStr] at hrest ⊢
      rw [splitFrom, if_neg (by rw [hstart]; decide), hrest]

/-! ## The lines of the data -/

/-- The lines of `data: ` fields. -/
def dataLines (pieces : List ByteString) : List ByteString :=
  (pieces.map (fun line => ascii "data: " ++ line ++ ascii "\n")).flatMap lines

/-- The bytes of the data, each line with its end. -/
def lineSizes (pieces : List ByteString) : Nat := (pieces.map (fun line => line.length + 1)).sum

/-- A label stands in the first line. -/
theorem lines_labelled {label s : ByteString} (hcr : (13 : UInt8) ∉ label) (hlf : (10 : UInt8) ∉ label)
    {first : ByteString} {rest : List ByteString} (h : lines (s ++ [10]) = first :: rest) :
    lines (label ++ s ++ ascii "\n") = (label ++ first) :: rest := by
  have hcut : cut (s ++ [10]) = first :: (rest ++ [(cut (s ++ [10])).getLast (cut_ne_nil _)]) := by
    conv_lhs => rw [← List.dropLast_append_getLast (cut_ne_nil (s ++ [10])),
      show (cut (s ++ [10])).dropLast = first :: rest from h]
    rfl
  rw [lines, List.append_assoc, show ascii "\n" = [10] from rfl, cut_plain_append hcr hlf hcut,
    List.dropLast_cons_of_ne_nil (by simp), List.dropLast_concat]

theorem lines_data {s : ByteString} {first : ByteString} {rest : List ByteString}
    (h : lines (s ++ [10]) = first :: rest) :
    lines (ascii "data: " ++ s ++ ascii "\n") = (ascii "data: " ++ first) :: rest :=
  lines_labelled (by decide) (by decide) h

theorem dataSize_data (line : ByteString) : dataSize (ascii "data: " ++ line) = line.length + 1 := rfl

theorem dataSize_le_lineSizes (pieces : List ByteString) :
    (pieces.map dataSize).sum + pieces.length ≤ lineSizes pieces := by
  induction pieces with
  | nil => exact le_rfl
  | cons line pieces ih =>
      have hline := dataSize_lt line
      rw [lineSizes, List.map_cons, List.sum_cons, List.map_cons, List.sum_cons, List.length_cons,
        ← lineSizes]
      omega

theorem lineSizes_append (a b : List ByteString) : lineSizes (a ++ b) = lineSizes a + lineSizes b := by
  rw [lineSizes, List.map_append, List.sum_append]
  rfl

theorem lineSizes_cons (line : ByteString) (pieces : List ByteString) :
    lineSizes (line :: pieces) = line.length + 1 + lineSizes pieces := by
  rw [lineSizes, List.map_cons, List.sum_cons]
  rfl

/-- What the lines of some data read as: each line of it, or they carry less than it. -/
def ReadsAs (read : List ByteString) (pieces whole : List ByteString) : Prop :=
  (whole.length = pieces.length ∧ read = whole.map (fun line => ascii "data: " ++ line)) ∨
  (pieces.length < whole.length ∧ (read.map dataSize).sum < lineSizes whole)

/-- One piece, which a line feed ends. -/
theorem readsAs_piece (p : ByteString) :
    ReadsAs (dataLines [p]) [p] (lines (p ++ [10])) := by
  obtain ⟨first, rest, heq⟩ := List.exists_cons_of_ne_nil (lines_ne_nil p)
  rw [dataLines, List.map_singleton, List.flatMap_singleton, lines_data heq, heq]
  cases rest with
  | nil => exact Or.inl ⟨rfl, rfl⟩
  | cons line rest =>
      have hless := dataSize_le_lineSizes (line :: rest)
      refine Or.inr ⟨by simp, ?_⟩
      rw [List.map_cons, List.sum_cons, dataSize_data, lineSizes_cons first]
      rw [List.length_cons] at hless
      omega

theorem ReadsAs.sizes {read pieces whole : List ByteString} (h : ReadsAs read pieces whole) :
    (read.map dataSize).sum ≤ lineSizes whole := by
  rcases h with ⟨-, rfl⟩ | ⟨-, hless⟩
  · rw [List.map_map]
    exact le_rfl
  · exact Nat.le_of_lt hless

theorem ReadsAs.append {read pieces whole read' pieces' whole' : List ByteString}
    (h : ReadsAs read pieces whole) (h' : ReadsAs read' pieces' whole') :
    ReadsAs (read ++ read') (pieces ++ pieces') (whole ++ whole') := by
  have hsizes := h.sizes
  have hsizes' := h'.sizes
  rcases h with ⟨hlen, hread⟩ | ⟨hlen, hless⟩
  · rcases h' with ⟨hlen', hread'⟩ | ⟨hlen', hless'⟩
    · exact Or.inl ⟨by rw [List.length_append, List.length_append, hlen, hlen'],
        by rw [hread, hread', List.map_append]⟩
    · refine Or.inr ⟨by rw [List.length_append, List.length_append]; omega, ?_⟩
      rw [List.map_append, List.sum_append, lineSizes_append]
      omega
  · refine Or.inr ⟨?_, ?_⟩
    · rw [List.length_append, List.length_append]
      rcases h' with ⟨hlen', -⟩ | ⟨hlen', -⟩ <;> omega
    · rw [List.map_append, List.sum_append, lineSizes_append]
      omega

theorem dataLines_cons (p : ByteString) (pieces : List ByteString) :
    dataLines (p :: pieces) = dataLines [p] ++ dataLines pieces := by
  rw [dataLines, dataLines, dataLines, ← List.flatMap_append, ← List.map_append]
  rfl

/-- The data of an event. -/
theorem readsAs_data (data : ByteString) :
    ReadsAs (dataLines (splitStr data (ascii "\n"))) (splitStr data (ascii "\n")) (cut data) := by
  induction hn : data.length using Nat.strongRecOn generalizing data with
  | ind n ih =>
      by_cases hlf : (10 : UInt8) ∈ data
      · obtain ⟨p, rest, rfl, hp⟩ := List.eq_append_cons_of_mem hlf
        have hrest := ih rest.length (by rw [← hn, List.length_append, List.length_cons]; omega) rest rfl
        rw [splitStr_lf_cons p rest hp, dataLines_cons, cut_append]
        exact (readsAs_piece p).append hrest
      · rw [splitStr_lf_plain hlf]
        rcases cut_or hlf with h | h
        · rw [h]
          exact readsAs_piece data
        · -- the line after the last carriage return is lost
          rw [h]
          have hpiece := readsAs_piece data
          have hsizes := hpiece.sizes
          refine Or.inr ⟨?_, ?_⟩
          · have hpos : 0 < (lines (data ++ [10])).length := List.length_pos_iff.mpr (lines_ne_nil data)
            rw [List.length_append, List.length_singleton, List.length_singleton]
            omega
          · rw [lineSizes_append]
            have hone : lineSizes [[]] = 1 := rfl
            omega

theorem length_splitStr_lf (data : ByteString) :
    (splitStr data (ascii "\n")).length = data.count 10 + 1 := by
  induction hn : data.length using Nat.strongRecOn generalizing data with
  | ind n ih =>
      by_cases hlf : (10 : UInt8) ∈ data
      · obtain ⟨p, rest, rfl, hp⟩ := List.eq_append_cons_of_mem hlf
        have hrest := ih rest.length (by rw [← hn, List.length_append, List.length_cons]; omega) rest rfl
        rw [splitStr_lf_cons p rest hp, List.length_cons, hrest, List.count_append,
          List.count_cons_self, List.count_eq_zero_of_not_mem hp]
        omega
      · rw [splitStr_lf_plain hlf, List.count_eq_zero_of_not_mem hlf]
        rfl

/-- Data without stray carriage returns is read, and other data is cut short. -/
theorem data_read (data : ByteString) :
    (NoStray data → dataLines (splitStr data (ascii "\n"))
      = (cut data).map (fun line => ascii "data: " ++ line)) ∧
    (¬ NoStray data →
      ((dataLines (splitStr data (ascii "\n"))).map dataSize).sum < lineSizes (cut data)) := by
  have hlen := (cut_length data).2
  rw [← length_splitStr_lf] at hlen
  rcases readsAs_data data with ⟨heq, hread⟩ | ⟨hlt, hless⟩
  · exact ⟨fun _ => hread, fun h => absurd (hlen.mpr heq) h⟩
  · exact ⟨fun h => absurd (hlen.mp h) (by omega), fun _ => hless⟩

/-! ## The lines of an event -/

def nameStrings (event : SSEEvent) : List ByteString :=
  if event.event.length > 0 then [ascii "event: " ++ event.event ++ ascii "\n"] else []

def idStrings (event : SSEEvent) : List ByteString :=
  if event.id.length > 0 then [ascii "id: " ++ event.id ++ ascii "\n"] else []

def retryStrings (event : SSEEvent) : List ByteString :=
  if event.retry > 0 then [ascii "retry: " ++ intStr event.retry ++ ascii "\n"] else []

/-- The lines before the empty one. -/
def fieldLines (event : SSEEvent) : List ByteString :=
  (nameStrings event).flatMap lines ++ dataLines (splitStr event.data (ascii "\n"))
    ++ (idStrings event).flatMap lines ++ (retryStrings event).flatMap lines

/-- A text that a line feed ends. -/
def Ended (s : ByteString) : Prop := ∃ t, s = t ++ [10]

theorem lines_ended {s : ByteString} (h : Ended s) (t : ByteString) :
    lines (s ++ t) = lines s ++ lines t := by
  obtain ⟨u, rfl⟩ := h
  rw [List.append_assoc]
  exact lines_append u t

theorem lines_flatten {strings : List ByteString} (h : ∀ s ∈ strings, Ended s) (t : ByteString) :
    lines (strings.flatten ++ t) = strings.flatMap lines ++ lines t := by
  induction strings with
  | nil => rfl
  | cons s strings ih =>
      rw [List.flatten_cons, List.append_assoc, lines_ended (h s List.mem_cons_self),
        ih (fun s' hs' => h s' (List.mem_cons_of_mem _ hs')), List.flatMap_cons, List.append_assoc]

theorem ended_of_mem (event : SSEEvent) : ∀ s ∈ sseStrings event, Ended s := by
  have hlabelled (label value : ByteString) : Ended (label ++ value ++ ascii "\n") := ⟨_, rfl⟩
  intro s hs
  rw [sseStrings] at hs
  simp only [List.mem_append, List.mem_map] at hs
  rcases hs with (((hs | ⟨line, -, rfl⟩) | hs) | hs) | hs
  · split at hs
    · exact List.mem_singleton.mp hs ▸ hlabelled _ _
    · exact absurd hs List.not_mem_nil
  · exact hlabelled _ _
  · split at hs
    · exact List.mem_singleton.mp hs ▸ hlabelled _ _
    · exact absurd hs List.not_mem_nil
  · split at hs
    · exact List.mem_singleton.mp hs ▸ hlabelled _ _
    · exact absurd hs List.not_mem_nil
  · exact List.mem_singleton.mp hs ▸ ⟨[], rfl⟩

theorem lines_sseText (event : SSEEvent) (t : ByteString) :
    lines (sseText event ++ t) = fieldLines event ++ [[]] ++ lines t := by
  rw [sseText, lines_flatten (ended_of_mem event), sseStrings]
  simp only [List.flatMap_append]
  rfl

theorem lines_sseTexts (events : List SSEEvent) :
    lines (events.flatMap sseText) = events.flatMap (fun event => fieldLines event ++ [[]]) := by
  induction events with
  | nil => rfl
  | cons event events ih => rw [List.flatMap_cons, lines_sseText, ih, List.flatMap_cons]

/-- No line end is in a line. -/
theorem plain_fieldLines (event : SSEEvent) :
    ∀ line ∈ fieldLines event ++ [[]], (13 : UInt8) ∉ line ∧ (10 : UInt8) ∉ line := by
  intro line hline
  have hmem : line ∈ lines (sseText event ++ []) := by
    rw [lines_sseText]
    exact List.mem_append_left _ hline
  exact plain_of_mem_lines hmem

/-! ## One event -/

/-- What the block of an event is read as. -/
def readEvent (event : SSEEvent) : List Message := (feed .empty (fieldLines event ++ [[]])).2

theorem line_data (st : Buffers) (line : ByteString) :
    st.line (ascii "data: " ++ line) = ({ st with data := st.data ++ line ++ [10] }, []) := rfl

theorem feed_dataLines (st : Buffers) (whole : List ByteString) :
    feed st (whole.map (fun line => ascii "data: " ++ line))
      = ({ st with data := st.data ++ whole.flatMap (fun line => line ++ [10]) }, []) := by
  induction whole generalizing st with
  | nil => rw [List.flatMap_nil, List.append_nil]; rfl
  | cons line whole ih =>
      rw [List.map_cons, feed, line_data]
      dsimp only
      rw [ih]
      simp

theorem flatMap_lf {whole : List ByteString} (h : whole ≠ []) :
    whole.flatMap (fun line => line ++ [10]) = [10].intercalate whole ++ [10] := by
  induction whole with
  | nil => exact absurd rfl h
  | cons line whole ih =>
      cases whole with
      | nil => simp [List.intercalate]
      | cons line' whole =>
          rw [List.flatMap_cons, ih (List.cons_ne_nil _ _)]
          simp [List.intercalate]

/-- Each event is read at least once, since its first data line is. -/
theorem readEvent_ne_nil (event : SSEEvent) : readEvent event ≠ [] := by
  obtain ⟨p, pieces, hpieces⟩ := List.exists_cons_of_ne_nil
    (show splitStr event.data (ascii "\n") ≠ [] from
      List.ne_nil_of_length_pos (by rw [length_splitStr_lf]; exact Nat.succ_pos _))
  obtain ⟨first, rest, heq⟩ := List.exists_cons_of_ne_nil (lines_ne_nil p)
  have hdata : dataLines (splitStr event.data (ascii "\n"))
      = (ascii "data: " ++ first) :: (rest ++ dataLines pieces) := by
    rw [hpieces, dataLines_cons, dataLines, List.map_singleton, List.flatMap_singleton,
      lines_data heq, List.cons_append]
  rw [readEvent, fieldLines, hdata]
  simp only [List.append_assoc, List.cons_append]
  rw [feed_append]
  refine List.append_ne_nil_of_right_ne_nil _ ?_
  rw [feed, line_data]
  simp only [← List.append_assoc]
  exact feed_dispatches (by simp) _

/-! ## Fields that end no line -/

theorem lines_plain {s : ByteString} (hcr : (13 : UInt8) ∉ s) (hlf : (10 : UInt8) ∉ s) :
    lines (s ++ [10]) = [s] := by
  rw [lines, cut_plain_append hcr hlf (show cut [10] = [] :: [[]] from rfl), List.append_nil]
  rfl

theorem nameLines {event : SSEEvent} (h : (13 : UInt8) ∉ event.event ∧ (10 : UInt8) ∉ event.event) :
    (nameStrings event).flatMap lines =
      if event.event.length > 0 then [ascii "event: " ++ event.event] else [] := by
  rw [nameStrings]
  split
  · rw [List.flatMap_singleton, lines_labelled (by decide) (by decide) (lines_plain h.1 h.2)]
  · rfl

theorem idLines {event : SSEEvent} (h : (13 : UInt8) ∉ event.id ∧ (10 : UInt8) ∉ event.id) :
    (idStrings event).flatMap lines =
      if event.id.length > 0 then [ascii "id: " ++ event.id] else [] := by
  rw [idStrings]
  split
  · rw [List.flatMap_singleton, lines_labelled (by decide) (by decide) (lines_plain h.1 h.2)]
  · rfl

/-- A printed number ends no line. -/
theorem plain_intStr (n : Int) : (13 : UInt8) ∉ intStr n ∧ (10 : UInt8) ∉ intStr n := by
  refine ⟨fun h => ?_, fun h => ?_⟩ <;> rcases mem_intStr h with h | h <;> exact absurd h (by decide)

theorem retryLines (event : SSEEvent) : (retryStrings event).flatMap lines =
    if event.retry > 0 then [ascii "retry: " ++ intStr event.retry] else [] := by
  have hplain := plain_intStr event.retry
  rw [retryStrings]
  split
  · rw [List.flatMap_singleton, lines_labelled (by decide) (by decide) (lines_plain hplain.1 hplain.2)]
  · rfl

/-- The fields other than the data carry none of it. -/
theorem sum_fieldLines {event : SSEEvent}
    (hname : (13 : UInt8) ∉ event.event ∧ (10 : UInt8) ∉ event.event)
    (hid : (13 : UInt8) ∉ event.id ∧ (10 : UInt8) ∉ event.id) :
    ((fieldLines event ++ [[]]).map dataSize).sum
      = ((dataLines (splitStr event.data (ascii "\n"))).map dataSize).sum := by
  have hname0 : (((nameStrings event).flatMap lines).map dataSize).sum = 0 := by
    rw [nameLines hname]
    split <;> rfl
  have hid0 : (((idStrings event).flatMap lines).map dataSize).sum = 0 := by
    rw [idLines hid]
    split <;> rfl
  have hretry0 : (((retryStrings event).flatMap lines).map dataSize).sum = 0 := by
    rw [retryLines]
    split <;> rfl
  have hblank : (([[]] : List ByteString).map dataSize).sum = 0 := rfl
  rw [fieldLines]
  simp only [List.map_append, List.sum_append]
  omega

theorem lineSizes_eq {whole : List ByteString} (h : whole ≠ []) :
    lineSizes whole = ([10].intercalate whole).length + 1 := by
  have hflat : (whole.flatMap (fun line => line ++ [10])).length = lineSizes whole := by
    rw [List.length_flatMap, lineSizes]
    simp
  rw [← hflat, flatMap_lf h, List.length_append, List.length_singleton]

/-- A block whose message carries all the data has no stray carriage return in it. -/
theorem noStray_of_read {event : SSEEvent}
    (hname : (13 : UInt8) ∉ event.event ∧ (10 : UInt8) ∉ event.event)
    (hid : (13 : UInt8) ∉ event.id ∧ (10 : UInt8) ∉ event.id)
    (h : readEvent event = [event.message]) : NoStray event.data := by
  by_contra hstray
  have hless := (data_read event.data).2 hstray
  have hsize := feed_size .empty (fieldLines event ++ [[]])
  rw [sum_fieldLines hname hid, show (feed .empty (fieldLines event ++ [[]])).2 = [event.message] from h,
    feed_blank] at hsize
  rw [lineSizes_eq (cut_ne_nil _)] at hless
  have hmessage : messageSize [event.message] = (normalise event.data).length + 1 := rfl
  rw [hmessage, normalise] at hsize
  simp only [Buffers.empty, List.length_nil] at hsize
  omega

/-! ## Clean events -/

theorem line_name (st : Buffers) (value : ByteString) :
    st.line (ascii "event: " ++ value) = ({ st with name := value }, []) := rfl

theorem line_id (st : Buffers) {value : ByteString} (h : (0 : UInt8) ∉ value) :
    st.line (ascii "id: " ++ value) = ({ st with id := some value }, []) := by
  have hline : st.line (ascii "id: " ++ value) = (if 0 ∈ value then st else { st with id := some value }, []) :=
    rfl
  rw [hline, if_neg h]

theorem line_retry (st : Buffers) {n : Int} (h : 0 < n) :
    st.line (ascii "retry: " ++ intStr n) = ({ st with retry := some n }, []) := by
  have hread : readDecimal (intStr n) = some n.toNat := by
    rw [readDecimal_intStr, if_pos (Int.le_of_lt h)]
  have hline : st.line (ascii "retry: " ++ intStr n)
      = (st.setField (ascii "retry") (intStr n), []) := rfl
  have hfield : st.setField (ascii "retry") (intStr n)
      = { st with retry := some (n.toNat : Int) } := by
    rw [Buffers.setField, if_neg (by decide), if_neg (by decide), if_neg (by decide), if_pos rfl,
      hread]
  rw [hline, hfield, Int.toNat_of_nonneg (Int.le_of_lt h)]

theorem feed_single (st st' : Buffers) (line : ByteString) (h : st.line line = (st', [])) :
    feed st [line] = (st', []) := by
  rw [feed, h]
  rfl

theorem feed_name (event : SSEEvent) : feed .empty
    (if event.event.length > 0 then [ascii "event: " ++ event.event] else [])
      = ({ Buffers.empty with name := event.event }, []) := by
  split
  · exact feed_single _ _ _ (line_name _ _)
  · rename_i hnone
    rw [List.length_eq_zero_iff.mp (Nat.eq_zero_of_not_pos hnone)]
    rfl

theorem feed_id {event : SSEEvent} (h : (0 : UInt8) ∉ event.id) {st : Buffers} (hst : st.id = none) :
    feed st (if event.id.length > 0 then [ascii "id: " ++ event.id] else [])
      = ({ st with id := event.message.id }, []) := by
  split
  · rename_i hsome
    rw [SSEEvent.message, if_neg (List.ne_nil_of_length_pos hsome)]
    exact feed_single _ _ _ (line_id st h)
  · rename_i hnone
    rw [SSEEvent.message, if_pos (List.length_eq_zero_iff.mp (Nat.eq_zero_of_not_pos hnone)), ← hst]
    rfl

theorem feed_retry (event : SSEEvent) {st : Buffers} (hst : st.retry = none) :
    feed st (if event.retry > 0 then [ascii "retry: " ++ intStr event.retry] else [])
      = ({ st with retry := event.message.retry }, []) := by
  split
  · rename_i hsome
    have hretry : event.message.retry = some event.retry := if_pos hsome
    rw [hretry]
    exact feed_single _ _ _ (line_retry st hsome)
  · rename_i hnone
    have hretry : event.message.retry = none := if_neg hnone
    rw [hretry, ← hst]
    rfl

theorem readEvent_of_clean {event : SSEEvent} (h : event.Clean) :
    readEvent event = [event.message] := by
  have hlines : fieldLines event ++ [[]] =
      (if event.event.length > 0 then [ascii "event: " ++ event.event] else []) ++
      ((cut event.data).map (fun line => ascii "data: " ++ line) ++
      ((if event.id.length > 0 then [ascii "id: " ++ event.id] else []) ++
      ((if event.retry > 0 then [ascii "retry: " ++ intStr event.retry] else []) ++ [[]]))) := by
    rw [fieldLines, nameLines h.name, idLines ⟨h.id.1, h.id.2.1⟩, retryLines,
      (data_read event.data).1 h.data]
    simp only [List.append_assoc]
  have hdata : [] ++ (cut event.data).flatMap (fun line => line ++ [10])
      = normalise event.data ++ [10] := flatMap_lf (cut_ne_nil _)
  rw [readEvent, hlines, feed_append, feed_name, feed_append, feed_dataLines, feed_append]
  dsimp only [Buffers.empty]
  rw [hdata, feed_id h.id.2.2 rfl, feed_append, feed_retry event rfl]
  simp [feed, Buffers.line, SSEEvent.message]

theorem clean_of_read {event : SSEEvent} (h : readEvent event = [event.message]) : event.Clean := by
  have hplain := feed_plain (plain_fieldLines event) plain_empty event.message
    (show event.message ∈ readEvent event from h ▸ List.mem_singleton.mpr rfl)
  obtain ⟨hname, hid⟩ := hplain
  have hid' : (13 : UInt8) ∉ event.id ∧ (10 : UInt8) ∉ event.id ∧ (0 : UInt8) ∉ event.id := by
    by_cases hnil : event.id = []
    · rw [hnil]
      exact ⟨List.not_mem_nil, List.not_mem_nil, List.not_mem_nil⟩
    · exact hid event.id (if_neg hnil)
  exact ⟨hname, noStray_of_read hname ⟨hid'.1, hid'.2.1⟩ h, hid'⟩

/-! ## All events -/

/-- Where each gives something, all give what is expected only if each does. -/
theorem flatMap_eq_map {α β : Type} {f : α → List β} {g : α → β} (hf : ∀ x, f x ≠ []) :
    ∀ {xs : List α}, xs.flatMap f = xs.map g ↔ ∀ x ∈ xs, f x = [g x] := by
  have hlength : ∀ xs : List α, xs.length ≤ (xs.flatMap f).length := by
    intro xs
    induction xs with
    | nil => exact le_rfl
    | cons x xs ih =>
        have hpos : 0 < (f x).length := List.length_pos_iff.mpr (hf x)
        rw [List.flatMap_cons, List.length_append, List.length_cons]
        omega
  intro xs
  induction xs with
  | nil => exact iff_of_true rfl (List.forall_mem_nil _)
  | cons x xs ih =>
      rw [List.flatMap_cons, List.map_cons, List.forall_mem_cons, ← ih]
      constructor
      · intro h
        obtain ⟨y, ys, hy⟩ := List.exists_cons_of_ne_nil (hf x)
        rw [hy, List.cons_append] at h
        obtain ⟨rfl, hrest⟩ := List.cons.inj h
        -- a second one would make them too many
        have hnil : ys = [] := by
          have hlen := congrArg List.length hrest
          have hle := hlength xs
          rw [List.length_append, List.length_map] at hlen
          exact List.eq_nil_of_length_eq_zero (by omega)
        rw [hnil, List.nil_append] at hrest
        exact ⟨by rw [hy, hnil], hrest⟩
      · rintro ⟨hx, hrest⟩
        rw [hx, hrest]
        rfl

theorem feed_events (events : List SSEEvent) :
    feed .empty (events.flatMap (fun event => fieldLines event ++ [[]]))
      = (.empty, events.flatMap readEvent) := by
  induction events with
  | nil => rfl
  | cons event events ih =>
      rw [List.flatMap_cons, feed_append, feed_blank, ih]
      rfl

/-- A text that begins with a letter has no byte order mark. -/
theorem stripMark_sseTexts (events : List SSEEvent) :
    stripMark (events.flatMap sseText) = events.flatMap sseText := by
  cases events with
  | nil => rfl
  | cons event events =>
      obtain ⟨s, rest, hstrings, hs⟩ : ∃ s rest, sseStrings event = s :: rest ∧
          ∃ b t, s = b :: t ∧ b ≠ 0xEF := by
        rw [sseStrings]
        split
        · exact ⟨_, _, rfl, _, _, rfl, by decide⟩
        · obtain ⟨p, pieces, hpieces⟩ := List.exists_cons_of_ne_nil
            (show splitStr event.data (ascii "\n") ≠ [] from
              List.ne_nil_of_length_pos (by rw [length_splitStr_lf]; exact Nat.succ_pos _))
          rw [hpieces]
          exact ⟨_, _, rfl, _, _, rfl, by decide⟩
      obtain ⟨b, t, rfl, hb⟩ := hs
      have hfirst : (0xEF == b) = false := beq_eq_false_iff_ne.mpr (Ne.symm hb)
      rw [List.flatMap_cons, sseText, hstrings, List.flatten_cons, List.cons_append,
        List.cons_append, stripMark, startsWith_cons, hfirst, Bool.false_and,
        if_neg Bool.false_ne_true]

theorem streamData_writeSse (events : List SSEEvent) :
    streamData (events.map .writeSse) = events.flatMap sseText := by
  rw [streamData, List.flatMap_map]
  rfl

theorem parse_writeSse (events : List SSEEvent) :
    parse (streamData (events.map .writeSse)) = events.flatMap readEvent := by
  rw [streamData_writeSse, parse, stripMark_sseTexts, lines_sseTexts, feed_events]

/-- **EVENTS ARE FRAMED** exactly if all of them are clean.  What is on the socket reads as their
    texts, and these as the events. -/
theorem events_framed_iff (events : List SSEEvent) :
    (∀ sends closes, 0 < closes →
      (streamWriter sends (events.map .writeSse) closes).AllSent →
      ChunkedCoding.decode (streamWriter sends (events.map .writeSse) closes).wire
        = some (streamData (events.map .writeSse), [])) ∧
    (parse (streamData (events.map .writeSse)) = events.map SSEEvent.message ↔
      ∀ event ∈ events, event.Clean) := by
  refine ⟨?_, ?_⟩
  · intro sends closes hcloses hsent
    obtain ⟨n, rfl⟩ := Nat.exists_eq_succ_of_ne_zero hcloses.ne'
    rcases closed_stream sends (events.map .writeSse) n with ⟨hdecode, -⟩ | hbroken
    · exact hdecode
    · exact absurd hsent hbroken.silent.1
  · rw [parse_writeSse, flatMap_eq_map readEvent_ne_nil]
    exact ⟨fun h event hmem => clean_of_read (h event hmem),
      fun h event hmem => readEvent_of_clean (h event hmem)⟩

/-- Data with a carriage return in it loses what comes after. -/
theorem stray_return_cuts : parse (streamData ([⟨ascii "a\rb", [], [], 0⟩].map .writeSse)) ≠
    [⟨ascii "a\rb", [], [], 0⟩].map SSEEvent.message := by
  decide

/-- A name with line ends in it makes an event of its own. -/
example : parse (streamData
      ([⟨ascii "x", ascii "a\ndata: forged\n\n", [], 0⟩].map .writeSse)) =
    [⟨ascii "forged", ascii "a", none, none⟩, ⟨ascii "x", [], none, none⟩] := by
  decide

end VHono
