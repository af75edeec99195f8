import VHono.Context
import Mathlib.Data.List.TakeWhile

/-! # Query strings

    What a query says: its items stand between `&`, an item is cut at its first
    `=`, an item with an empty key says nothing, and of two items with one key
    the later one counts.  The query loop, which walks once over a range of a
    buffer and keeps positions only, computes exactly that. -/

namespace VHono

open ByteString

/-! ## The reference -/

/-- The key of an item. -/
def itemKey (item : ByteString) : ByteString := item.takeWhile (· != byte '=')

/-- What stands after the first `=`; nothing without one. -/
def itemValue (item : ByteString) : ByteString := (item.dropWhile (· != byte '=')).tail

/-- An item with a key is written over what the items before it said. -/
def writeItem (m : InsertionMap ByteString ByteString) (item : ByteString) :
    InsertionMap ByteString ByteString :=
  if itemKey item = [] then m else m.insert (itemKey item) (itemValue item)

/-- The query that a text says. -/
def queryOf (text : ByteString) : InsertionMap ByteString ByteString :=
  (splitStr text [byte '&']).foldl writeItem .empty

/-! ## Cutting at a byte -/

section Cut

variable {c : UInt8} {s : ByteString}

theorem bne_of_not_mem (h : c ∉ s) : ∀ b ∈ s, (b != c) = true :=
  fun _ hb => bne_iff_ne.mpr (fun heq => h (heq ▸ hb))

/-- A text is cut at the first place of a byte it holds. -/
theorem cut_first (h : c ∈ s) :
    s = s.takeWhile (· != c) ++ c :: (s.dropWhile (· != c)).tail := by
  obtain ⟨before, after, hs, hbefore⟩ := List.eq_append_cons_of_mem h
  have hall := bne_of_not_mem hbefore
  have htake : s.takeWhile (· != c) = before := by
    rw [hs, takeWhile_append_all hall, List.takeWhile_cons_of_neg (by simp), List.append_nil]
  have hdrop : (s.dropWhile (· != c)).tail = after := by
    rw [hs, dropWhile_all hall, List.dropWhile_cons_of_neg (by simp), List.tail_cons]
  rw [htake, hdrop]
  exact hs

theorem not_mem_takeWhile : c ∉ s.takeWhile (· != c) :=
  fun h => absurd (List.mem_takeWhile_imp h) (by simp)

end Cut

/-! ## Items -/

/-- A text without `&` is one item. -/
theorem splitStr_item {item : ByteString} (h : byte '&' ∉ item) :
    splitStr item [byte '&'] = [item] := by
  induction item with
  | nil => rfl
  | cons b item ih =>
      obtain ⟨hb, hitem⟩ := not_or.mp (fun hmem => h (List.mem_cons.mpr hmem))
      have hstart : startsWith (b :: item) [byte '&'] = false := by
        rw [startsWith_cons, beq_eq_false_iff_ne.mpr hb, Bool.false_and]
      have hrest : splitFrom [byte '&'] 0 item = [item] := ih hitem
      rw [splitStr, splitFrom, if_neg (Bool.not_eq_true _ ▸ hstart), hrest]

/-- The first `&` of a text ends its first item. -/
theorem splitStr_items {item text : ByteString} (h : byte '&' ∉ item) :
    splitStr (item ++ byte '&' :: text) [byte '&'] = item :: splitStr text [byte '&'] :=
  splitFrom_append h

/-- A text is one item, or an item and, after a `&`, another text. -/
theorem first_item (text : ByteString) :
    byte '&' ∉ text ∨ ∃ item later, byte '&' ∉ item ∧ text = item ++ byte '&' :: later := by
  by_cases h : byte '&' ∈ text
  · obtain ⟨item, later, htext, hitem⟩ := List.eq_append_cons_of_mem h
    exact .inr ⟨item, later, hitem, htext⟩
  · exact .inl h

/-! ## The loop over one item -/

/-- A range with one of its positions named. -/
theorem range'_middle (i m n : Nat) :
    List.range' i (m + (n + 1)) = List.range' i m ++ (i + m) :: List.range' (i + m + 1) n := by
  rw [← List.range'_append_1, List.range'_succ]

theorem byteAt_append {raw a m rest : ByteString} {i : Nat} (hraw : raw = a ++ (m ++ rest))
    (hi : i < m.length) : byteAt raw (a.length + i) = m[i] := by
  rw [byteAt, hraw, List.getD_eq_getElem?_getD, List.getElem?_append_right (by omega),
    Nat.add_sub_cancel_left, List.getElem?_append_left hi, List.getElem?_eq_getElem hi,
    Option.getD_some]

/-- Positions that leave a state alone can be left out. -/
theorem foldl_still {raw : ByteString} {e : Nat} {st : QueryScan} :
    ∀ {positions : List Nat}, (∀ i ∈ positions, st.step raw e i = st) →
      positions.foldl (QueryScan.step raw e) st = st := by
  intro positions
  induction positions with
  | nil => exact fun _ => rfl
  | cons i positions ih =>
      intro h
      rw [List.foldl_cons, h i (List.mem_cons_self ..)]
      exact ih (fun j hj => h j (List.mem_cons_of_mem _ hj))

/-- What the loop knows of an item it has walked over. -/
def QueryScan.over (start : Nat) (item : ByteString) (query : InsertionMap ByteString ByteString) :
    QueryScan where
  keyStart := start
  keyEnd := if byte '=' ∈ item then some (start + (itemKey item).length) else none
  valueStart := if byte '=' ∈ item then some (start + (itemKey item).length + 1) else none
  query := query

section Item

variable {raw a item rest : ByteString} {e : Nat}

/-- Ordinary bytes leave the state alone. -/
theorem step_still {st : QueryScan} {i : Nat} (he : i < e) (hamp : byteAt raw i ≠ byte '&')
    (heq : byteAt raw i = byte '=' → st.keyEnd ≠ none) : st.step raw e i = st := by
  rw [QueryScan.step, if_pos he, if_neg (fun h => heq h.1 h.2), if_neg hamp]

/-- The walk over a run of ordinary bytes. -/
theorem foldl_ordinary {st : QueryScan} (hraw : raw = a ++ (item ++ rest))
    (he : a.length + item.length ≤ e) (hamp : byte '&' ∉ item)
    (heq : byte '=' ∈ item → st.keyEnd ≠ none) :
    (List.range' a.length item.length).foldl (QueryScan.step raw e) st = st := by
  refine foldl_still (fun i hi => ?_)
  obtain ⟨hlo, hhi⟩ := List.mem_range'_1.mp hi
  obtain ⟨k, rfl⟩ : ∃ k, i = a.length + k := ⟨i - a.length, by omega⟩
  have hk : k < item.length := by omega
  have hmem : item[k] ∈ item := List.getElem_mem hk
  refine step_still (by omega) ?_ ?_
  · rw [byteAt_append hraw hk]
    exact fun h => hamp (h ▸ hmem)
  · rw [byteAt_append hraw hk]
    exact fun h => heq (h ▸ hmem)

/-- An item without a `=` is a key. -/
theorem itemKey_of_not_mem (h : byte '=' ∉ item) : itemKey item = item :=
  List.takeWhile_eq_self_iff.mpr (bne_of_not_mem h)

theorem itemValue_of_not_mem (h : byte '=' ∉ item) : itemValue item = [] := by
  rw [itemValue, List.dropWhile_eq_nil_iff.mpr (bne_of_not_mem h)]
  rfl

/-- **ONE ITEM.**  The walk over an item ends in what the item says by position. -/
theorem foldl_item (hraw : raw = a ++ (item ++ rest)) (he : a.length + item.length ≤ e)
    (hamp : byte '&' ∉ item) (m : InsertionMap ByteString ByteString) :
    (List.range' a.length item.length).foldl (QueryScan.step raw e) ⟨a.length, none, none, m⟩
      = .over a.length item m := by
  by_cases heq : byte '=' ∈ item
  · have hcut : item = itemKey item ++ byte '=' :: itemValue item := cut_first heq
    rw [QueryScan.over, if_pos heq, if_pos heq]
    have hnot : byte '=' ∉ itemKey item := not_mem_takeWhile
    generalize itemKey item = key at hcut hnot ⊢
    generalize itemValue item = value at hcut
    subst hcut
    have hkey : raw = a ++ (key ++ (byte '=' :: value ++ rest)) := by
      rw [hraw, List.append_assoc]
    have hsign : raw = (a ++ key) ++ ([byte '='] ++ (value ++ rest)) := by
      rw [hkey, List.append_assoc]
      rfl
    have hvalue : raw = (a ++ key ++ [byte '=']) ++ (value ++ rest) := by
      rw [hsign, List.append_assoc (a ++ key)]
    simp only [List.length_append, List.length_cons] at he
    have hamp' := not_or.mp (fun h => hamp (List.mem_append.mpr h))
    have hlen : (a ++ key ++ [byte '=']).length = a.length + key.length + 1 := by
      simp only [List.length_append, List.length_cons, List.length_nil]
    have hstep : QueryScan.step raw e ⟨a.length, none, none, m⟩ (a.length + key.length)
        = ⟨a.length, some (a.length + key.length), some (a.length + key.length + 1), m⟩ := by
      have hbyte : byteAt raw ((a ++ key).length + 0) = byte '=' := byteAt_append hsign (by simp)
      rw [Nat.add_zero, List.length_append] at hbyte
      have hlt : a.length + key.length < e := by omega
      rw [QueryScan.step, if_pos hlt, hbyte, if_pos ⟨rfl, rfl⟩]
    rw [List.length_append, List.length_cons, range'_middle, List.foldl_append, List.foldl_cons,
      foldl_ordinary hkey (by omega) hamp'.1 (fun h => absurd h hnot), hstep, ← hlen]
    exact foldl_ordinary hvalue (by omega) (fun h => hamp'.2 (List.mem_cons_of_mem _ h))
      (fun _ => Option.some_ne_none _)
  · rw [QueryScan.over, if_neg heq, if_neg heq]
    exact foldl_ordinary hraw he hamp (fun h => absurd h heq)

/-- A separator after an item writes what the item says. -/
theorem close_item (hraw : raw = a ++ (item ++ rest)) (m : InsertionMap ByteString ByteString) :
    (QueryScan.over a.length item m).close raw (a.length + item.length) = writeItem m item := by
  by_cases heq : byte '=' ∈ item
  · have hcut : item = itemKey item ++ byte '=' :: itemValue item := cut_first heq
    rw [QueryScan.over, if_pos heq, if_pos heq, QueryScan.close, writeItem]
    dsimp only
    have hkey : raw = a ++ (itemKey item ++ (byte '=' :: itemValue item ++ rest)) := by
      rw [hraw]
      conv_lhs => rw [hcut, List.append_assoc]
    have hvalue : raw = (a ++ itemKey item ++ [byte '=']) ++ (itemValue item ++ rest) := by
      rw [hkey]
      simp only [List.append_assoc, List.cons_append, List.nil_append]
    have hlen := congrArg List.length hcut
    rw [List.length_append, List.length_cons] at hlen
    by_cases hnil : itemKey item = []
    · rw [if_pos hnil, if_neg (by simp [hnil])]
    · have hpos := List.length_pos_of_ne_nil hnil
      rw [if_neg hnil, if_pos (by omega), slice_eq hkey rfl rfl]
      congr 1
      by_cases hempty : itemValue item = []
      · rw [if_neg (by rw [hempty, List.length_nil] at hlen; omega), hempty]
      · have hposv := List.length_pos_of_ne_nil hempty
        rw [if_pos (by omega)]
        refine slice_eq hvalue ?_ ?_
        · simp only [List.length_append, List.length_cons, List.length_nil]
        · omega
  · rw [QueryScan.over, if_neg heq, if_neg heq, QueryScan.close, writeItem,
      itemKey_of_not_mem heq, itemValue_of_not_mem heq]
    dsimp only
    rw [slice_eq hraw rfl rfl]
    by_cases hitem : item = []
    · rw [if_pos hitem, if_neg (by simp [hitem])]
    · have hpos := List.length_pos_of_ne_nil hitem
      rw [if_neg hitem, if_pos (by omega)]

end Item

/-! ## The loop over a text -/

theorem step_close {raw : ByteString} {e i : Nat} {st : QueryScan}
    (h : i < e → byteAt raw i = byte '&') :
    st.step raw e i = ⟨i + 1, none, none, st.close raw i⟩ := by
  have hch : (if i < e then byteAt raw i else byte '&') = byte '&' := by
    by_cases hi : i < e
    · rw [if_pos hi, h hi]
    · rw [if_neg hi]
  rw [QueryScan.step, hch, if_neg (fun h => absurd h.1 (by decide)), if_pos rfl]

/-- **THE LOOP.**  From the start of a text on, it writes one item after the other. -/
theorem foldl_text {raw rest : ByteString} {e : Nat} (a text : ByteString)
    (m : InsertionMap ByteString ByteString) (hraw : raw = a ++ (text ++ rest))
    (he : e = a.length + text.length) :
    ((List.range' a.length (text.length + 1)).foldl (QueryScan.step raw e)
      ⟨a.length, none, none, m⟩).query = (splitStr text [byte '&']).foldl writeItem m := by
  induction hn : text.length using Nat.strongRecOn generalizing a text m with
  | ind n ih =>
      rw [← hn]
      rcases first_item text with hitem | ⟨item, later, hitem, rfl⟩
      · rw [splitStr_item hitem, range'_middle, List.foldl_append,
          foldl_item hraw (le_of_eq he.symm) hitem, List.foldl_cons, step_close (by omega),
          List.range'_zero, List.foldl_nil]
        exact close_item hraw m
      · -- the item, its separator, and the later items from a longer prefix
        have hfirst : raw = a ++ (item ++ (byte '&' :: later ++ rest)) := by
          rw [hraw, List.append_assoc]
        have hsep : raw = (a ++ item) ++ ([byte '&'] ++ (later ++ rest)) := by
          rw [hfirst, List.append_assoc]
          rfl
        have hlater : raw = (a ++ item ++ [byte '&']) ++ (later ++ rest) := by
          rw [hsep, List.append_assoc (a ++ item)]
        have hlen : (a ++ item ++ [byte '&']).length = a.length + item.length + 1 := by
          simp only [List.length_append, List.length_cons, List.length_nil]
        have hbyte : byteAt raw ((a ++ item).length + 0) = byte '&' :=
          byteAt_append hsep (by simp)
        rw [Nat.add_zero, List.length_append] at hbyte
        simp only [List.length_append, List.length_cons] at he hn ⊢
        rw [splitStr_items hitem, List.foldl_cons, Nat.add_assoc item.length, range'_middle,
          List.foldl_append, foldl_item hfirst (by omega) hitem, List.foldl_cons,
          step_close (fun _ => hbyte), close_item hfirst, ← hlen]
        exact ih later.length (by omega) _ later _ hlater (by omega) rfl

/-- The query loop reads a query. -/
theorem parseQueryRange_eq {raw a text rest : ByteString} (hraw : raw = a ++ (text ++ rest)) :
    parseQueryRange raw a.length (a.length + text.length) = queryOf text := by
  have hcount : a.length + text.length + 1 - a.length = text.length + 1 := by omega
  rw [parseQueryRange, hcount]
  exact foldl_text a text .empty hraw rfl

end VHono
