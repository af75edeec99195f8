import VHono.CheckedSlices
import VHono.TextSplits
import VHono.UsocketsRequest

/-! # The positions of the connection scan

    The scan for the `Connection:` field walks over a buffer by position.  Each
    of its reads is within the buffer, whatever the buffer is, and it ends; so
    it can be told as a walk over what lies behind a position. -/

namespace VHono

open ByteString CheckedSlices HttpGrammar

/-! ## The scan by position -/

/-- A line end at a position, with its two bytes. -/
def lineEndAt (raw : ByteString) (i : Nat) : Prop :=
  byteAt raw i = 13 ∧ i + 1 < raw.length ∧ byteAt raw (i + 1) = 10

instance lineEndAtDecidable (raw : ByteString) (i : Nat) : Decidable (lineEndAt raw i) :=
  inferInstanceAs (Decidable (_ ∧ _))

/-- The value behind a position says keep-alive. -/
def keepAliveBehind (raw : ByteString) (i : Nat) : Bool :=
  let valueStart := spanEnd (· == 32) raw i raw.length
  let valueEnd := spanEnd (fun b => b != 13 && b != 10) raw valueStart raw.length
  containsKeepAliveToken raw valueStart valueEnd

/-- A pass, from behind the line ends. -/
def keepAliveAt (raw : ByteString) (fuel i : Nat) : Bool :=
  if connectionAt raw i then keepAliveBehind raw (i + 11) else keepAliveFrom raw fuel (i + 1)

theorem keepAliveFrom_succ (raw : ByteString) (fuel i : Nat) :
    keepAliveFrom raw (fuel + 1) i =
      if i + 12 < raw.length then
        if lineEndAt raw i then
          if lineEndAt raw (i + 2) then false else keepAliveAt raw fuel (i + 2)
        else keepAliveAt raw fuel i
      else false := by
  rw [keepAliveFrom]
  show (if i + 12 < raw.length then
      let j := if lineEndAt raw i then i + 2 else i
      if lineEndAt raw i ∧ j + 1 < raw.length ∧ byteAt raw j = 13 ∧ byteAt raw (j + 1) = 10
      then false else keepAliveAt raw fuel j
    else false) = _
  by_cases hline : lineEndAt raw i
  · have hand : (lineEndAt raw i ∧ i + 2 + 1 < raw.length ∧ byteAt raw (i + 2) = 13 ∧
        byteAt raw (i + 2 + 1) = 10) ↔ lineEndAt raw (i + 2) :=
      ⟨fun h => ⟨h.2.2.1, h.2.1, h.2.2.2⟩, fun h => ⟨hline, h.2.1, h.1, h.2.2⟩⟩
    simp only [if_pos hline, hand]
  · simp only [hline, false_and, if_false]

/-! ## The reads of the scan -/

/-- The comparisons with the bytes of a text in lower case, up to the first that fails. -/
def bytesAt (raw : ByteString) : Nat → ByteString → Option Bool
  | _, [] => some true
  | i, c :: cs => do
      let b ← raw[i]?
      if lowerByte b = c then bytesAt raw (i + 1) cs else return false

/-- A loop that advances while a byte passes a test. -/
def spanChecked (test : UInt8 → Bool) (raw : ByteString) (e : Nat) : Nat → Nat → Option Nat
  | 0, _ => none
  | passes + 1, i =>
    if i < e then do
      let b ← raw[i]?
      if test b then spanChecked test raw e passes (i + 1) else return i
    else some i

def tokenChecked (raw : ByteString) (e : Nat) : Nat → Nat → Option Bool
  | 0, _ => none
  | passes + 1, i =>
    if i + 10 ≤ e then do
      let found ← bytesAt raw i (ascii "keep-alive")
      if found then return true else tokenChecked raw e passes (i + 1)
    else some false

def lineEndChecked (raw : ByteString) (i : Nat) : Option Bool := do
  let b ← raw[i]?
  if b = 13 ∧ i + 1 < raw.length then
    let b ← raw[i + 1]?
    return decide (b = 10)
  else return false

/-- The range of a value, and the search for the token in it. -/
def valueChecked (raw : ByteString) (i : Nat) : Option Bool := do
  let valueStart ← spanChecked (· == 32) raw raw.length (raw.length + 1) i
  let valueEnd ←
    spanChecked (fun b => b != 13 && b != 10) raw raw.length (raw.length + 1) valueStart
  tokenChecked raw valueEnd (raw.length + 1) valueStart

def blankChecked (raw : ByteString) (lineEnd : Bool) (i : Nat) : Option Bool :=
  if lineEnd ∧ i + 1 < raw.length then lineEndChecked raw i else some false

def connectionChecked (raw : ByteString) (i : Nat) : Option Bool := do
  let b ← raw[i]?
  if lowerByte b = byte 'c' ∧ i + 11 < raw.length then bytesAt raw i (ascii "connection:")
  else return false

/-- The scan with its reads: one out of bounds is a panic, which is `none`, and so is a loop that
    takes more passes. -/
def keepAliveChecked (raw : ByteString) : Nat → Nat → Option Bool
  | 0, _ => none
  | passes + 1, i =>
    if i + 12 < raw.length then do
      let lineEnd ← lineEndChecked raw i
      let i := if lineEnd then i + 2 else i
      let blank ← blankChecked raw lineEnd i
      if blank then return false
      else
        let found ← connectionChecked raw i
        if found then valueChecked raw (i + 11) else keepAliveChecked raw passes (i + 1)
    else some false

theorem getElem?_byteAt {raw : ByteString} {i : Nat} (hi : i < raw.length) :
    raw[i]? = some (byteAt raw i) := by
  rw [byteAt, List.getD_eq_getElem?_getD, List.getElem?_eq_getElem hi]
  rfl

theorem drop_byteAt {raw : ByteString} {i : Nat} (hi : i < raw.length) :
    raw.drop i = byteAt raw i :: raw.drop (i + 1) := by
  rw [List.drop_eq_getElem_cons hi]
  exact congrArg (· :: _) (Option.some.inj ((List.getElem?_eq_getElem hi).symm.trans
    (getElem?_byteAt hi)))

theorem slice_succ {raw : ByteString} {i e : Nat} (hi : i < raw.length) (he : i < e) :
    slice raw i e = byteAt raw i :: slice raw (i + 1) e := by
  obtain ⟨k, rfl⟩ : ∃ k, e = i + (k + 1) := ⟨e - i - 1, by omega⟩
  rw [slice, slice, List.drop_take, List.drop_take, drop_byteAt hi,
    show i + (k + 1) - i = k + 1 by omega, show i + (k + 1) - (i + 1) = k by omega,
    List.take_succ_cons]

theorem bytesAt_eq {raw : ByteString} : ∀ (pat : ByteString) (i : Nat),
    i + pat.length ≤ raw.length →
      bytesAt raw i pat = some (decide (toLower (slice raw i (i + pat.length)) = pat)) := by
  intro pat
  induction pat with
  | nil =>
      intro i _
      rw [List.length_nil, Nat.add_zero, slice, List.drop_take, Nat.sub_self]
      rfl
  | cons c pat ih =>
      intro i hi
      rw [List.length_cons] at hi
      have hread : i < raw.length := by omega
      have hrest := ih (i + 1) (by omega)
      rw [show i + 1 + pat.length = i + (pat.length + 1) by omega] at hrest
      rw [bytesAt, getElem?_byteAt hread, List.length_cons, slice_succ hread (by omega)]
      show (if lowerByte (byteAt raw i) = c then bytesAt raw (i + 1) pat else some false) =
        some (decide (lowerByte (byteAt raw i) :: toLower (slice raw (i + 1) (i + (pat.length + 1)))
          = c :: pat))
      split
      · rename_i hc
        rw [hrest, hc]
        congr 1
        simp only [List.cons.injEq, true_and]
      · rename_i hc
        congr 1
        exact (decide_eq_false (fun h => hc (List.cons.inj h).1)).symm

theorem slice_self (raw : ByteString) (i : Nat) : slice raw i i = [] := by
  rw [slice, List.drop_take, Nat.sub_self, List.take_zero]

theorem spanEnd_self (test : UInt8 → Bool) (raw : ByteString) (i : Nat) :
    spanEnd test raw i i = i := by
  rw [spanEnd, slice_self]
  rfl

/-- A range that begins with a byte ends there if the byte fails the test. -/
theorem spanEnd_succ {test : UInt8 → Bool} {raw : ByteString} {i e : Nat} (hi : i < e)
    (he : e ≤ raw.length) :
    spanEnd test raw i e
      = if test (byteAt raw i) = true then spanEnd test raw (i + 1) e else i := by
  rw [spanEnd, slice_succ (Nat.lt_of_lt_of_le hi he) hi, List.takeWhile_cons]
  split
  · rw [spanEnd, List.length_cons]
    omega
  · rfl

theorem spanChecked_eq {test : UInt8 → Bool} {raw : ByteString} {e : Nat} (he : e ≤ raw.length) :
    ∀ (passes i : Nat), i ≤ e → e < i + passes →
      spanChecked test raw e passes i = some (spanEnd test raw i e) := by
  intro passes
  induction passes with
  | zero => exact fun i hi hpasses => absurd hpasses (Nat.not_lt.mpr hi)
  | succ passes ih =>
      intro i hi hpasses
      rw [spanChecked]
      rcases Nat.eq_or_lt_of_le hi with rfl | hlt
      · rw [if_neg (Nat.lt_irrefl _), spanEnd_self]
      · have hread : i < raw.length := Nat.lt_of_lt_of_le hlt he
        rw [if_pos hlt, getElem?_byteAt hread, Option.bind_eq_bind, Option.bind_some,
          spanEnd_succ hlt he]
        split
        · exact ih (i + 1) hlt (by omega)
        · rfl

theorem spanEnd_le {test : UInt8 → Bool} {raw : ByteString} {i e : Nat} (hi : i ≤ e) :
    i ≤ spanEnd test raw i e ∧ spanEnd test raw i e ≤ e := by
  have hlength : (slice raw i e).length ≤ e - i := by
    rw [slice, List.length_drop, List.length_take]
    omega
  have htake := (List.takeWhile_prefix test (l := slice raw i e)).length_le
  rw [spanEnd]
  omega

theorem tokenChecked_eq {raw : ByteString} {e : Nat} (he : e ≤ raw.length) :
    ∀ (passes i : Nat), i ≤ e → e < i + passes →
      tokenChecked raw e passes i = some (containsKeepAliveToken raw i e) := by
  have hword : (ascii "keep-alive").length = 10 := by decide
  have hlower : toLower (ascii "keep-alive") = ascii "keep-alive" := by decide
  intro passes
  induction passes with
  | zero => exact fun i hi hpasses => absurd hpasses (Nat.not_lt.mpr hi)
  | succ passes ih =>
      intro i hi hpasses
      rw [tokenChecked]
      by_cases hroom : i + 10 ≤ e
      · have hread : bytesAt raw i _ = _ := bytesAt_eq (ascii "keep-alive") i (by omega)
        rw [hword] at hread
        have hrange : e + 1 - i = e + 1 - (i + 1) + 1 := by omega
        rw [if_pos hroom, hread, Option.bind_eq_bind, Option.bind_some, containsKeepAliveToken,
          hrange, List.range'_succ, List.any_cons, decide_eq_true hroom, Bool.true_and,
          eqIgnoreCase, hlower]
        split
        · rename_i hfound
          rw [beq_iff_eq.mpr (of_decide_eq_true hfound), Bool.true_or]
          rfl
        · rename_i hfound
          rw [beq_eq_false_iff_ne.mpr (fun h => hfound (decide_eq_true h)), Bool.false_or]
          exact ih (i + 1) (by omega) (by omega)
      · have hnone : containsKeepAliveToken raw i e = false := by
          rw [containsKeepAliveToken, List.any_eq_false]
          intro k hk
          rw [List.mem_range'_1] at hk
          rw [decide_eq_false (by omega : ¬ k + 10 ≤ e), Bool.false_and]
          exact Bool.false_ne_true
        rw [if_neg hroom, hnone]

theorem lineEndChecked_eq {raw : ByteString} {i : Nat} (hi : i < raw.length) :
    lineEndChecked raw i = some (decide (lineEndAt raw i)) := by
  rw [lineEndChecked, getElem?_byteAt hi, Option.bind_eq_bind, Option.bind_some]
  split
  · rename_i h
    rw [getElem?_byteAt h.2]
    show some (decide (byteAt raw (i + 1) = 10)) = _
    congr 1
    simp only [lineEndAt, h.1, h.2, true_and]
  · rename_i h
    show some false = _
    congr 1
    exact (decide_eq_false (fun h' => h ⟨h'.1, h'.2.1⟩)).symm

theorem connectionChecked_eq {raw : ByteString} {i : Nat} (hi : i < raw.length) :
    connectionChecked raw i = some (connectionAt raw i) := by
  have hword : (ascii "connection:").length = 11 := by decide
  have hlower : toLower (ascii "connection:") = ascii "connection:" := by decide
  rw [connectionChecked, getElem?_byteAt hi, Option.bind_eq_bind, Option.bind_some, connectionAt,
    eqIgnoreCase, hlower]
  by_cases hroom : i + 11 < raw.length
  · have hread : bytesAt raw i _ = _ := bytesAt_eq (ascii "connection:") i (by omega)
    rw [hword] at hread
    rw [decide_eq_true hroom, Bool.true_and, beq_eq_decide, ← hread]
    split
    · rfl
    · rename_i hfirst
      -- the comparisons fail at the first byte
      have hbyte : lowerByte (byteAt raw i) ≠ byte 'c' := fun h => hfirst ⟨h, hroom⟩
      show _ = bytesAt raw i (byte 'c' :: ascii "onnection:")
      rw [bytesAt, getElem?_byteAt hi, Option.bind_eq_bind, Option.bind_some, if_neg hbyte]
  · rw [if_neg (fun h => hroom h.2), decide_eq_false hroom, Bool.false_and]
    rfl

theorem valueChecked_eq {raw : ByteString} {i : Nat} (hi : i ≤ raw.length) :
    valueChecked raw i = some (keepAliveBehind raw i) := by
  obtain ⟨-, hstart⟩ : _ ∧ spanEnd (· == 32) raw i raw.length ≤ _ := spanEnd_le hi
  obtain ⟨hfrom, hend⟩ : _ ∧ spanEnd (fun b => b != 13 && b != 10) raw _ raw.length ≤ _ :=
    spanEnd_le hstart
  have hspaces : spanChecked (· == 32) raw raw.length (raw.length + 1) i = _ :=
    spanChecked_eq (Nat.le_refl _) _ _ hi (by omega)
  have hvalue : spanChecked (fun b => b != 13 && b != 10) raw raw.length (raw.length + 1) _ = _ :=
    spanChecked_eq (Nat.le_refl _) _ _ hstart (by omega)
  rw [valueChecked, hspaces]
  show (spanChecked _ _ _ _ _).bind _ = _
  rw [hvalue]
  exact tokenChecked_eq hend _ _ hfrom (by omega)

/-- The rest of a pass, from behind the line ends. -/
theorem keepAliveChecked_rest {raw : ByteString} {fuel : Nat}
    (ih : ∀ i, raw.length ≤ i + fuel →
      keepAliveChecked raw (fuel + 1) i = some (keepAliveFrom raw fuel i))
    {i : Nat} (hread : i < raw.length) (hi : raw.length ≤ i + (fuel + 1)) :
    ((connectionChecked raw i).bind fun found =>
      if found = true then valueChecked raw (i + 11)
      else keepAliveChecked raw (fuel + 1) (i + 1)) = some (keepAliveAt raw fuel i) := by
  rw [connectionChecked_eq hread, Option.bind_some, keepAliveAt]
  split
  · rename_i hfound
    rw [connectionAt, Bool.and_eq_true, decide_eq_true_eq] at hfound
    exact valueChecked_eq (by omega)
  · exact ih (i + 1) (by omega)

/-- Every read of the scan is in bounds, and it ends. -/
theorem keepAliveChecked_eq (raw : ByteString) : ∀ (fuel i : Nat), raw.length ≤ i + fuel →
    keepAliveChecked raw (fuel + 1) i = some (keepAliveFrom raw fuel i) := by
  intro fuel
  induction fuel with
  | zero =>
      intro i hi
      rw [keepAliveChecked, if_neg (by omega)]
      rfl
  | succ fuel ih =>
      intro i hi
      rw [keepAliveChecked, keepAliveFrom_succ]
      by_cases hroom : i + 12 < raw.length
      · rw [if_pos hroom, if_pos hroom, lineEndChecked_eq (by omega), Option.bind_eq_bind,
          Option.bind_some]
        by_cases hline : lineEndAt raw i
        · have hblank : blankChecked raw true (i + 2) = some (decide (lineEndAt raw (i + 2))) := by
            rw [blankChecked, lineEndChecked_eq (by omega)]
            split
            · rfl
            · rename_i h
              congr 1
              exact (decide_eq_false (fun h' => h ⟨rfl, h'.2.1⟩)).symm
          simp only [decide_eq_true hline, if_true, if_pos hline, hblank, Option.bind_some,
            decide_eq_true_eq]
          split
          · rfl
          · exact keepAliveChecked_rest ih (by omega) (by omega)
        · have hblank : blankChecked raw false i = some false :=
            if_neg (fun h => Bool.false_ne_true h.1)
          simp only [decide_eq_false hline, Bool.false_eq_true, if_false, if_neg hline, hblank,
            Option.bind_some]
          exact keepAliveChecked_rest ih (by omega) hi
      · rw [if_neg hroom, if_neg hroom]

/-! ## The scan by what lies behind a position -/

theorem byteAt_behind (a s : ByteString) (i : Nat) : byteAt (a ++ s) (a.length + i) = byteAt s i := by
  rw [byteAt, byteAt, List.getD_eq_getElem?_getD, List.getElem?_append_right (by omega),
    Nat.add_sub_cancel_left, List.getD_eq_getElem?_getD]

theorem slice_behind (a s : ByteString) (i e : Nat) :
    slice (a ++ s) (a.length + i) (a.length + e) = slice s i e := by
  rw [slice_drop, List.drop_left]

theorem spanEnd_behind (test : UInt8 → Bool) (a s : ByteString) (i e : Nat) :
    spanEnd test (a ++ s) (a.length + i) (a.length + e) = a.length + spanEnd test s i e := by
  rw [spanEnd, slice_behind, spanEnd, Nat.add_assoc]

/-- The search for the token is one in the text of the range. -/
theorem containsKeepAliveToken_eq {raw : ByteString} {start e : Nat} (hstart : start ≤ e)
    (he : e ≤ raw.length) : containsKeepAliveToken raw start e
      = containsIgnoreCase (slice raw start e) (ascii "keep-alive") := by
  have hlower : toLower (ascii "keep-alive") = ascii "keep-alive" := by decide
  have hword : (ascii "keep-alive").length = 10 := by decide
  have hpart : ∀ k, start + k + 10 ≤ e → toLower (slice raw (start + k) (start + k + 10))
      = ((toLower (slice raw start e)).drop k).take 10 := by
    intro k hk
    rw [toLower, toLower, ← List.map_drop, ← List.map_take, slice, slice, List.drop_take,
      List.drop_take, List.drop_take, List.take_take, List.drop_drop,
      show start + k + 10 - (start + k) = 10 by omega, Nat.min_eq_left (by omega)]
  rw [Bool.eq_iff_iff, containsIgnoreCase, hlower, containsStr_iff_within, containsKeepAliveToken,
    List.any_eq_true]
  constructor
  · rintro ⟨i, hi, hfound⟩
    rw [Bool.and_eq_true, decide_eq_true_eq, eqIgnoreCase, hlower, beq_iff_eq] at hfound
    obtain ⟨k, rfl⟩ := Nat.exists_eq_add_of_le (List.mem_range'_1.mp hi).1
    rw [hpart k hfound.1] at hfound
    rw [← hfound.2]
    exact (List.take_prefix _ _).isInfix.trans (List.drop_suffix _ _).isInfix
  · rintro ⟨x, y, hxy⟩
    have hlength : x.length + 10 + y.length = e - start := by
      have hxy' := congrArg List.length hxy
      rw [List.length_append, List.length_append, hword, toLower, List.length_map, slice,
        List.length_drop, List.length_take, Nat.min_eq_left he] at hxy'
      exact hxy'
    refine ⟨start + x.length, List.mem_range'_1.mpr (by omega), ?_⟩
    have hroom : start + x.length + 10 ≤ e := by omega
    rw [decide_eq_true hroom, Bool.true_and, eqIgnoreCase, hlower, beq_iff_eq, hpart _ hroom, ← hxy,
      List.append_assoc, List.drop_left]
    exact List.take_left' hword

theorem connectionAt_behind (a s : ByteString) (i : Nat) :
    connectionAt (a ++ s) (a.length + i) = connectionAt s i := by
  have hroom : a.length + i + 11 < (a ++ s).length ↔ i + 11 < s.length := by
    rw [List.length_append]
    omega
  rw [connectionAt, connectionAt, Nat.add_assoc, slice_behind, decide_eq_decide.mpr]
  rwa [← Nat.add_assoc]

theorem keepAliveBehind_behind (a s : ByteString) {i : Nat} (hi : i ≤ s.length) :
    keepAliveBehind (a ++ s) (a.length + i) = keepAliveBehind s i := by
  obtain ⟨-, hstart⟩ : _ ∧ spanEnd (· == 32) s i s.length ≤ _ := spanEnd_le hi
  obtain ⟨hfrom, hend⟩ : _ ∧ spanEnd (fun b => b != 13 && b != 10) s _ s.length ≤ _ :=
    spanEnd_le hstart
  have hlength : (a ++ s).length = a.length + s.length := List.length_append
  rw [keepAliveBehind, keepAliveBehind, hlength, spanEnd_behind, spanEnd_behind, containsKeepAliveToken_eq (by omega) (by omega),
    slice_behind, containsKeepAliveToken_eq hfrom hend]

theorem keepAliveFrom_behind (a s : ByteString) : ∀ (fuel i : Nat),
    keepAliveFrom (a ++ s) fuel (a.length + i) = keepAliveFrom s fuel i := by
  have hlength : (a ++ s).length = a.length + s.length := List.length_append
  have hline : ∀ i, lineEndAt (a ++ s) (a.length + i) ↔ lineEndAt s i := by
    intro i
    rw [lineEndAt, lineEndAt, byteAt_behind, Nat.add_assoc, byteAt_behind, hlength,
      Nat.add_lt_add_iff_left]
  intro fuel
  induction fuel with
  | zero => exact fun _ => rfl
  | succ fuel ih =>
      intro i
      have hat : ∀ j, j < s.length → keepAliveAt (a ++ s) fuel (a.length + j) = keepAliveAt s fuel j := by
        intro j hj
        rw [keepAliveAt, keepAliveAt, connectionAt_behind, Nat.add_assoc, Nat.add_assoc, ih]
        split
        · rename_i hfound
          rw [connectionAt, Bool.and_eq_true, decide_eq_true_eq] at hfound
          exact keepAliveBehind_behind a s (by omega)
        · rfl
      rw [keepAliveFrom_succ, keepAliveFrom_succ, hlength, Nat.add_assoc, Nat.add_assoc]
      simp only [hline, Nat.add_lt_add_iff_left]
      split
      · rw [hat i (by omega), hat (i + 2) (by omega)]
      · rfl

/-- The passes that are left over do nothing. -/
theorem keepAliveFrom_fuel {raw : ByteString} (extra : Nat) : ∀ (fuel i : Nat),
    raw.length ≤ i + fuel → keepAliveFrom raw (fuel + extra) i = keepAliveFrom raw fuel i := by
  intro fuel
  induction fuel with
  | zero =>
      intro i hi
      cases extra with
      | zero => rfl
      | succ extra =>
          rw [Nat.zero_add, keepAliveFrom_succ, if_neg (by omega)]
          rfl
  | succ fuel ih =>
      intro i hi
      have hat : ∀ j, i ≤ j → keepAliveAt raw (fuel + extra) j = keepAliveAt raw fuel j := by
        intro j hj
        rw [keepAliveAt, keepAliveAt, ih (j + 1) (by omega)]
      rw [Nat.add_right_comm, keepAliveFrom_succ, keepAliveFrom_succ, hat i (Nat.le_refl i),
        hat (i + 2) (Nat.le_add_right i 2)]

/-- The scan of a text from its beginning. -/
def scanned (s : ByteString) : Bool := hasConnectionKeepAlive s 0

theorem keepAliveFrom_scanned {a s : ByteString} {fuel : Nat} (hfuel : s.length ≤ fuel) :
    keepAliveFrom (a ++ s) fuel a.length = scanned s := by
  obtain ⟨extra, rfl⟩ := Nat.exists_eq_add_of_le hfuel
  have hshift := keepAliveFrom_behind a s (s.length + extra) 0
  rw [Nat.add_zero] at hshift
  rw [hshift, keepAliveFrom_fuel extra s.length 0 (by omega)]
  rfl

theorem scanned_cons (b : UInt8) (s : ByteString) :
    scanned (b :: s) =
      if 12 < (b :: s).length then
        if lineEndAt (b :: s) 0 then
          if lineEndAt (b :: s) 2 then false else keepAliveAt (b :: s) s.length 2
        else keepAliveAt (b :: s) s.length 0
      else false := by
  rw [scanned, hasConnectionKeepAlive, List.length_cons, keepAliveFrom_succ, List.length_cons,
    Nat.zero_add]

theorem scanned_short {s : ByteString} (h : s.length ≤ 12) : scanned s = false := by
  cases s with
  | nil => rfl
  | cons b s => rw [scanned_cons, if_neg (Nat.not_lt.mpr h)]

theorem not_lineEndAt {s : ByteString} {b : UInt8} (hb : b ≠ 13) : ¬ lineEndAt (b :: s) 0 :=
  fun h => hb h.1

/-- A byte at which no field name begins moves the scan on. -/
theorem scanned_skip {b : UInt8} {s : ByteString} (hb : b ≠ 13)
    (h : connectionAt (b :: s) 0 = false) : scanned (b :: s) = scanned s := by
  rw [scanned_cons]
  split
  · have hnext : keepAliveFrom ([b] ++ s) s.length [b].length = scanned s :=
      keepAliveFrom_scanned (Nat.le_refl _)
    rw [if_neg (not_lineEndAt hb), keepAliveAt, h, if_neg Bool.false_ne_true]
    exact hnext
  · rename_i hshort
    rw [List.length_cons] at hshort
    exact (scanned_short (by omega)).symm

theorem scanned_found {b : UInt8} {s : ByteString} (hb : b ≠ 13)
    (h : connectionAt (b :: s) 0 = true) (hroom : 12 < (b :: s).length) :
    scanned (b :: s) = keepAliveBehind (b :: s) 11 := by
  rw [scanned_cons, if_pos hroom, if_neg (not_lineEndAt hb), keepAliveAt, if_pos h]

theorem connectionAt_iff (s : ByteString) : connectionAt s 0 = true ↔
    11 < s.length ∧ startsWith (toLower s) (ascii "connection:") = true := by
  have hlower : toLower (ascii "connection:") = ascii "connection:" := by decide
  have hword : (ascii "connection:").length = 11 := by decide
  rw [connectionAt, Bool.and_eq_true, decide_eq_true_eq, eqIgnoreCase, hlower, beq_iff_eq,
    startsWith_iff, List.prefix_iff_eq_take, hword, toLower, toLower, ← List.map_take, slice,
    List.drop_zero]
  exact and_congr Iff.rfl eq_comm

end VHono

/-! ## Searches that ignore case

    The comparison and the search read both texts by position and fold each
    byte as they go.  Written with their reads, they answer every pair of texts
    as the folded texts say. -/

namespace VHono

open ByteString

/-- The inner loop: the bytes of the needle from a position on against those of the text. -/
def foldedMatch (haystack needle : ByteString) (i : Nat) : Nat → Nat → Option Bool
  | 0, _ => some true
  | left + 1, j => do
      let ch ← haystack[i + j]?
      let cn ← needle[j]?
      if lowerByte ch ≠ lowerByte cn then return false
      else foldedMatch haystack needle i left (j + 1)

/-- `eq_ignore_case` -/
def eqIgnoreCasePicoev (a b : ByteString) : Option Bool :=
  if a.length ≠ b.length then some false else foldedMatch a b 0 a.length 0

def eqIgnoreCaseUsockets (a b : ByteString) : Option Bool :=
  if a.length ≠ b.length then some false else foldedMatch a b 0 a.length 0

/-- The outer loop over the starts that are left. -/
def foldedSearch (haystack needle : ByteString) : Nat → Nat → Option Bool
  | 0, _ => some false
  | left + 1, i => do
      let found ← foldedMatch haystack needle i needle.length 0
      if found then return true else foldedSearch haystack needle left (i + 1)

/-- `contains_ignore_case` -/
def containsIgnoreCasePicoev (haystack needle : ByteString) : Option Bool :=
  if needle.length > haystack.length then some false
  else foldedSearch haystack needle (haystack.length - needle.length + 1) 0

section

variable {haystack needle : ByteString}

theorem foldedMatch_eq {i : Nat} (hi : i + needle.length ≤ haystack.length) : ∀ (left j : Nat),
    j + left = needle.length → foldedMatch haystack needle i left j
      = some (startsWith (toLower (haystack.drop (i + j))) (toLower (needle.drop j))) := by
  intro left
  induction left with
  | zero =>
      intro j hj
      rw [foldedMatch, List.drop_of_length_le (l := needle) (by omega), toLower, toLower,
        List.map_nil, startsWith_nil]
  | succ left ih =>
      intro j hj
      have hneedle : j < needle.length := by omega
      have hhay : i + j < haystack.length := by omega
      rw [foldedMatch, getElem?_byteAt hhay, getElem?_byteAt hneedle, Option.bind_eq_bind,
        Option.bind_some, Option.bind_some, drop_byteAt hhay,
        drop_byteAt hneedle, toLower, toLower, List.map_cons, List.map_cons, startsWith_cons]
      split
      · rename_i hdiffer
        rw [beq_eq_false_iff_ne.mpr (fun h => hdiffer h.symm), Bool.false_and]
        rfl
      · rename_i hsame
        rw [beq_iff_eq.mpr (not_not.mp hsame).symm, Bool.true_and]
        exact ih (j + 1) (by omega)

theorem foldedMatch_start {i : Nat} (hi : i + needle.length ≤ haystack.length) :
    foldedMatch haystack needle i needle.length 0
      = some (startsWith (toLower (haystack.drop i)) (toLower needle)) :=
  foldedMatch_eq hi needle.length 0 (Nat.zero_add _)

theorem eqIgnoreCasePicoev_eq (a b : ByteString) :
    eqIgnoreCasePicoev a b = some (decide (toLower a = toLower b)) := by
  have hlength : ∀ s : ByteString, (toLower s).length = s.length := fun s => List.length_map _
  rw [eqIgnoreCasePicoev]
  split
  · rename_i hdiffer
    rw [decide_eq_false (fun h => hdiffer (by rw [← hlength a, ← hlength b, h]))]
  · rename_i hsame
    rw [not_not] at hsame
    rw [hsame, foldedMatch_start (by omega), List.drop_zero]
    congr 1
    rw [Bool.eq_iff_iff, startsWith_iff, decide_eq_true_eq]
    constructor
    · intro h
      exact (h.eq_of_length (by rw [hlength, hlength, hsame])).symm
    · intro h
      rw [h]

theorem foldedSearch_eq : ∀ (left i : Nat), i + left + needle.length = haystack.length + 1 →
    (needle = [] → i ≤ haystack.length) → foldedSearch haystack needle left i
      = some (containsStr (toLower (haystack.drop i)) (toLower needle)) := by
  intro left
  induction left with
  | zero =>
      intro i hi hempty
      have hpos : needle.length ≠ 0 := by
        intro hzero
        have hle := hempty (List.length_eq_zero_iff.mp hzero)
        omega
      -- what is left is shorter than the needle
      have hshort : containsStr (toLower (haystack.drop i)) (toLower needle) = false := by
        rw [Bool.eq_false_iff, ne_eq, containsStr_iff_within]
        intro h
        have hlength := h.length_le
        rw [toLower, toLower, List.length_map, List.length_map, List.length_drop] at hlength
        omega
      rw [foldedSearch, hshort]
  | succ left ih =>
      intro i hi _
      rw [foldedSearch, foldedMatch_start (by omega), Option.bind_eq_bind, Option.bind_some]
      split
      · rename_i hfound
        have hin := (startsWith_iff.mp hfound).isInfix
        rw [containsStr_iff_within.mpr hin]
        rfl
      · rename_i hmissed
        rw [Bool.not_eq_true] at hmissed
        have hneedle : needle ≠ [] := by
          rintro rfl
          rw [toLower, toLower, List.map_nil, startsWith_nil] at hmissed
          cases hmissed
        have hpos := List.length_pos_iff.mpr hneedle
        have hread : i < haystack.length := by omega
        have hcons : toLower (haystack.drop i)
            = lowerByte (byteAt haystack i) :: toLower (haystack.drop (i + 1)) := by
          rw [drop_byteAt hread]
          rfl
        rw [hcons] at hmissed
        rw [ih (i + 1) (by omega) (fun h => absurd h hneedle), hcons, containsStr_cons, hmissed,
          Bool.false_or]

theorem containsIgnoreCasePicoev_eq (haystack needle : ByteString) :
    containsIgnoreCasePicoev haystack needle = some (containsIgnoreCase haystack needle) := by
  rw [containsIgnoreCasePicoev]
  split
  · rename_i hlong
    have hnone : containsIgnoreCase haystack needle = false := by
      rw [Bool.eq_false_iff, ne_eq, containsIgnoreCase, containsStr_iff_within]
      intro h
      have hlength := h.length_le
      rw [toLower, toLower, List.length_map, List.length_map] at hlength
      omega
    rw [hnone]
  · rw [foldedSearch_eq _ 0 (by omega) (fun _ => Nat.zero_le _), List.drop_zero]
    rfl

end

/-- **CASE IS IGNORED.**  The search answers whether the folded needle occurs in the folded text,
    the comparisons whether the folded texts are equal, and no read is out of bounds. -/
theorem caseSearches_folded :
    (∀ haystack needle, ∃ found, containsIgnoreCasePicoev haystack needle = some found ∧
      (found = true ↔ toLower needle <:+: toLower haystack)) ∧
    (∀ a b, ∃ same, eqIgnoreCasePicoev a b = some same ∧ (same = true ↔ toLower a = toLower b)) ∧
    ∀ a b, ∃ same, eqIgnoreCaseUsockets a b = some same ∧
      (same = true ↔ toLower a = toLower b) :=
  ⟨fun haystack needle => ⟨_, containsIgnoreCasePicoev_eq haystack needle, containsStr_iff_within⟩,
    fun a b => ⟨_, eqIgnoreCasePicoev_eq a b, decide_eq_true_iff⟩,
    fun a b => ⟨_, eqIgnoreCasePicoev_eq a b, decide_eq_true_iff⟩⟩

end VHono
