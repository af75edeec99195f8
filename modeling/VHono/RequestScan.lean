import VHono.KeepAliveScan
import VHono.UsocketsFraming
import VHono.PicoevRequest

/-! # The positions of the request parser

    The parser of the uSockets backend walks over the bytes of a read by
    position.  Written with its reads and slices, each of which is none out of
    bounds, and with a number of passes for each loop, it still answers every
    read, with what the parser answers. -/

namespace VHono

open ByteString CheckedSlices HttpGrammar

/-! ## The loops -/

/-- The comparisons with the bytes of a text, up to the first that fails. -/
def patternChecked (raw : ByteString) : Nat → ByteString → Option Bool
  | _, [] => some true
  | i, c :: cs => do
      let b ← raw[i]?
      if b = c then patternChecked raw (i + 1) cs else return false

/-- The loop for the first place of a text from a position on. -/
def searchChecked (pat raw : ByteString) : Nat → Nat → Option (Option Nat)
  | 0, _ => none
  | passes + 1, i =>
    if i + pat.length ≤ raw.length then do
      let found ← patternChecked raw i pat
      if found then return some i else searchChecked pat raw passes (i + 1)
    else some none

/-- The loop over the target: where it ends, and the position behind its first question mark. -/
def targetEndChecked (raw : ByteString) (lineEnd : Nat) :
    Nat → Nat → Option Nat → Option (Nat × Option Nat)
  | 0, _, _ => none
  | passes + 1, pathEnd, queryStart =>
    if pathEnd < lineEnd then do
      let b ← raw[pathEnd]?
      if b ≠ 32 then
        targetEndChecked raw lineEnd passes (pathEnd + 1)
          (if b = byte '?' ∧ queryStart = none then some (pathEnd + 1) else queryStart)
      else return (pathEnd, queryStart)
    else some (pathEnd, queryStart)

/-! ## The query -/

/-- The pair that a separator closes, with its slices. -/
def QueryScan.closeChecked (st : QueryScan) (raw : ByteString) (i : Nat) :
    Option (InsertionMap ByteString ByteString) :=
  match st.keyEnd, st.valueStart with
  | some keyEnd, some valueStart =>
    if keyEnd > st.keyStart then do
      let key ← cut raw st.keyStart keyEnd
      let value ← if valueStart < i then cut raw valueStart i else some []
      return st.query.insert key value
    else some st.query
  | _, _ =>
    if i > st.keyStart then do
      let key ← cut raw st.keyStart i
      return st.query.insert key []
    else some st.query

/-- The byte at a position; the end of the range counts as a separator. -/
def charChecked (raw : ByteString) (e i : Nat) : Option UInt8 :=
  if i < e then raw[i]? else some (byte '&')

def QueryScan.stepChecked (raw : ByteString) (e : Nat) (st : QueryScan) (i : Nat) :
    Option QueryScan := do
  let ch ← charChecked raw e i
  if ch = byte '=' ∧ st.keyEnd = none then
    return { st with keyEnd := some i, valueStart := some (i + 1) }
  else if ch = byte '&' then
    let query ← st.closeChecked raw i
    return { keyStart := i + 1, keyEnd := none, valueStart := none, query := query }
  else return st

def queryChecked (raw : ByteString) (start e : Nat) : Option (InsertionMap ByteString ByteString) :=
  ((List.range' start (e + 1 - start)).foldlM (QueryScan.stepChecked raw e)
    ⟨start, none, none, .empty⟩).map QueryScan.query

/-! ## The parser -/

/-- Path and query, from the positions the loop over the target left. -/
def targetChecked (raw : ByteString) (pathStart : Nat) :
    Nat × Option Nat → Option (ByteString × InsertionMap ByteString ByteString)
  | (pathEnd, some queryStart) => do
    let path ← cut raw pathStart (queryStart - 1)
    let query ← queryChecked raw queryStart pathEnd
    return (path, query)
  | (pathEnd, none) => do
    let path ← cut raw pathStart pathEnd
    return (path, .empty)

/-- The version says HTTP/1.1, unless its last digit is a zero. -/
def versionChecked (raw : ByteString) (lineEnd versionStart : Nat) : Option Bool :=
  if versionStart + 7 < lineEnd then (raw[versionStart + 7]?).map (fun b => decide (b ≠ byte '0'))
  else some true

def isHttp11Checked (raw : ByteString) (pathEnd lineEnd : Nat) : Option Bool := do
  let versionStart ← spanChecked (· == 32) raw lineEnd (raw.length + 2) (pathEnd + 1)
  let isHttp11 ← versionChecked raw lineEnd versionStart
  if ¬ isHttp11 then keepAliveChecked raw (raw.length + 1) lineEnd else return isHttp11

def bodyChecked (raw : ByteString) (lineEnd : Nat) : Option ByteString := do
  match ← searchChecked (crlf ++ crlf) raw (raw.length + 1) lineEnd with
  | some i => if i + 4 < raw.length then cut raw (i + 4) raw.length else return []
  | none => return []

/-- `parse_http_request_usockets` with its reads and slices: one out of bounds is a panic, which is
    `none`, and so is a loop that takes more passes than the read has bytes. -/
def parseChecked (raw : ByteString) : Option UsocketsRequest :=
  if raw.length = 0 then some badUsocketsRequest
  else do
    match ← searchChecked crlf raw (raw.length + 1) 0 with
    | none => return badUsocketsRequest
    | some lineEnd =>
      let methodEnd ← spanChecked (· != 32) raw lineEnd (raw.length + 1) 0
      if methodEnd = 0 ∨ methodEnd ≥ lineEnd then return badUsocketsRequest
      else
        let method ← cut raw 0 methodEnd
        let pathStart ← spanChecked (· == 32) raw lineEnd (raw.length + 1) (methodEnd + 1)
        let ends ← targetEndChecked raw lineEnd (raw.length + 1) pathStart none
        let target ← targetChecked raw pathStart ends
        let isHttp11 ← isHttp11Checked raw ends.1 lineEnd
        let body ← bodyChecked raw lineEnd
        return {
          method := method
          path := target.1
          query := target.2
          body := body
          isHttp11 := isHttp11 }

/-! ## Each loop reads within the bytes -/

section

variable {raw : ByteString} {i e : Nat}

theorem patternChecked_eq : ∀ (pat : ByteString) (i : Nat), i + pat.length ≤ raw.length →
    patternChecked raw i pat = some (startsWith (raw.drop i) pat) := by
  intro pat
  induction pat with
  | nil =>
      intro i _
      rw [patternChecked, startsWith_nil]
  | cons c pat ih =>
      intro i hi
      rw [List.length_cons] at hi
      have hread : i < raw.length := by omega
      rw [patternChecked, getElem?_byteAt hread, Option.bind_eq_bind, Option.bind_some,
        drop_byteAt hread, startsWith_cons]
      split
      · rename_i hsame
        rw [hsame, beq_self_eq_true, Bool.true_and]
        exact ih (i + 1) (by omega)
      · rename_i hother
        rw [beq_eq_false_iff_ne.mpr (fun h => hother h.symm), Bool.false_and]
        rfl

theorem searchChecked_eq {pat : ByteString} (hpat : pat ≠ []) : ∀ (passes i : Nat),
    i ≤ raw.length → raw.length < i + passes →
      searchChecked pat raw passes i = some (indexFrom pat raw i) := by
  have hpos : 0 < pat.length := List.length_pos_iff.mpr hpat
  intro passes
  induction passes with
  | zero => exact fun i hi hpasses => absurd hpasses (Nat.not_lt.mpr hi)
  | succ passes ih =>
      intro i hi hpasses
      rw [searchChecked]
      split
      · rename_i hroom
        have hread : i < raw.length := by omega
        rw [patternChecked_eq pat i hroom, Option.bind_eq_bind, Option.bind_some]
        split
        · rename_i hfound
          rw [indexFrom, indexOf_here hfound, Option.map_some, Nat.zero_add]
          rfl
        · rename_i hmissed
          rw [drop_byteAt hread, Bool.not_eq_true] at hmissed
          rw [ih (i + 1) hread (by omega), indexFrom, indexFrom, drop_byteAt hread,
            indexOf_skip hmissed, Option.map_map]
          refine congrArg (fun f => some (Option.map f _)) (funext (fun k => ?_))
          show k + (i + 1) = k + 1 + i
          omega
      · rename_i hshort
        -- a place behind the position would leave room for the text
        cases hfind : indexFrom pat raw i with
        | none => rfl
        | some k =>
            obtain ⟨hle, -, hlength⟩ := indexFrom_spec hfind hpat
            omega

/-- The position behind the first question mark of a range. -/
def queryStartOf (raw : ByteString) (pathStart pathEnd : Nat) : Option Nat :=
  let mark := spanEnd (· != byte '?') raw pathStart pathEnd
  if mark < pathEnd then some (mark + 1) else none

theorem queryStartOf_self (raw : ByteString) (i : Nat) : queryStartOf raw i i = none := by
  rw [queryStartOf, spanEnd_self]
  exact if_neg (Nat.lt_irrefl i)

theorem targetEndChecked_eq (he : e ≤ raw.length) : ∀ (passes i : Nat) (queryStart : Option Nat),
    i ≤ e → e < i + passes → targetEndChecked raw e passes i queryStart
      = some (spanEnd (· != 32) raw i e,
          queryStart.or (queryStartOf raw i (spanEnd (· != 32) raw i e))) := by
  intro passes
  induction passes with
  | zero => exact fun i _ hi hpasses => absurd hpasses (Nat.not_lt.mpr hi)
  | succ passes ih =>
      intro i queryStart hi hpasses
      have hstop : some (i, queryStart) = some (i, queryStart.or (queryStartOf raw i i)) := by
        rw [queryStartOf_self, Option.or_none]
      rw [targetEndChecked]
      rcases Nat.eq_or_lt_of_le hi with rfl | hlt
      · rw [if_neg (Nat.lt_irrefl _), spanEnd_self]
        exact hstop
      · have hread : i < raw.length := Nat.lt_of_lt_of_le hlt he
        rw [if_pos hlt, getElem?_byteAt hread, Option.bind_eq_bind, Option.bind_some,
          spanEnd_succ hlt he]
        by_cases hblank : byteAt raw i = 32
        · rw [if_neg (not_not.mpr hblank), if_neg (by simp [hblank])]
          exact hstop
        · rw [if_pos hblank, if_pos (bne_iff_ne.mpr hblank), ih (i + 1) _ hlt (by omega)]
          obtain ⟨hfrom, hto⟩ : i + 1 ≤ spanEnd (· != 32) raw (i + 1) e ∧ _ := spanEnd_le hlt
          generalize spanEnd (· != 32) raw (i + 1) e = pathEnd at hfrom hto
          congr 2
          cases queryStart with
          | some start =>
              rw [if_neg (fun h => absurd h.2 (Option.some_ne_none start))]
              rfl
          | none =>
              have hmark : spanEnd (· != byte '?') raw i pathEnd = _ :=
                spanEnd_succ hfrom (Nat.le_trans hto he)
              rw [Option.none_or, queryStartOf, queryStartOf, hmark]
              by_cases hquestion : byteAt raw i = byte '?'
              · have hstays : ¬ ((byteAt raw i != byte '?') = true) :=
                  fun h => bne_iff_ne.mp h hquestion
                rw [if_pos ⟨hquestion, rfl⟩, if_neg hstays, if_pos (Nat.lt_of_succ_le hfrom)]
                rfl
              · rw [if_neg (fun h => hquestion h.1), if_pos (bne_iff_ne.mpr hquestion)]
                rfl

/-! ## The query reads and cuts within its range -/

variable {st : QueryScan}

theorem QueryScan.closeChecked_eq (hi : i ≤ raw.length) (hkey : ∀ k ∈ st.keyEnd, k ≤ i) :
    st.closeChecked raw i = some (st.close raw i) := by
  obtain ⟨keyStart, keyEnd, valueStart, query⟩ := st
  have halone : (if i > keyStart then (cut raw keyStart i).bind fun key => some (query.insert key [])
      else some query)
        = some (if i > keyStart then query.insert (slice raw keyStart i) [] else query) := by
    split
    · rename_i hnonempty
      rw [cut_within (Nat.le_of_lt hnonempty) hi]
      rfl
    · rfl
  cases keyEnd with
  | none => exact halone
  | some keyEnd =>
      cases valueStart with
      | none => exact halone
      | some valueStart =>
          show (if keyEnd > keyStart then _ else _) = some (if keyEnd > keyStart then _ else _)
          split
          · rename_i hnonempty
            rw [cut_within (Nat.le_of_lt hnonempty) (Nat.le_trans (hkey keyEnd rfl) hi),
              Option.bind_eq_bind, Option.bind_some]
            dsimp only
            split
            · rename_i hvalue
              rw [cut_within (Nat.le_of_lt hvalue) hi]
              rfl
            · rfl
          · rfl

theorem QueryScan.stepChecked_eq (hi : i ≤ e) (he : e ≤ raw.length)
    (hkey : ∀ k ∈ st.keyEnd, k ≤ i) : st.stepChecked raw e i = some (st.step raw e i) := by
  have hread : charChecked raw e i = some (if i < e then byteAt raw i else byte '&') := by
    rw [charChecked]
    split
    · rename_i hlt
      exact getElem?_byteAt (Nat.lt_of_lt_of_le hlt he)
    · rfl
  rw [stepChecked, hread, Option.bind_eq_bind, Option.bind_some,
    closeChecked_eq (Nat.le_trans hi he) hkey, step]
  generalize (if i < e then byteAt raw i else byte '&') = ch
  split
  · rfl
  · split
    · rfl
    · rfl

/-- The key that is open ends at or before the position. -/
theorem QueryScan.keyEnd_step (hkey : ∀ k ∈ st.keyEnd, k ≤ i) :
    ∀ k ∈ (st.step raw e i).keyEnd, k ≤ i + 1 := by
  intro k hk
  rw [step] at hk
  generalize (if i < e then byteAt raw i else byte '&') = ch at hk
  split at hk
  · obtain rfl := Option.some.inj hk
    exact Nat.le_succ i
  · split at hk
    · exact absurd hk.symm (Option.some_ne_none k)
    · exact Nat.le_succ_of_le (hkey k hk)

theorem foldlM_stepChecked (he : e ≤ raw.length) : ∀ (n i : Nat) (st : QueryScan), i + n = e + 1 →
    (∀ k ∈ st.keyEnd, k ≤ i) → (List.range' i n).foldlM (QueryScan.stepChecked raw e) st
      = some ((List.range' i n).foldl (QueryScan.step raw e) st) := by
  intro n
  induction n with
  | zero => exact fun i st _ _ => rfl
  | succ n ih =>
      intro i st hn hkey
      rw [List.range'_succ, List.foldlM_cons, List.foldl_cons,
        QueryScan.stepChecked_eq (by omega) he hkey, Option.bind_eq_bind, Option.bind_some]
      exact ih (i + 1) _ (by omega) (QueryScan.keyEnd_step hkey)

theorem queryChecked_eq {start : Nat} (hstart : start ≤ e) (he : e ≤ raw.length) :
    queryChecked raw start e = some (parseQueryStringFast raw start e) := by
  rw [queryChecked, foldlM_stepChecked he _ _ _ (by omega)
    (fun k hk => absurd hk.symm (Option.some_ne_none k))]
  rfl

/-! ## The parser -/

theorem targetChecked_eq {pathStart pathEnd : Nat} (hstart : pathStart ≤ pathEnd)
    (hend : pathEnd ≤ raw.length) :
    targetChecked raw pathStart (pathEnd, queryStartOf raw pathStart pathEnd)
      = some (usocketsTarget raw pathStart pathEnd) := by
  obtain ⟨hfrom, -⟩ : pathStart ≤ spanEnd (· != byte '?') raw pathStart pathEnd ∧ _ :=
    spanEnd_le hstart
  rw [queryStartOf, usocketsTarget]
  split
  · rename_i hmark
    rw [targetChecked, Nat.add_sub_cancel,
      cut_within hfrom (Nat.le_trans (Nat.le_of_lt hmark) hend),
      queryChecked_eq hmark hend]
    rfl
  · rw [targetChecked, cut_within hstart hend]
    rfl

theorem isHttp11Checked_eq {pathEnd lineEnd : Nat} (hpath : pathEnd ≤ lineEnd)
    (hline : lineEnd ≤ raw.length) :
    isHttp11Checked raw pathEnd lineEnd = some (usocketsIsHttp11 raw pathEnd lineEnd) := by
  have hspaces : spanChecked (· == 32) raw lineEnd (raw.length + 2) (pathEnd + 1)
      = some (spanEnd (· == 32) raw (pathEnd + 1) lineEnd) := by
    rcases Nat.eq_or_lt_of_le hpath with rfl | hlt
    · -- the target runs to the end of the line
      rw [spanChecked, if_neg (by omega), spanEnd, slice, List.drop_of_length_le (by simp)]
      rfl
    · exact spanChecked_eq hline _ _ hlt (by omega)
  have hversion : ∀ i, versionChecked raw lineEnd i
      = some (if i + 7 < lineEnd then decide (byteAt raw (i + 7) ≠ byte '0') else true) := by
    intro i
    rw [versionChecked]
    split
    · rename_i hlt
      rw [getElem?_byteAt (by omega)]
      rfl
    · rfl
  rw [isHttp11Checked, hspaces, Option.bind_eq_bind, Option.bind_some, Option.bind_eq_bind,
    hversion, Option.bind_some, keepAliveChecked_eq raw raw.length lineEnd (by omega),
    usocketsIsHttp11]
  generalize (if _ < lineEnd then _ else true : Bool) = isHttp11
  split
  · rfl
  · rfl

theorem bodyChecked_eq {lineEnd : Nat} (hline : lineEnd ≤ raw.length) :
    bodyChecked raw lineEnd = some (usocketsBody raw lineEnd) := by
  have hcrlf : crlf ++ crlf ≠ [] := by decide
  rw [bodyChecked, searchChecked_eq hcrlf _ _ hline (by omega), Option.bind_eq_bind,
    Option.bind_some, usocketsBody]
  cases hfind : indexFrom (crlf ++ crlf) raw lineEnd with
  | none => rfl
  | some i =>
      dsimp only
      split
      · rename_i hroom
        exact cut_rest (Nat.le_of_lt hroom)
      · rename_i hend
        rw [List.drop_of_length_le (Nat.le_of_not_lt hend)]
        rfl

end

/-- Every read and slice of the parser is within the bytes, and its loops end. -/
theorem parseChecked_eq (raw : ByteString) :
    parseChecked raw = some (parseHttpRequestUsockets raw) := by
  have hcrlf : crlf ≠ [] := by decide
  rw [parseChecked]
  split
  · rename_i hempty
    rw [List.length_eq_zero_iff] at hempty
    subst hempty
    rfl
  · rw [searchChecked_eq hcrlf _ _ (Nat.zero_le _) (by omega), Option.bind_eq_bind,
      Option.bind_some, parseHttpRequestUsockets]
    cases hfind : indexFrom crlf raw 0 with
    | none => rfl
    | some lineEnd =>
        obtain ⟨-, -, hroom⟩ := indexFrom_spec hfind hcrlf
        have hline : lineEnd ≤ raw.length := by omega
        have hmethod : spanChecked (· != 32) raw lineEnd (raw.length + 1) 0 = _ :=
          spanChecked_eq hline _ _ (Nat.zero_le _) (by omega)
        dsimp only
        rw [hmethod, Option.bind_eq_bind, Option.bind_some]
        split
        · rfl
        · rename_i hword
          have hlt : spanEnd (· != 32) raw 0 lineEnd < lineEnd := by omega
          generalize spanEnd (· != 32) raw 0 lineEnd = methodEnd at hlt
          obtain ⟨-, hpath⟩ : _ ∧ spanEnd (· == 32) raw (methodEnd + 1) lineEnd ≤ lineEnd :=
            spanEnd_le hlt
          have hspaces : spanChecked (· == 32) raw lineEnd (raw.length + 1) (methodEnd + 1) = _ :=
            spanChecked_eq hline _ _ hlt (by omega)
          rw [cut_within (Nat.zero_le _) (by omega), Option.bind_eq_bind, Option.bind_some, hspaces,
            Option.bind_some]
          generalize spanEnd (· == 32) raw (methodEnd + 1) lineEnd = pathStart at hpath
          obtain ⟨hfrom, hto⟩ : pathStart ≤ spanEnd (· != 32) raw pathStart lineEnd ∧ _ :=
            spanEnd_le hpath
          rw [targetEndChecked_eq hline _ _ none hpath (by omega), Option.bind_eq_bind,
            Option.bind_some, Option.none_or, targetChecked_eq hfrom (by omega), Option.bind_eq_bind,
            Option.bind_some, isHttp11Checked_eq hto hline, Option.bind_eq_bind, Option.bind_some,
            bodyChecked_eq hline]
          rfl

/-- **THE PARSER IS SAFE AND RIGHT.**  It answers every read without a step outside it, and a
    well-formed request with its method, the path and the query of its target, and its body. -/
theorem parseChecked_request :
    (∀ raw, parseChecked raw = some (parseHttpRequestUsockets raw)) ∧
      ∀ r : Request, ∃ req, parseChecked r.render = some req ∧ req.method = r.method ∧
        req.path = r.target.takeWhile (· != byte '?') ∧
        req.query = queryOf (r.target.dropWhile (· != byte '?')).tail ∧ req.body = r.body := by
  refine ⟨parseChecked_eq, fun r => ⟨_, parseChecked_eq _, ?_⟩⟩
  have hsent := dispatched_render r
  exact ⟨congrArg Dispatched.method hsent, congrArg Dispatched.path hsent,
    congrArg Dispatched.query hsent, congrArg Dispatched.body hsent⟩

end VHono

/-! ## The query parsers

    Three functions read a query: of a text of its own, of the end of a target,
    and of a range of a buffer.  Their loops are one loop over three ranges, so
    they agree with the reference, and none of them reads or cuts outside its
    text. -/

namespace VHono

open ByteString CheckedSlices

def parseQueryStringAppChecked (query : ByteString) :
    Option (InsertionMap ByteString ByteString) :=
  if query.length = 0 then some .empty else queryChecked query 0 query.length

/-- The loop back to the last question mark, over the positions that are left. -/
def lastMarkChecked (s : ByteString) : Nat → Option (Option Nat)
  | 0 => some none
  | n + 1 => do
      let b ← s[n]?
      if b = byte '?' then return some n else lastMarkChecked s n

def parsePathAndQueryChecked (fullPath : ByteString) :
    Option (ByteString × InsertionMap ByteString ByteString) :=
  if fullPath.length = 0 then some (fullPath, .empty)
  else do
    match ← lastMarkChecked fullPath fullPath.length with
    | none => return (fullPath, .empty)
    | some queryStart =>
      let path ← cut fullPath 0 queryStart
      let query ← queryChecked fullPath (queryStart + 1) fullPath.length
      return (path, query)

/-! ## The last place of a byte -/

theorem lastIndexOf_concat (c b : UInt8) (s : ByteString) :
    lastIndexOf c (s ++ [b]) = if b = c then some s.length else lastIndexOf c s := by
  rw [lastIndexOf, List.reverse_append, List.reverse_singleton, List.singleton_append,
    List.idxOf?_cons, List.length_append, List.length_singleton]
  by_cases h : b = c
  · rw [if_pos (beq_iff_eq.mpr h), if_pos h]
    rfl
  · rw [if_neg (fun heq => h (beq_iff_eq.mp heq)), if_neg h, lastIndexOf, Option.map_map]
    refine congrArg (fun f => Option.map f _) (funext (fun k => ?_))
    show s.length + 1 - 1 - (k + 1) = s.length - 1 - k
    omega

theorem lastIndexOf_found {c : UInt8} (s : ByteString) {t : ByteString} (h : c ∉ t) :
    lastIndexOf c (s ++ c :: t) = some s.length := by
  induction t using List.reverseRecOn with
  | nil => rw [lastIndexOf_concat, if_pos rfl]
  | append_singleton t b ih =>
      rw [List.mem_append, not_or, List.mem_singleton] at h
      rw [← List.cons_append, ← List.append_assoc, lastIndexOf_concat,
        if_neg (fun heq => h.2 heq.symm), ih h.1]

theorem lastIndexOf_lt {c : UInt8} {s : ByteString} {k : Nat} (h : lastIndexOf c s = some k) :
    k < s.length := by
  induction s using List.reverseRecOn with
  | nil => cases h
  | append_singleton s b ih =>
      rw [lastIndexOf_concat] at h
      rw [List.length_append, List.length_singleton]
      split at h
      · obtain rfl := Option.some.inj h
        exact Nat.lt_succ_self _
      · exact Nat.lt_succ_of_lt (ih h)

theorem lastMarkChecked_eq (s : ByteString) : ∀ n ≤ s.length,
    lastMarkChecked s n = some (lastIndexOf (byte '?') (s.take n)) := by
  intro n
  induction n with
  | zero => exact fun _ => rfl
  | succ n ih =>
      intro hn
      have htake : s.take (n + 1) = s.take n ++ [byteAt s n] := by
        rw [List.take_add_one, getElem?_byteAt hn, Option.toList_some]
      rw [lastMarkChecked, getElem?_byteAt hn, Option.bind_eq_bind, Option.bind_some, htake,
        lastIndexOf_concat, List.length_take, Nat.min_eq_left (Nat.le_of_succ_le hn),
        ih (Nat.le_of_succ_le hn)]
      split
      · rfl
      · rfl

/-! ## The parsers against the reference -/

theorem queryChecked_range (before q after : ByteString) :
    queryChecked (before ++ (q ++ after)) before.length (before.length + q.length)
      = some (queryOf q) := by
  have hend : before.length + q.length ≤ (before ++ (q ++ after)).length := by
    rw [List.length_append, List.length_append]
    omega
  rw [queryChecked_eq (Nat.le_add_right _ _) hend]
  exact congrArg some (parseQueryRange_eq rfl)

theorem queryChecked_whole (q : ByteString) : queryChecked q 0 q.length = some (queryOf q) := by
  have hrange := queryChecked_range [] q []
  rwa [List.append_nil, List.nil_append, List.length_nil, Nat.zero_add] at hrange

theorem parseQueryStringAppChecked_eq (q : ByteString) :
    parseQueryStringAppChecked q = some (queryOf q) := by
  rw [parseQueryStringAppChecked]
  split
  · rename_i hempty
    rw [List.length_eq_zero_iff.mp hempty]
    rfl
  · exact queryChecked_whole q

/-- The loop over a target stays within it, whatever it holds. -/
theorem parsePathAndQueryChecked_eq (fullPath : ByteString) :
    parsePathAndQueryChecked fullPath = some (parsePathAndQuery fullPath) := by
  rw [parsePathAndQueryChecked]
  split
  · rename_i hempty
    rw [List.length_eq_zero_iff.mp hempty]
    rfl
  · rw [lastMarkChecked_eq _ _ (Nat.le_refl _), List.take_length, Option.bind_eq_bind,
      Option.bind_some, parsePathAndQuery]
    cases hmark : lastIndexOf (byte '?') fullPath with
    | none => rfl
    | some queryStart =>
        have hlt := lastIndexOf_lt hmark
        dsimp only
        rw [cut_within (Nat.zero_le _) (Nat.le_of_lt hlt), Option.bind_eq_bind, Option.bind_some,
          queryChecked_eq hlt (Nat.le_refl _)]
        rfl

theorem parsePathAndQuery_query {path q : ByteString} (h : byte '?' ∉ q) :
    parsePathAndQuery (path ++ byte '?' :: q) = (path, queryOf q) := by
  have hrange : parseQueryRange (path ++ byte '?' :: q) (path.length + 1)
      (path ++ byte '?' :: q).length = queryOf q := by
    have hsplit : path ++ byte '?' :: q = (path ++ [byte '?']) ++ (q ++ []) := by
      rw [List.append_nil, List.append_assoc, List.singleton_append]
    have hread := parseQueryRange_eq hsplit
    rw [List.length_append, List.length_singleton] at hread
    rw [List.length_append, List.length_cons, ← hread]
    congr 1
    omega
  rw [parsePathAndQuery, lastIndexOf_found path h]
  dsimp only
  rw [hrange, List.take_left]

/-- **ONE QUERY.**  The three parsers read of a query what the reference says, and stay within
    their texts. -/
theorem queryParsers_agree :
    (∀ q, parseQueryStringAppChecked q = some (queryOf q)) ∧
      (∀ q, byte '?' ∉ q →
        parsePathAndQueryChecked (ascii "/" ++ byte '?' :: q) = some (ascii "/", queryOf q)) ∧
      (∀ before q after, queryChecked (before ++ (q ++ after)) before.length
        (before.length + q.length) = some (queryOf q)) ∧
      ∀ fullPath, ∃ answer, parsePathAndQueryChecked fullPath = some answer := by
  refine ⟨parseQueryStringAppChecked_eq, fun q hq => ?_, queryChecked_range,
    fun fullPath => ⟨_, parsePathAndQueryChecked_eq fullPath⟩⟩
  rw [parsePathAndQueryChecked_eq, parsePathAndQuery_query hq]

end VHono
