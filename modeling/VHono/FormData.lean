import VHono.CheckedSlices
import VHono.Context
import VHono.JsonText
import VHono.QueryStrings
import VHono.TextSplits

/-! # Form data

    The body of a form is its fields with `&` between them, each a key and a
    value with `=` between them, and both with the bytes that have a meaning
    written as `%XX`.  Every such text of some fields is read back as these
    fields.  The decoder looks two bytes ahead, and never past the end: an
    escape that is none stays as it stands. -/

namespace VHono

open ByteString CheckedSlices

/-! ## The decoder -/

def hexCharToVal (c : UInt8) : Option Nat :=
  if byte '0' ≤ c ∧ c ≤ byte '9' then some (c.toNat - 48)
  else if byte 'a' ≤ c ∧ c ≤ byte 'f' then some (c.toNat - 97 + 10)
  else if byte 'A' ≤ c ∧ c ≤ byte 'F' then some (c.toNat - 65 + 10)
  else none

def hexToByte (hex : ByteString) : Option UInt8 :=
  match hex with
  | [h, l] => do
      let high ← hexCharToVal h
      let low ← hexCharToVal l
      return UInt8.ofNat (high * 16 + low)
  | _ => none

/-- The loop of `url_decode` from a position on, unless it takes more passes.  A read out of
    bounds is a panic, which is `none` too. -/
def urlDecodeFrom (s : ByteString) : Nat → Nat → Option ByteString
  | 0, _ => none
  | passes + 1, i =>
    if i < s.length then do
      let b ← s[i]?
      if b = byte '%' ∧ i + 2 < s.length then
        let hexStr ← cut s (i + 1) (i + 3)
        match hexToByte hexStr with
        | some hexVal => (urlDecodeFrom s passes (i + 3)).map (hexVal :: ·)
        | none => (urlDecodeFrom s passes (i + 1)).map (b :: ·)
      else if b = byte '+' then (urlDecodeFrom s passes (i + 1)).map (byte ' ' :: ·)
      else (urlDecodeFrom s passes (i + 1)).map (b :: ·)
    else some []

def urlDecode (s : ByteString) : Option ByteString := urlDecodeFrom s (s.length + 1) 0

/-- A pair of the body, written to the data. -/
def storePair (data : InsertionMap ByteString Json) (pair : ByteString) :
    Option (InsertionMap ByteString Json) :=
  match indexOf [byte '='] pair with
  | none => some data
  | some eqPos =>
    if eqPos = 0 then some data
    else do
      let rest := if eqPos + 1 < pair.length then cut pair (eqPos + 1) pair.length else some []
      let key ← cut pair 0 eqPos
      let value ← rest
      let decodedKey ← urlDecode key
      let decodedValue ← urlDecode value
      return data.insert decodedKey (.string decodedValue)

def parseFormData (c : Context) : Option (InsertionMap ByteString Json) :=
  if c.body.length = 0 then some .empty
  else (splitStr c.body [byte '&']).foldlM storePair .empty

/-! ## What the decoder computes -/

/-- What a byte stands for that begins no escape. -/
def plainByte (b : UInt8) : UInt8 := if b = byte '+' then byte ' ' else b

/-- A text with its escapes and its plus signs resolved, from the left. -/
def decoded : ByteString → ByteString
  | b :: h :: l :: t =>
    match if b = byte '%' then hexToByte [h, l] else none with
    | some v => v :: decoded t
    | none => plainByte b :: decoded (h :: l :: t)
  | b :: s => plainByte b :: decoded s
  | [] => []

/-- The escape of a byte, from behind its sign: two digits. -/
def escapeOf (s : ByteString) : Option UInt8 :=
  match s with
  | h :: l :: _ => hexToByte [h, l]
  | _ => none

theorem decoded_plain {b : UInt8} {s : ByteString} (h : b = byte '%' → escapeOf s = none) :
    decoded (b :: s) = plainByte b :: decoded s := by
  rcases s with _ | ⟨d, _ | ⟨e, t⟩⟩
  · rfl
  · rfl
  · have hnone : (if b = byte '%' then hexToByte [d, e] else none) = none := by
      split
      · rename_i hb
        exact h hb
      · rfl
    rw [decoded, hnone]

theorem decoded_escape {d e v : UInt8} (h : hexToByte [d, e] = some v) (t : ByteString) :
    decoded (byte '%' :: d :: e :: t) = v :: decoded t := by
  rw [decoded, if_pos rfl, h]

/-- An escape that is none stays. -/
theorem decoded_percent {s : ByteString} (h : escapeOf s = none) :
    decoded (byte '%' :: s) = byte '%' :: decoded s :=
  decoded_plain (fun _ => h)

/-- One pass of the loop, told by what lies behind the position. -/
theorem urlDecodeFrom_step (s : ByteString) (passes : Nat) {i : Nat} {b : UInt8} {t : ByteString}
    (h : s.drop i = b :: t) :
    urlDecodeFrom s (passes + 1) i =
      match if b = byte '%' then escapeOf t else none with
      | some v => (urlDecodeFrom s passes (i + 3)).map (v :: ·)
      | none => (urlDecodeFrom s passes (i + 1)).map (plainByte b :: ·) := by
  have hlength : s.length - i = t.length + 1 := by
    rw [← List.length_drop, h, List.length_cons]
  have hget : s[i]? = some b := by
    rw [← List.head?_drop, h]
    rfl
  have hcut : ∀ d e r, t = d :: e :: r → cut s (i + 1) (i + 3) = some [d, e] := by
    rintro d e r rfl
    have hrest : s.drop (i + 1) = d :: e :: r := by
      rw [← List.drop_drop, h]
      rfl
    rw [List.length_cons, List.length_cons] at hlength
    rw [cut, if_pos ⟨by omega, by omega⟩, List.drop_take, hrest]
    rw [show i + 3 - (i + 1) = 2 by omega]
    rfl
  have hpercent : byte '%' ≠ byte '+' := by decide
  rw [urlDecodeFrom, if_pos (by omega), hget, Option.bind_eq_bind, Option.bind_some]
  by_cases hb : b = byte '%'
  · subst hb
    rw [if_pos rfl, plainByte, if_neg hpercent]
    rcases t with _ | ⟨d, _ | ⟨e, r⟩⟩
    · rw [if_neg (by rw [List.length_nil] at hlength; omega), if_neg hpercent]
      rfl
    · rw [if_neg (by rw [List.length_singleton] at hlength; omega), if_neg hpercent]
      rfl
    · have hinside : i + 2 < s.length := by
        rw [List.length_cons, List.length_cons] at hlength
        omega
      rw [if_pos ⟨rfl, hinside⟩, hcut d e r rfl, Option.bind_eq_bind, Option.bind_some]
      rfl
  · rw [if_neg (fun h => hb h.1), if_neg hb, plainByte]
    by_cases hplus : b = byte '+'
    · rw [if_pos hplus, if_pos hplus]
    · rw [if_neg hplus, if_neg hplus]

theorem escapeOf_eq_some {s : ByteString} {v : UInt8} (h : escapeOf s = some v) :
    ∃ d e t, s = d :: e :: t ∧ hexToByte [d, e] = some v := by
  rcases s with _ | ⟨d, _ | ⟨e, t⟩⟩
  · cases h
  · cases h
  · exact ⟨d, e, t, rfl, h⟩

/-- The loop ends, and reads nothing that is not there. -/
theorem urlDecodeFrom_eq (s : ByteString) (passes : Nat) :
    ∀ i ≤ s.length, s.length < i + passes →
      urlDecodeFrom s passes i = some (decoded (s.drop i)) := by
  induction passes with
  | zero => exact fun i hi hpasses => absurd hpasses (Nat.not_lt.mpr hi)
  | succ passes ih =>
      intro i hi hpasses
      cases hdrop : s.drop i with
      | nil =>
          have hend : ¬ i < s.length := Nat.not_lt.mpr (List.drop_eq_nil_iff.mp hdrop)
          rw [urlDecodeFrom, if_neg hend]
          rfl
      | cons b t =>
          have hlength : s.length - i = t.length + 1 := by
            rw [← List.length_drop, hdrop, List.length_cons]
          have hnext : s.drop (i + 1) = t := by
            rw [← List.drop_drop, hdrop]
            rfl
          rw [urlDecodeFrom_step s passes hdrop]
          cases hescape : if b = byte '%' then escapeOf t else none with
          | none =>
              have hplain : b = byte '%' → escapeOf t = none := by
                intro hb
                rwa [if_pos hb] at hescape
              rw [ih (i + 1) (by omega) (by omega), hnext, decoded_plain hplain]
              rfl
          | some v =>
              obtain ⟨hb, hv⟩ : b = byte '%' ∧ escapeOf t = some v := by
                by_cases hb : b = byte '%'
                · rw [if_pos hb] at hescape
                  exact ⟨hb, hescape⟩
                · rw [if_neg hb] at hescape
                  cases hescape
              obtain ⟨d, e, r, rfl, hbyte⟩ := escapeOf_eq_some hv
              have hbehind : s.drop (i + 3) = r := by
                rw [show i + 3 = i + 1 + 2 by omega, ← List.drop_drop, hnext]
                rfl
              rw [List.length_cons, List.length_cons] at hlength
              rw [ih (i + 3) (by omega) (by omega), hbehind, hb, decoded_escape hbyte]
              rfl

theorem urlDecode_eq (s : ByteString) : urlDecode s = some (decoded s) :=
  urlDecodeFrom_eq s (s.length + 1) 0 (Nat.zero_le _) (by omega)

/-- A percent sign is no digit, so that no escape reaches over one. -/
theorem escapeOf_append_percent (s t : ByteString) :
    escapeOf (s ++ byte '%' :: t) = escapeOf s := by
  have hpercent : hexCharToVal (byte '%') = none := by decide
  rcases s with _ | ⟨h, _ | ⟨l, s⟩⟩
  · cases t with
    | nil => rfl
    | cons l t =>
        show hexToByte [byte '%', l] = none
        rw [hexToByte, hpercent]
        rfl
  · show hexToByte [h, byte '%'] = none
    rw [hexToByte, hpercent]
    cases hexCharToVal h <;> rfl
  · rfl

/-- The text before a percent sign is decoded by itself. -/
theorem decoded_append_percent (s t : ByteString) :
    decoded (s ++ byte '%' :: t) = decoded s ++ decoded (byte '%' :: t) := by
  induction hn : s.length using Nat.strong_induction_on generalizing s with
  | _ n ih =>
      subst hn
      cases s with
      | nil => rfl
      | cons b s =>
          rw [List.cons_append]
          by_cases hescape : b = byte '%' ∧ ∃ v, escapeOf s = some v
          · obtain ⟨rfl, v, hv⟩ := hescape
            obtain ⟨d, e, r, rfl, hbyte⟩ := escapeOf_eq_some hv
            have hr : r.length < (byte '%' :: d :: e :: r).length := by
              simp only [List.length_cons]
              omega
            rw [List.cons_append, List.cons_append, decoded_escape hbyte, decoded_escape hbyte,
              ih _ hr r rfl, List.cons_append]
          · have hnone : b = byte '%' → escapeOf s = none := by
              intro hb
              rw [Option.eq_none_iff_forall_ne_some]
              exact fun v hv => hescape ⟨hb, v, hv⟩
            have hnone' : b = byte '%' → escapeOf (s ++ byte '%' :: t) = none := by
              rw [escapeOf_append_percent]
              exact hnone
            rw [decoded_plain hnone, decoded_plain hnone',
              ih _ (Nat.lt_succ_self s.length) s rfl, List.cons_append]

/-! ## Texts with escapes in them -/

/-- The bytes that are written as an escape always. -/
def isReserved (b : UInt8) : Bool := (ascii "%+&=").contains b

/-- A byte as it may be written in a form. -/
inductive WritesByte : UInt8 → ByteString → Prop
  | raw {b : UInt8} : isReserved b = false → WritesByte b [b]
  | escape {b h l : UInt8} : hexToByte [h, l] = some b → WritesByte b [byte '%', h, l]
  | plus : WritesByte (byte ' ') [byte '+']

/-- A text as it may be written. -/
inductive Writes : ByteString → ByteString → Prop
  | nil : Writes [] []
  | cons {b : UInt8} {s t u : ByteString} : WritesByte b t → Writes s u → Writes (b :: s) (t ++ u)

/-- A key and a value with the sign between them. -/
def WritesPair (pair : ByteString × ByteString) (text : ByteString) : Prop :=
  ∃ key value, Writes pair.1 key ∧ Writes pair.2 value ∧ text = key ++ byte '=' :: value

/-- The fields with the sign between them. -/
def WritesForm (pairs : List (ByteString × ByteString)) (body : ByteString) : Prop :=
  ∃ texts, List.Forall₂ WritesPair pairs texts ∧ body = [byte '&'].intercalate texts

/-- A digit is none of the signs. -/
theorem hexCharToVal_reserved : ∀ b, isReserved b = true → hexCharToVal b = none := by
  intro b hb
  rw [isReserved, List.contains_iff_mem] at hb
  have hall : ∀ b ∈ ascii "%+&=", hexCharToVal b = none := by decide
  exact hall b hb

theorem hexToByte_digits {h l v : UInt8} (hv : hexToByte [h, l] = some v) :
    isReserved h = false ∧ isReserved l = false := by
  obtain ⟨high, hhigh, hrest⟩ := Option.bind_eq_some_iff.mp hv
  obtain ⟨low, hlow, -⟩ := Option.bind_eq_some_iff.mp hrest
  constructor
  · rw [Bool.eq_false_iff]
    intro hh
    rw [hexCharToVal_reserved h hh] at hhigh
    cases hhigh
  · rw [Bool.eq_false_iff]
    intro hl
    rw [hexCharToVal_reserved l hl] at hlow
    cases hlow

/-- What is written is read back. -/
theorem Writes.decoded_eq {s u : ByteString} (h : Writes s u) : decoded u = s := by
  induction h with
  | nil => rfl
  | @cons b s t u hbyte _ ih =>
      cases hbyte with
      | raw hraw =>
          have hpercent : b ≠ byte '%' := by
            rintro rfl
            exact absurd hraw (by decide)
          have hplus : b ≠ byte '+' := by
            rintro rfl
            exact absurd hraw (by decide)
          show decoded (b :: u) = b :: s
          rw [decoded_plain (fun hb => absurd hb hpercent), plainByte, if_neg hplus, ih]
      | escape hescape =>
          show decoded (byte '%' :: _ :: _ :: u) = b :: s
          rw [decoded_escape hescape, ih]
      | plus =>
          show decoded (byte '+' :: u) = byte ' ' :: s
          rw [decoded_plain (fun hb => absurd hb (by decide)), plainByte, if_pos rfl, ih]

/-- Neither of the signs between fields is written in one. -/
theorem Writes.not_mem {s u : ByteString} (h : Writes s u) {c : UInt8}
    (hc : c = byte '&' ∨ c = byte '=') : c ∉ u := by
  have hreserved : isReserved c = true := by
    rcases hc with rfl | rfl <;> decide
  have hsigns : c ≠ byte '%' ∧ c ≠ byte '+' := by
    rcases hc with rfl | rfl <;> decide
  have hother : ∀ {b : UInt8}, isReserved b = false → c ≠ b := by
    rintro b hb rfl
    exact Bool.false_ne_true (hb.symm.trans hreserved)
  induction h with
  | nil => exact List.not_mem_nil
  | cons hbyte _ ih =>
      rw [List.mem_append, not_or]
      refine ⟨?_, ih⟩
      cases hbyte with
      | raw hraw =>
          rw [List.mem_singleton]
          exact hother hraw
      | escape hescape =>
          obtain ⟨hh, hl⟩ := hexToByte_digits hescape
          rw [List.mem_cons, List.mem_pair, not_or, not_or]
          exact ⟨hsigns.1, hother hh, hother hl⟩
      | plus =>
          rw [List.mem_singleton]
          exact hsigns.2

theorem Writes.ne_nil {s u : ByteString} (h : Writes s u) (hs : s ≠ []) : u ≠ [] := by
  rintro rfl
  exact hs (h.decoded_eq.symm.trans rfl)

/-! ## The fields of a body -/

/-- A pair is stored as what it was written for. -/
theorem storePair_writes {pair : ByteString × ByteString} {text : ByteString}
    (h : WritesPair pair text) (hkey : pair.1 ≠ []) (data : InsertionMap ByteString Json) :
    storePair data text = some (data.insert pair.1 (.string pair.2)) := by
  obtain ⟨key, value, hk, hv, rfl⟩ := h
  have hpos : key.length ≠ 0 := fun h0 => hk.ne_nil hkey (List.length_eq_zero_iff.mp h0)
  have hsign : indexOf [byte '='] (key ++ byte '=' :: value) = some key.length :=
    @indexOf_found (byte '=') [] key value (hk.not_mem (.inr rfl))
  have hcutKey : cut (key ++ byte '=' :: value) 0 key.length = some key := by
    rw [cut_within (Nat.zero_le _) (by rw [List.length_append]; omega)]
    exact congrArg some (slice_eq (a := []) rfl rfl (Nat.zero_add _).symm)
  have hcutValue : (if key.length + 1 < (key ++ byte '=' :: value).length then
      cut (key ++ byte '=' :: value) (key.length + 1) (key ++ byte '=' :: value).length
      else some []) = some value := by
    have hlength : (key ++ byte '=' :: value).length = key.length + 1 + value.length := by
      rw [List.length_append, List.length_cons]
      omega
    have hdrop : (key ++ byte '=' :: value).drop (key.length + 1) = value := by
      rw [List.append_cons]
      exact List.drop_left' (by rw [List.length_append]; rfl)
    split
    · rw [cut_rest (by omega), hdrop]
    · have hvalue : value = [] := List.length_eq_zero_iff.mp (by omega)
      rw [hvalue]
  rw [storePair, hsign]
  dsimp only
  rw [if_neg hpos, hcutValue, hcutKey, Option.bind_eq_bind, Option.bind_some, Option.bind_some,
    urlDecode_eq, urlDecode_eq, hk.decoded_eq, hv.decoded_eq]
  rfl

theorem WritesPair.not_mem {pair : ByteString × ByteString} {text : ByteString}
    (h : WritesPair pair text) : byte '&' ∉ text := by
  obtain ⟨key, value, hk, hv, rfl⟩ := h
  rw [List.mem_append, List.mem_cons, not_or, not_or]
  exact ⟨hk.not_mem (.inl rfl), by decide, hv.not_mem (.inl rfl)⟩

theorem WritesPair.ne_nil {pair : ByteString × ByteString} {text : ByteString}
    (h : WritesPair pair text) : text ≠ [] := by
  obtain ⟨key, value, -, -, rfl⟩ := h
  exact List.append_ne_nil_of_right_ne_nil _ (List.cons_ne_nil _ _)

/-- What holds of every text that a pair is written as holds of the texts of a form. -/
theorem forall_texts {P : ByteString → Prop} (hP : ∀ {pair text}, WritesPair pair text → P text)
    {pairs : List (ByteString × ByteString)} {texts : List ByteString}
    (h : List.Forall₂ WritesPair pairs texts) : ∀ t ∈ texts, P t := by
  induction h with
  | nil => exact fun t ht => absurd ht List.not_mem_nil
  | cons hpair _ ih =>
      intro t ht
      rcases List.mem_cons.mp ht with rfl | ht
      · exact hP hpair
      · exact ih t ht

theorem foldlM_storePair {pairs : List (ByteString × ByteString)} {texts : List ByteString}
    (h : List.Forall₂ WritesPair pairs texts) (hkeys : ∀ p ∈ pairs, p.1 ≠ []) :
    ∀ data : InsertionMap ByteString Json, texts.foldlM storePair data
      = some (pairs.foldl (fun data p => data.insert p.1 (.string p.2)) data) := by
  induction h with
  | nil => exact fun _ => rfl
  | cons hpair _ ih =>
      intro data
      rw [List.foldlM_cons, storePair_writes hpair (hkeys _ (List.mem_cons_self ..))]
      exact ih (fun p hp => hkeys p (List.mem_cons_of_mem _ hp)) _

/-- What the fields of a form are read as. -/
def FormReads (pairs : List (ByteString × ByteString)) (body : ByteString) : Prop :=
  ∀ c : Context, c.body = body → ∃ data : InsertionMap ByteString Json,
    parseFormData c = some data ∧ data.entries = pairs.map (fun p => (p.1, .string p.2))

theorem parseFormData_writes {pairs : List (ByteString × ByteString)} {body : ByteString}
    (hdistinct : (pairs.map Prod.fst).Nodup) (hkeys : ∀ p ∈ pairs, p.1 ≠ [])
    (h : WritesForm pairs body) : FormReads pairs body := by
  rintro c rfl
  obtain ⟨texts, htexts, hbody⟩ := h
  have hentries : (pairs.foldl (fun data p => data.insert p.1 (.string p.2))
      (.empty : InsertionMap ByteString Json)).entries
        = pairs.map (fun p => (p.1, .string p.2)) :=
    InsertionMap.entries_foldl_insert _ _ pairs .empty hdistinct
  refine ⟨_, ?_, hentries⟩
  have hfold := foldlM_storePair htexts hkeys .empty
  by_cases hempty : texts = []
  · subst hempty
    rw [parseFormData, if_pos (List.length_eq_zero_iff.mpr hbody)]
    exact hfold
  · have hfree : ∀ t ∈ texts, byte '&' ∉ t := forall_texts WritesPair.not_mem htexts
    have hlength : ¬ c.body.length = 0 := by
      rw [hbody, List.length_eq_zero_iff]
      exact intercalate_ne_nil hempty (forall_texts WritesPair.ne_nil htexts)
    rw [parseFormData, if_neg hlength, hbody, splitStr_intercalate hempty hfree]
    exact hfold

end VHono
