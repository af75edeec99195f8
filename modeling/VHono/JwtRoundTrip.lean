import VHono.JwtTokens

/-! # The round trip of a payload

    A payload is written as the members of an object, and an object with one
    member a name reads as those members.  A string is read back exactly if it
    is UTF-8 and its control characters are among the three that are escaped. -/

namespace VHono

open ByteString JsonText

/-! ## Strings -/

/-- A byte that is no control character, or one of the three that are escaped. -/
def isTame (b : UInt8) : Bool :=
  !(b < 0x20) || b == byte '\n' || b == byte '\r' || b == byte '\t'

/-- A string that is UTF-8, with no other control characters. -/
def Spellable (s : ByteString) : Prop := Utf8.valid s = true ∧ s.all isTame = true

instance (s : ByteString) : Decidable (Spellable s) := inferInstanceAs (Decidable (_ ∧ _))

/-- A byte is escaped by an ASCII byte that stands for it, or is none of those escaped. -/
theorem escapeJsonByte_cases (b : UInt8) :
    (∃ e, escapeJsonByte b = [byte '\\', e] ∧ shortEscape e = some b ∧ e < 0x80 ∧ b < 0x80 ∧
      isTame b = true) ∨
    (escapeJsonByte b = [b] ∧ b ≠ byte '"' ∧ b ≠ byte '\\' ∧ isTame b = !(b < 0x20)) := by
  by_cases hquote : b = byte '"'
  · subst hquote
    exact .inl ⟨byte '"', by decide⟩
  by_cases hslash : b = byte '\\'
  · subst hslash
    exact .inl ⟨byte '\\', by decide⟩
  by_cases hnewline : b = byte '\n'
  · subst hnewline
    exact .inl ⟨byte 'n', by decide⟩
  by_cases hreturn : b = byte '\r'
  · subst hreturn
    exact .inl ⟨byte 'r', by decide⟩
  by_cases htab : b = byte '\t'
  · subst htab
    exact .inl ⟨byte 't', by decide⟩
  refine .inr ⟨?_, hquote, hslash, ?_⟩
  · rw [escapeJsonByte, if_neg hquote, if_neg hslash, if_neg hnewline, if_neg hreturn, if_neg htab]
  · rw [isTame, beq_eq_false_iff_ne.mpr hnewline, beq_eq_false_iff_ne.mpr hreturn,
      beq_eq_false_iff_ne.mpr htab, Bool.or_false, Bool.or_false, Bool.or_false]

/-- An escaped byte does to UTF-8 what the byte does. -/
theorem run_escapeJsonByte (p : Utf8.Pending) (b : UInt8) :
    Utf8.run p (escapeJsonByte b) = Utf8.step p b := by
  rcases escapeJsonByte_cases b with ⟨e, hescape, -, he, hb, -⟩ | ⟨hescape, -⟩
  · rw [hescape, Utf8.run, Utf8.step_ascii (by decide), Utf8.step_ascii hb]
    by_cases hdue : p.due = 0
    · rw [if_pos hdue, Option.bind_some, Utf8.run, Utf8.step_ascii he]
      rfl
    · rw [if_neg hdue]
      rfl
  · rw [hescape, Utf8.run]
    cases Utf8.step p b <;> rfl

theorem valid_escapeJsonString (s : ByteString) :
    Utf8.valid (escapeJsonString s) = Utf8.valid s := by
  rw [Utf8.valid, escapeJsonString, Utf8.run_flatMap run_escapeJsonByte]
  rfl

/-- An escaped string is read back, or refused at its first control character. -/
theorem spells_escapeJsonString (s : ByteString) :
    Spells (escapeJsonString s) (if s.all isTame then some s else none) := by
  intro rest
  induction s with
  | nil => exact text_end rest
  | cons b s ih =>
      have hsplit : escapeJsonString (b :: s) ++ byte '"' :: rest
          = escapeJsonByte b ++ (escapeJsonString s ++ byte '"' :: rest) := List.append_assoc ..
      have hcons : ((if s.all isTame then some s else none).map (fun a => (a, rest))).map
            (fun r => (b :: r.1, r.2))
          = (if s.all isTame then some (b :: s) else none).map (fun a => (a, rest)) := by
        split <;> rfl
      rw [hsplit, List.all_cons]
      rcases escapeJsonByte_cases b with
        ⟨e, hescape, he, -, -, htame⟩ | ⟨hescape, hquote, hslash, htame⟩
      · rw [hescape, htame, Bool.true_and, ← hcons, ← ih]
        exact text_escape he _
      · rw [hescape, htame, List.singleton_append]
        by_cases hb : b < 0x20
        · rw [text_control hb, decide_eq_true hb]
          rfl
        · rw [text_plain hquote hslash hb, decide_eq_false hb, Bool.not_false, Bool.true_and,
            ← hcons, ← ih]

/-! ## Members -/

/-- The text of a value that is a string or an integer. -/
def jsonText (v : Json) : ByteString :=
  match v with
  | .string s => ascii "\"" ++ escapeJsonString s ++ ascii "\""
  | .integer n => intStr n
  | _ => []

/-- A string or an integer. -/
def IsPlain (v : Json) : Prop := (∃ s, v = .string s) ∨ ∃ n, v = .integer n

/-- The strings of a member can be written. -/
def Writable (m : ByteString × Json) : Prop :=
  Spellable m.1 ∧ ∀ s, m.2 = .string s → Spellable s

def memberJson (m : ByteString × Json) : ByteString :=
  memberText (escapeJsonString m.1) (jsonText m.2)

/-- The strings have no other control characters. -/
def isTameMember (m : ByteString × Json) : Bool :=
  m.1.all isTame &&
    match m.2 with
    | .string s => s.all isTame
    | _ => true

def isValidMember (m : ByteString × Json) : Bool :=
  Utf8.valid m.1 &&
    match m.2 with
    | .string s => Utf8.valid s
    | _ => true

theorem writable_iff (m : ByteString × Json) :
    Writable m ↔ isValidMember m = true ∧ isTameMember m = true := by
  obtain ⟨name, v⟩ := m
  cases v <;> simp [Writable, Spellable, isValidMember, isTameMember]
  tauto

theorem reads_memberJson {m : ByteString × Json} (hplain : IsPlain m.2) (fuel : Nat) :
    Reads (member (value (fuel + 1))) (byte '}') (memberJson m)
      (if isTameMember m then some m else none) := by
  obtain ⟨name, v⟩ := m
  have hname := spells_escapeJsonString name
  rcases hplain with ⟨s, rfl⟩ | ⟨n, rfl⟩
  · have hread := reads_member hname
      (reads_string fuel (spells_escapeJsonString s) (by decide))
    have hresult : (if isTameMember (name, .string s) then some (name, Json.string s) else none)
        = (if name.all isTame then some name else none).bind (fun n =>
          ((if s.all isTame then some s else none).map .string).map (fun v => (n, v))) := by
      show (if (name.all isTame && s.all isTame) = true then _ else _) = _
      cases name.all isTame <;> cases s.all isTame <;> rfl
    rw [hresult]
    exact hread
  · have hread := reads_member hname (reads_integer fuel n)
    have hresult : (if isTameMember (name, .integer n) then some (name, Json.integer n) else none)
        = (if name.all isTame then some name else none).bind (fun name =>
          (some (Json.integer n)).map (fun v => (name, v))) := by
      show (if (name.all isTame && true) = true then _ else _) = _
      cases name.all isTame <;> rfl
    rw [hresult]
    exact hread

theorem valid_intStr (n : Int) : Utf8.valid (intStr n) = true := by
  refine Utf8.valid_ascii (fun b hb => ?_)
  rcases mem_intStr hb with rfl | hdigit
  · decide
  · rw [isDigitByte, Bool.and_eq_true, decide_eq_true_eq, decide_eq_true_eq] at hdigit
    exact UInt8.lt_of_le_of_lt hdigit.2 (by decide)

theorem valid_memberJson {m : ByteString × Json} (hplain : IsPlain m.2) :
    Utf8.valid (memberJson m) = isValidMember m := by
  obtain ⟨name, v⟩ := m
  have htext : memberJson (name, v)
      = byte '"' :: (escapeJsonString name ++ byte '"' :: byte ':' :: jsonText v) := by
    rw [memberJson, memberText, List.append_assoc, List.append_assoc]
    rfl
  rw [htext, Utf8.valid_cons_ascii (by decide), Utf8.valid_append_ascii (by decide),
    Utf8.valid_cons_ascii (by decide), valid_escapeJsonString, isValidMember]
  rcases hplain with ⟨s, rfl⟩ | ⟨n, rfl⟩
  · have hstring : jsonText (.string s) = byte '"' :: (escapeJsonString s ++ byte '"' :: []) := by
      rw [jsonText, List.append_assoc]
      rfl
    rw [hstring, Utf8.valid_cons_ascii (by decide), Utf8.valid_append_ascii (by decide),
      valid_escapeJsonString]
    exact congrArg _ (Bool.and_true _)
  · exact congrArg _ (valid_intStr n)

theorem mapM_checked {α : Type} (test : α → Bool) (as : List α) :
    as.mapM (fun a => if test a then some a else none) = if as.all test then some as else none := by
  induction as with
  | nil => rfl
  | cons a as ih =>
      rw [List.mapM_cons, ih, List.all_cons]
      cases test a <;> cases as.all test <;> rfl

/-- The text of members reads as them if all can be written, and else is refused. -/
theorem decode_members {ms : List (ByteString × Json)} (hplain : ∀ m ∈ ms, IsPlain m.2) :
    decode (objectText (ms.map memberJson)) =
      if ms.all isValidMember && ms.all isTameMember then some (.object ms) else none := by
  have hvalid : Utf8.valid (objectText (ms.map memberJson)) = ms.all isValidMember := by
    rw [valid_objectText, List.all_map, Bool.eq_iff_iff, List.all_eq_true, List.all_eq_true]
    refine forall₂_congr (fun m hm => ?_)
    rw [Function.comp_apply, valid_memberJson (hplain m hm)]
  rw [decode_objectText ms (fun m hm fuel => reads_memberJson (hplain m hm) fuel), hvalid,
    mapM_checked]
  cases ms.all isValidMember <;> cases ms.all isTameMember <;> rfl

/-- They can all be written. -/
theorem all_writable_iff (ms : List (ByteString × Json)) :
    (ms.all isValidMember && ms.all isTameMember) = true ↔ ∀ m ∈ ms, Writable m := by
  rw [Bool.and_eq_true, List.all_eq_true, List.all_eq_true, ← forall₂_and]
  exact forall₂_congr (fun m _ => (writable_iff m).symm)

/-! ## The members of a payload -/

/-- The members for the standard claims, those of no content left out. -/
def stringField (s : ByteString) : Option Json := if s.length > 0 then some (.string s) else none

def numberField (n : Int64) : Option Json := if n ≠ 0 then some (.integer n.toInt) else none

def standardFields (payload : JwtPayload) : List (ByteString × Option Json) :=
  [(ascii "sub", stringField payload.sub), (ascii "iss", stringField payload.iss),
    (ascii "aud", stringField payload.aud), (ascii "exp", numberField payload.exp),
    (ascii "nbf", numberField payload.nbf), (ascii "iat", numberField payload.iat),
    (ascii "jti", stringField payload.jti)]

def present (field : ByteString × Option Json) : Option (ByteString × Json) :=
  field.2.map (fun v => (field.1, v))

def claimMember (claim : ByteString × ByteString) : ByteString × Json := (claim.1, .string claim.2)

def members (payload : JwtPayload) : List (ByteString × Json) :=
  (standardFields payload).filterMap present ++ payload.claims.entries.map claimMember

/-- The members of fields are the fields that hold a value. -/
theorem mem_filterMap_present {fields : List (ByteString × Option Json)} {m : ByteString × Json} :
    m ∈ fields.filterMap present ↔ (m.1, some m.2) ∈ fields := by
  rw [List.mem_filterMap]
  constructor
  · rintro ⟨⟨name, v⟩, hfield, hpresent⟩
    cases v with
    | none => cases hpresent
    | some v =>
        obtain rfl := Option.some.inj hpresent
        exact hfield
  · exact fun h => ⟨_, h, rfl⟩

/-- What holds of a string, if it is there, holds of the field. -/
theorem forall_stringField {P : Json → Prop} (s : ByteString) :
    (∀ v, stringField s = some v → P v) ↔ (s ≠ [] → P (.string s)) := by
  cases s with
  | nil => exact ⟨fun _ h => absurd rfl h, fun _ _ h => (by cases h)⟩
  | cons b s =>
      refine ⟨fun h _ => h _ rfl, fun h v hv => ?_⟩
      rw [← Option.some.inj hv]
      exact h (List.cons_ne_nil _ _)

theorem forall_numberField {P : Json → Prop} {n : Int64} (h : P (.integer n.toInt)) :
    ∀ v, numberField n = some v → P v := by
  intro v hv
  rw [numberField] at hv
  split at hv
  · exact Option.some.inj hv ▸ h
  · cases hv

/-- A field with its name, where the name needs no escape. -/
theorem stringPart_eq {name : ByteString} (hname : escapeJsonString name = name) (s : ByteString) :
    (if s.length > 0 then [stringPart name s] else [])
      = ((present (name, stringField s)).map memberJson).toList := by
  rw [present, stringField]
  split
  · simp [memberJson, memberText, jsonText, hname, stringPart, ascii]
  · rfl

theorem numberPart_eq {name : ByteString} (hname : escapeJsonString name = name) (n : Int64) :
    (if n ≠ 0 then [numberPart name n] else [])
      = ((present (name, numberField n)).map memberJson).toList := by
  rw [present, numberField]
  split
  · simp [memberJson, memberText, jsonText, hname, numberPart]
  · rfl

theorem encodePayload_eq (payload : JwtPayload) :
    encodePayload payload = objectText ((members payload).map memberJson) := by
  have hclaims : payload.claims.entries.map
        (fun claim => stringPart (escapeJsonString claim.1) claim.2)
      = (payload.claims.entries.map claimMember).map memberJson := by
    rw [List.map_map]
    refine List.map_congr_left (fun claim _ => ?_)
    simp [stringPart, claimMember, memberJson, memberText, jsonText, ascii]
  rw [encodePayload, objectText, members, List.map_append, ← hclaims, List.map_filterMap,
    stringPart_eq (by decide), stringPart_eq (by decide), stringPart_eq (by decide),
    numberPart_eq (by decide), numberPart_eq (by decide), numberPart_eq (by decide),
    stringPart_eq (by decide), List.filterMap_eq_flatMap_toList, standardFields]
  simp only [List.flatMap_cons, List.flatMap_nil, List.append_nil, List.append_assoc]

/-! ## Reading the members -/

theorem map_standardFields (payload : JwtPayload) :
    (standardFields payload).map Prod.fst = standardClaims := rfl

theorem nodup_standardClaims : standardClaims.Nodup := by decide

theorem map_claimMember (payload : JwtPayload) :
    (payload.claims.entries.map claimMember).map Prod.fst = payload.claims.keys := by
  rw [List.map_map]
  rfl

theorem sublist_present (fields : List (ByteString × Option Json)) :
    ((fields.filterMap present).map Prod.fst).Sublist (fields.map Prod.fst) := by
  induction fields with
  | nil => exact List.Sublist.slnil
  | cons field fields ih =>
      obtain ⟨name, v⟩ := field
      cases v with
      | none => exact ih.cons _
      | some v => exact ih.cons_cons _

/-- No custom claim has a standard name. -/
def JwtPayload.Disjoint (payload : JwtPayload) : Prop :=
  ∀ name ∈ payload.claims.keys, name ∉ standardClaims

instance (payload : JwtPayload) : Decidable payload.Disjoint :=
  inferInstanceAs (Decidable (∀ name ∈ payload.claims.keys, _))

section Read

variable {payload : JwtPayload} (hdisjoint : payload.Disjoint)
include hdisjoint

theorem nodup_members : ((members payload).map Prod.fst).Nodup := by
  rw [members, List.map_append, map_claimMember]
  refine List.nodup_append.mpr ⟨?_, payload.claims.nodup_keys, ?_⟩
  · exact nodup_standardClaims.sublist (sublist_present (standardFields payload))
  · rintro name hname _ hclaim rfl
    exact hdisjoint name hclaim ((sublist_present (standardFields payload)).subset hname)

/-- The object has the members, in order. -/
theorem entries_asMap : (asMap (.object (members payload))).entries = members payload := by
  have h := InsertionMap.entries_foldl_insert Prod.fst Prod.snd (members payload)
    InsertionMap.empty (nodup_members hdisjoint)
  exact h.trans (List.map_id _)

/-- A standard claim is found if it was written. -/
theorem get?_field {name : ByteString} {v : Option Json}
    (hfield : (name, v) ∈ standardFields payload) :
    (asMap (.object (members payload))).get? name = v := by
  have hentries := entries_asMap hdisjoint
  cases v with
  | some v =>
      refine InsertionMap.get?_of_mem_entries ?_
      rw [hentries, members]
      exact List.mem_append_left _ (mem_filterMap_present.mpr hfield)
  | none =>
      cases hget : (asMap (.object (members payload))).get? name with
      | none => rfl
      | some v =>
          have hmem := InsertionMap.mem_entries_of_get? hget
          have hstandard : name ∈ standardClaims := by
            rw [← map_standardFields payload]
            exact List.mem_map.mpr ⟨_, hfield, rfl⟩
          rw [hentries, members, List.mem_append] at hmem
          rcases hmem with hmem | hmem
          · -- the field was left out, and its name stands for no other
            have hsame := List.inj_on_of_nodup_map
              ((map_standardFields payload).symm ▸ nodup_standardClaims)
              (mem_filterMap_present.mp hmem) hfield rfl
            cases hsame
          · have hclaim : name ∈ payload.claims.keys := by
              rw [← map_claimMember]
              exact List.mem_map.mpr ⟨_, hmem, rfl⟩
            exact absurd hstandard (hdisjoint name hclaim)

end Read

theorem strOf_stringField (json2 : Json2) (s : ByteString) : json2.strOf (stringField s) = s := by
  cases s <;> rfl

theorem i64Of_numberField (json2 : Json2) (n : Int64) : json2.i64Of (numberField n) = n := by
  rw [numberField]
  by_cases hn : n = 0
  · rw [if_neg (not_not.mpr hn), hn]
    rfl
  · rw [if_pos hn]
    show (if -2 ^ 63 ≤ n.toInt ∧ n.toInt < 2 ^ 63 then Int64.ofInt n.toInt else _) = n
    rw [if_pos ⟨n.le_toInt, n.toInt_lt⟩, Int64.ofInt_toInt]

/-- The members of other names. -/
def isCustom (m : ByteString × Json) : Bool := decide (m.1 ∉ standardClaims)

theorem filter_custom {payload : JwtPayload} (hdisjoint : payload.Disjoint) :
    (members payload).filter isCustom = payload.claims.entries.map claimMember := by
  have hstandard : ((standardFields payload).filterMap present).filter isCustom = [] := by
    refine List.filter_eq_nil_iff.mpr (fun m hm => ?_)
    have hname : m.1 ∈ standardClaims :=
      (sublist_present (standardFields payload)).subset (List.mem_map_of_mem hm)
    rw [isCustom, decide_eq_true_eq]
    exact not_not.mpr hname
  have hcustom : (payload.claims.entries.map claimMember).filter isCustom
      = payload.claims.entries.map claimMember := by
    refine List.filter_eq_self.mpr (fun m hm => decide_eq_true (hdisjoint _ ?_))
    rw [← map_claimMember]
    exact List.mem_map_of_mem hm
  rw [members, List.filter_append, hstandard, hcustom, List.nil_append]

/-- The custom claims are those that were written. -/
theorem claims_read (json2 : Json2) {payload : JwtPayload} (hdisjoint : payload.Disjoint) :
    (asMap (.object (members payload))).entries.foldl
      (fun claims claim =>
        if claim.1 ∉ standardClaims then claims.insert claim.1 (json2.str claim.2) else claims)
      InsertionMap.empty = payload.claims := by
  have hfilter : ∀ ms : List (ByteString × Json), ms.foldl
        (fun (claims : InsertionMap ByteString ByteString) claim =>
          if claim.1 ∉ standardClaims then claims.insert claim.1 (json2.str claim.2) else claims)
        InsertionMap.empty
      = (ms.filter isCustom).foldl (fun claims claim => claims.insert claim.1 (json2.str claim.2))
        InsertionMap.empty := by
    intro ms
    simp only [List.foldl_filter, isCustom, decide_eq_true_eq]
  have hnodup : ((InsertionMap.empty : InsertionMap ByteString ByteString).keys ++
      (payload.claims.entries.map claimMember).map Prod.fst).Nodup := by
    rw [map_claimMember]
    exact payload.claims.nodup_keys
  refine InsertionMap.eq_of_entries ?_
  rw [entries_asMap hdisjoint, hfilter, filter_custom hdisjoint,
    InsertionMap.entries_foldl_insert Prod.fst (fun m => json2.str m.2) _ _ hnodup, List.map_map]
  exact List.map_id _

theorem plain_members (payload : JwtPayload) : ∀ m ∈ members payload, IsPlain m.2 := by
  have hstring : ∀ s v, stringField s = some v → IsPlain v :=
    fun s => (forall_stringField s).mpr (fun _ => .inl ⟨s, rfl⟩)
  have hnumber : ∀ n v, numberField n = some v → IsPlain v :=
    fun n => forall_numberField (.inr ⟨n.toInt, rfl⟩)
  have hfields : ∀ field ∈ standardFields payload, ∀ v, field.2 = some v → IsPlain v := by
    simp only [standardFields, List.forall_mem_cons]
    exact ⟨hstring _, hstring _, hstring _, hnumber _, hnumber _, hnumber _, hstring _,
      List.forall_mem_nil _⟩
  intro m hm
  rcases List.mem_append.mp hm with hm | hm
  · exact hfields _ (mem_filterMap_present.mp hm) m.2 rfl
  · obtain ⟨claim, -, rfl⟩ := List.mem_map.mp hm
    exact .inl ⟨claim.2, rfl⟩

/-- The text of a payload that can be written is read as the payload. -/
theorem parsePayload_encode (json2 : Json2) {payload : JwtPayload} (hdisjoint : payload.Disjoint)
    (h : ∀ m ∈ members payload, Writable m) :
    parsePayload json2 (encodePayload payload) = .ok payload := by
  have hget : ∀ field ∈ standardFields payload,
      (asMap (.object (members payload))).get? field.1 = field.2 :=
    fun field hfield => get?_field hdisjoint hfield
  simp only [standardFields, List.forall_mem_cons] at hget
  obtain ⟨hsub, hiss, haud, hexp, hnbf, hiat, hjti, -⟩ := hget
  rw [parsePayload, encodePayload_eq, decode_members (plain_members payload),
    if_pos ((all_writable_iff _).mpr h)]
  dsimp only
  rw [hsub, hiss, haud, hexp, hnbf, hiat, hjti, strOf_stringField, strOf_stringField,
    strOf_stringField, i64Of_numberField, i64Of_numberField, i64Of_numberField, strOf_stringField,
    claims_read json2 hdisjoint]

/-- Any other text is refused. -/
theorem parsePayload_refused (json2 : Json2) {payload : JwtPayload}
    (h : ¬ ∀ m ∈ members payload, Writable m) :
    parsePayload json2 (encodePayload payload)
      = .error (ascii "Invalid JSON payload: " ++ json2.decodeError (encodePayload payload)) := by
  rw [parsePayload, encodePayload_eq, decode_members (plain_members payload),
    if_neg (fun hall => h ((all_writable_iff _).mp hall))]

/-! ## What can be written -/

/-- Every string of the payload is UTF-8 with no control characters but line feed, carriage return
    and tab. -/
structure JwtPayload.Spelled (payload : JwtPayload) : Prop where
  sub    : Spellable payload.sub
  iss    : Spellable payload.iss
  aud    : Spellable payload.aud
  jti    : Spellable payload.jti
  claims : ∀ claim ∈ payload.claims.entries, Spellable claim.1 ∧ Spellable claim.2

theorem writable_stringField {name : ByteString} (hname : Spellable name) (s : ByteString) :
    (∀ v, stringField s = some v → Writable (name, v)) ↔ Spellable s := by
  rw [forall_stringField]
  constructor
  · intro h
    by_cases hs : s = []
    · subst hs
      decide
    · exact (h hs).2 s rfl
  · exact fun h _ => ⟨hname, fun t ht => Json.string.inj ht ▸ h⟩

theorem writable_numberField {name : ByteString} (hname : Spellable name) (n : Int64) :
    ∀ v, numberField n = some v → Writable (name, v) :=
  forall_numberField ⟨hname, nofun⟩

theorem writable_members_iff (payload : JwtPayload) :
    (∀ m ∈ members payload, Writable m) ↔ payload.Spelled := by
  have hclaims : (∀ m ∈ payload.claims.entries.map claimMember, Writable m) ↔
      ∀ claim ∈ payload.claims.entries, Spellable claim.1 ∧ Spellable claim.2 := by
    rw [List.forall_mem_map]
    refine forall₂_congr (fun claim _ => and_congr_right (fun _ => ?_))
    exact ⟨fun h => h _ rfl, fun h s hs => Json.string.inj hs ▸ h⟩
  have hfields : (∀ m ∈ (standardFields payload).filterMap present, Writable m) ↔
      ∀ field ∈ standardFields payload, ∀ v, field.2 = some v → Writable (field.1, v) := by
    constructor
    · rintro h ⟨name, v⟩ hfield w rfl
      exact h (name, w) (mem_filterMap_present.mpr hfield)
    · exact fun h m hm => h _ (mem_filterMap_present.mp hm) m.2 rfl
  rw [members, List.forall_mem_append, hclaims, hfields]
  simp only [standardFields, List.forall_mem_cons]
  rw [writable_stringField (by decide), writable_stringField (by decide),
    writable_stringField (by decide), writable_stringField (by decide)]
  constructor
  · rintro ⟨⟨hsub, hiss, haud, -, -, -, hjti, -⟩, hcustom⟩
    exact ⟨hsub, hiss, haud, hjti, hcustom⟩
  · rintro ⟨hsub, hiss, haud, hjti, hcustom⟩
    exact ⟨⟨hsub, hiss, haud, writable_numberField (by decide) _,
      writable_numberField (by decide) _, writable_numberField (by decide) _, hjti, nofun⟩, hcustom⟩

/-! ## The token of a payload -/

section Token

variable (json2 : Json2) (hashes : KeyedHashes)

theorem headerAlg_signed (alg : JwtAlgorithm) :
    headerAlg json2 (base64urlEncode (ascii "\x7b\"alg\":\"" ++ algToString alg ++
      ascii "\",\"typ\":\"" ++ ascii "JWT" ++ ascii "\"\x7d")) = some alg := by
  let ms : List (ByteString × Json) :=
    [(ascii "alg", .string (algToString alg)), (ascii "typ", .string (ascii "JWT"))]
  have htext : ascii "\x7b\"alg\":\"" ++ algToString alg ++ ascii "\",\"typ\":\"" ++ ascii "JWT" ++
      ascii "\"\x7d" = objectText (ms.map memberJson) := by
    cases alg <;> rfl
  have hplain : ∀ m ∈ ms, IsPlain m.2 := by
    intro m hm
    rcases List.mem_cons.mp hm with rfl | hm
    · exact .inl ⟨_, rfl⟩
    · obtain rfl := List.mem_singleton.mp hm
      exact .inl ⟨_, rfl⟩
  have hall : (ms.all isValidMember && ms.all isTameMember) = true := by
    cases alg <;> decide
  rw [headerAlg, base64urlDecode_encode, htext, decode_members hplain, if_pos hall]
  cases alg <;> rfl

/-- Three parts without dots. -/
theorem splitOn_dots {a b c : ByteString} (ha : byte '.' ∉ a) (hb : byte '.' ∉ b)
    (hc : byte '.' ∉ c) :
    (a ++ ascii "." ++ b ++ ascii "." ++ c).splitOn (byte '.') = [a, b, c] := by
  have htext : a ++ ascii "." ++ b ++ ascii "." ++ c = a ++ byte '.' :: (b ++ byte '.' :: c) := by
    simp [ascii, byte]
  rw [htext, List.splitOn_append_cons_self_of_not_mem ha,
    List.splitOn_append_cons_self_of_not_mem hb, List.splitOn_eq_singleton hc]

/-- What is signed is read as its payload text. -/
theorem verify_signed (payload : JwtPayload) {secret : ByteString} (hsecret : secret ≠ [])
    (alg : JwtAlgorithm) : ∃ token, signJwt hashes payload secret alg = .ok token ∧
      ∀ result, verifyJwt json2 hashes token secret alg = .ok result ↔
        parsePayload json2 (encodePayload payload) = .ok result := by
  refine ⟨_, if_neg (fun h => hsecret (List.length_eq_zero_iff.mp h)), fun result => ?_⟩
  dsimp only
  have hsplit := fun a b c => splitOn_dots (not_dot_mem_base64urlEncode a)
    (not_dot_mem_base64urlEncode b) (not_dot_mem_base64urlEncode c)
  rw [verifyJwt_eq_ok, and_iff_right hsecret, decodeJwt, hsplit]
  dsimp only
  rw [base64urlDecode_encode]
  constructor
  · rintro ⟨header, text, -, -, h⟩
    exact h
  · exact fun h => ⟨_, _, rfl, headerAlg_signed json2 alg, h⟩

end Token

/-- What is stored last is the text of the payload. -/
theorem getJwtPayload_store (json2 : Json2) (c : Context) (payload : JwtPayload) :
    getJwtPayload json2 (storeJwtPayload c payload)
      = (parsePayload json2 (encodePayload payload)).toOption := by
  rw [getJwtPayload, Context.get, storeJwtPayload]
  dsimp only
  rw [Context.set, InsertionMap.get?_insert_self]

/-- Verification returns the payload that was signed, and so does a context it was stored in. -/
def JwtRoundTrips (json2 : Json2) (hashes : KeyedHashes) (payload : JwtPayload)
    (secret : ByteString) (alg : JwtAlgorithm) : Prop :=
  (∃ token, signJwt hashes payload secret alg = .ok token ∧
    verifyJwt json2 hashes token secret alg = .ok payload) ∧
  ∀ c, getJwtPayload json2 (storeJwtPayload c payload) = some payload

/-- **THE ROUND TRIP** holds exactly if all strings are spelled without other control characters. -/
theorem jwtRoundTrips_iff (json2 : Json2) (hashes : KeyedHashes) {payload : JwtPayload}
    (hdisjoint : payload.Disjoint) {secret : ByteString} (hsecret : secret ≠ [])
    (alg : JwtAlgorithm) :
    JwtRoundTrips json2 hashes payload secret alg ↔ payload.Spelled := by
  rw [← writable_members_iff]
  obtain ⟨token, hsign, hverify⟩ := verify_signed json2 hashes payload hsecret alg
  constructor
  · rintro ⟨⟨token', hsign', h⟩, -⟩
    obtain rfl : token = token' := Except.ok.inj (hsign.symm.trans hsign')
    by_contra hnot
    rw [hverify, parsePayload_refused json2 hnot] at h
    cases h
  · intro h
    have hparse := parsePayload_encode json2 hdisjoint h
    refine ⟨⟨token, hsign, (hverify _).mpr hparse⟩, fun c => ?_⟩
    rw [getJwtPayload_store, hparse]
    rfl

/-- A payload with a subject and a claim. -/
def userPayload (sub : ByteString) : JwtPayload :=
  ⟨sub, [], [], 1700000000, 0, 0, [], InsertionMap.empty.insert (ascii "role") (ascii "a\"b\nc")⟩

theorem jwtRoundTrips_user :
    JwtRoundTrips plainJson2 plainHashes (userPayload (ascii "u1")) (ascii "k") .hs512 :=
  (jwtRoundTrips_iff plainJson2 plainHashes (by decide) (by decide) .hs512).mpr
    ⟨by decide, by decide, by decide, by decide, by decide⟩

/-- A subject with the control character 1 is refused after it was signed. -/
theorem control_character_refused : (userPayload [1]).Disjoint ∧ ascii "k" ≠ [] ∧
    ¬ JwtRoundTrips plainJson2 plainHashes (userPayload [1]) (ascii "k") .hs256 := by
  have hrefused : ¬ ∀ m ∈ members (userPayload [1]), Writable m := fun h =>
    absurd ((writable_members_iff _).mp h).sub (by decide)
  obtain ⟨token, hsign, hverify⟩ := verify_signed plainJson2 plainHashes (userPayload [1])
    (show ascii "k" ≠ [] by decide) .hs256
  refine ⟨by decide, by decide, ?_⟩
  rintro ⟨⟨token', hsign', h⟩, -⟩
  obtain rfl : token = token' := Except.ok.inj (hsign.symm.trans hsign')
  rw [hverify, parsePayload_refused plainJson2 hrefused] at h
  cases h

end VHono
