import VHono.JsonUtf8
import VHono.Jwt
import VHono.Validator

/-! # Validated data in the store

    The data that the validator passes on is kept in the store of the context,
    whole as a JSON text and by field as strings, all under one prefix.  The
    key of the whole is the key of a field as well, and names are put into the
    text as they stand.  What the JSON library writes of a value is its text. -/

namespace VHono

open ByteString JsonText

section Store

variable {F : Type} (lib : Validator.Library F)

/-- `'"${key}":${value.json_str()}'` -/
def jsonPart (field : ByteString × Json) : ByteString :=
  ascii "\"" ++ field.1 ++ ascii "\":" ++ lib.jsonStr field.2

def validatedJson (data : InsertionMap ByteString Json) : ByteString :=
  ascii "\x7b" ++ List.intercalate (ascii ",") (data.entries.map (jsonPart lib)) ++ ascii "\x7d"

def storeValidatedData (c : Context) (data : InsertionMap ByteString Json) : Context :=
  let c := c.set (ascii "validated_data") (validatedJson lib data)
  data.entries.foldl (fun c field => c.set (ascii "validated_" ++ field.1) (lib.str field.2)) c

end Store

def getValidatedData (c : Context) : InsertionMap ByteString ByteString :=
  c.store.entries.foldl
    (fun data entry =>
      if startsWith entry.1 (ascii "validated_") = true ∧ entry.1 ≠ ascii "validated_data" then
        data.insert (entry.1.drop 10) entry.2
      else data)
    .empty

def getValidatedJson (c : Context) : Option ByteString := c.get (ascii "validated_data")

def getValidatedField (c : Context) (field : ByteString) : Option ByteString :=
  c.get (ascii "validated_" ++ field)

/-- All that was stored is read back: the map from its text, and the strings of the fields, all
    together and one by one. -/
structure ReadBack {F : Type} (lib : Validator.Library F) (c : Context)
    (data : InsertionMap ByteString Json) : Prop where
  json   : ∃ text, getValidatedJson (storeValidatedData lib c data) = some text ∧
    decode text = some (.object data.entries)
  fields : (getValidatedData (storeValidatedData lib c data)).entries
    = data.entries.map (fun field => (field.1, lib.str field.2))
  field  : ∀ name v, data.get? name = some v →
    getValidatedField (storeValidatedData lib c data) name = some (lib.str v)

/-! ## The text -/

section Text

variable {F : Type} {lib : Validator.Library F} {data : InsertionMap ByteString Json}

theorem length_le_of_mem (sep : ByteString) {t : ByteString} : ∀ {ts : List ByteString}, t ∈ ts →
    t.length ≤ (List.intercalate sep ts).length := by
  intro ts
  induction ts with
  | nil => exact fun h => absurd h List.not_mem_nil
  | cons u ts ih =>
      intro h
      cases ts with
      | nil => rw [List.intercalate_singleton, List.mem_singleton.mp h]
      | cons u' ts =>
          rw [List.intercalate_cons_cons, List.length_append, List.length_append]
          rcases List.mem_cons.mp h with rfl | hmem
          · exact Nat.le_trans (Nat.le_add_right _ _) (Nat.le_add_right _ _)
          · exact Nat.le_trans (ih hmem) (Nat.le_add_left _ _)

/-- Where the values are written, the text is the map's exactly if the names can be quoted. -/
theorem decode_validatedJson
    (hvalues : ∀ field ∈ data.entries, TextOf (lib.jsonStr field.2) field.2) :
    decode (validatedJson lib data) = some (.object data.entries) ↔
      ∀ field ∈ data.entries, Verbatim field.1 := by
  have htext : validatedJson lib data = objectText (data.entries.map (jsonPart lib)) := rfl
  have hlength : (objectText (data.entries.map (jsonPart lib))).length
      = (List.intercalate (ascii ",") (data.entries.map (jsonPart lib))).length + 1 + 1 := by
    rw [objectText, List.length_append, List.length_append, Nat.add_comm (ascii "\x7b").length]
    rfl
  have hfuel : ∀ field ∈ data.entries, (lib.jsonStr field.2).length
      ≤ (List.intercalate (ascii ",") (data.entries.map (jsonPart lib))).length := by
    intro field hfield
    refine Nat.le_trans ?_ (length_le_of_mem _ (List.mem_map_of_mem hfield))
    rw [jsonPart, List.length_append]
    exact Nat.le_add_left _ _
  have hvalid : Utf8.valid (objectText (data.entries.map (jsonPart lib))) = true ↔
      ∀ field ∈ data.entries, Utf8.valid field.1 = true := by
    rw [valid_objectText, List.all_map, List.all_eq_true]
    refine forall₂_congr (fun field hfield => ?_)
    show Utf8.valid (memberText field.1 (lib.jsonStr field.2)) = true ↔ _
    rw [valid_memberText, (hvalues field hfield).valid, Bool.and_true]
  have hiff := decode_objectText_iff (f := jsonPart lib) (g := id)
    (P := fun field => Unescaped field.1 ∧ True)
    data.entries (by rw [hlength]; exact Nat.lt_succ_of_lt (Nat.lt_succ_self _))
    (fun field hfield fuel hle => settles_member
      ((hvalues field hfield).settles (Nat.le_trans (hfuel field hfield) hle)))
  rw [List.map_id, hvalid] at hiff
  rw [htext, hiff, ← forall₂_and]
  exact forall₂_congr (fun field _ => and_congr_right (fun _ => iff_of_eq (and_true _)))

end Text

/-! ## The store -/

section Entries

variable {F : Type} {lib : Validator.Library F} {c : Context}
variable {data : InsertionMap ByteString Json}

/-- The context has no validated entries. -/
def Unvalidated (c : Context) : Prop :=
  ∀ key ∈ c.store.keys, ¬ startsWith key (ascii "validated_") = true

def fieldKey (field : ByteString × Json) : ByteString := ascii "validated_" ++ field.1

theorem fieldKey_ne {field : ByteString × Json} :
    fieldKey field = ascii "validated_data" ↔ field.1 = ascii "data" :=
  ⟨fun h => List.append_cancel_left (h : _ = ascii "validated_" ++ ascii "data"),
    fun h => congrArg (ascii "validated_" ++ ·) h⟩

theorem drop_keyPrefix (name : ByteString) : (ascii "validated_" ++ name).drop 10 = name := rfl

theorem startsWith_fieldKey (field : ByteString × Json) :
    startsWith (fieldKey field) (ascii "validated_") = true :=
  startsWith_append _ _

theorem store_foldl (es : List (ByteString × Json)) (c : Context) :
    (es.foldl (fun c field => c.set (ascii "validated_" ++ field.1) (lib.str field.2)) c).store
      = es.foldl (fun m field => m.insert (fieldKey field) (lib.str field.2)) c.store := by
  induction es generalizing c with
  | nil => rfl
  | cons e es ih =>
      rw [List.foldl_cons, List.foldl_cons, ih]
      rfl

/-- Where no field has the key of the whole, the entries are added one after another. -/
theorem entries_storeValidatedData (lib : Validator.Library F) (hfresh : Unvalidated c)
    (hdata : ∀ field ∈ data.entries, field.1 ≠ ascii "data") :
    (storeValidatedData lib c data).store.entries
      = c.store.entries ++ [(ascii "validated_data", validatedJson lib data)] ++
        data.entries.map (fun field => (fieldKey field, lib.str field.2)) := by
  have hnew : ascii "validated_data" ∉ c.store.keys :=
    fun hmem => hfresh _ hmem (by decide)
  have hset : (c.store.insert (ascii "validated_data") (validatedJson lib data)).entries
      = c.store.entries ++ [(ascii "validated_data", validatedJson lib data)] :=
    InsertionMap.setEntry_new hnew
  have hkeys : (c.store.insert (ascii "validated_data") (validatedJson lib data)).keys
      = c.store.keys ++ [ascii "validated_data"] := by
    rw [InsertionMap.keys, hset, List.map_append]
    rfl
  have hfields : (data.entries.map fieldKey).Nodup := by
    have hmap : data.entries.map fieldKey
        = (data.entries.map Prod.fst).map (ascii "validated_" ++ ·) := by
      rw [List.map_map]
      rfl
    rw [hmap]
    exact data.nodup.map (fun _ _ h => List.append_cancel_left h)
  have hnodup : ((c.store.insert (ascii "validated_data") (validatedJson lib data)).keys ++
      data.entries.map fieldKey).Nodup := by
    refine List.nodup_append.mpr ⟨InsertionMap.nodup_keys _, hfields, ?_⟩
    rintro key hkey _ hfield rfl
    obtain ⟨field, hmem, rfl⟩ := List.mem_map.mp hfield
    rw [hkeys] at hkey
    rcases List.mem_append.mp hkey with hold | hwhole
    · exact hfresh _ hold (startsWith_fieldKey field)
    · exact hdata field hmem (fieldKey_ne.mp (List.mem_singleton.mp hwhole))
  rw [storeValidatedData, store_foldl]
  show (data.entries.foldl _ (c.store.insert (ascii "validated_data") (validatedJson lib data))).entries
    = _
  rw [InsertionMap.entries_foldl_insert _ _ _ _ hnodup, hset]

end Entries

/-! ## Reading the fields -/

/-- What an entry of the store adds to the fields. -/
def addField (data : InsertionMap ByteString ByteString) (entry : ByteString × ByteString) :
    InsertionMap ByteString ByteString :=
  if startsWith entry.1 (ascii "validated_") = true ∧ entry.1 ≠ ascii "validated_data" then
    data.insert (entry.1.drop 10) entry.2
  else data

theorem getValidatedData_eq (c : Context) :
    getValidatedData c = c.store.entries.foldl addField .empty := rfl

/-- Other entries add nothing. -/
theorem foldl_addField_skip : ∀ (es : List (ByteString × ByteString))
    (data : InsertionMap ByteString ByteString),
    (∀ e ∈ es, startsWith e.1 (ascii "validated_") = true → e.1 = ascii "validated_data") →
      es.foldl addField data = data := by
  intro es
  induction es with
  | nil => exact fun _ _ => rfl
  | cons e es ih =>
      intro data h
      obtain ⟨he, hes⟩ := List.forall_mem_cons.mp h
      have hskip : addField data e = data := if_neg (fun hboth => hboth.2 (he hboth.1))
      rw [List.foldl_cons, hskip, ih data hes]

/-- The entries of the fields add them under their names. -/
theorem foldl_addField_fields {F : Type} (lib : Validator.Library F) :
    ∀ (es : List (ByteString × Json)) (data : InsertionMap ByteString ByteString),
      (∀ field ∈ es, field.1 ≠ ascii "data") →
        (es.map (fun field => (fieldKey field, lib.str field.2))).foldl addField data
          = es.foldl (fun m field => m.insert field.1 (lib.str field.2)) data := by
  intro es
  induction es with
  | nil => exact fun _ _ => rfl
  | cons e es ih =>
      intro data h
      obtain ⟨he, hes⟩ := List.forall_mem_cons.mp h
      have hadd : addField data (fieldKey e, lib.str e.2) = data.insert e.1 (lib.str e.2) := by
        rw [addField, if_pos ⟨startsWith_fieldKey e, fun heq => he (fieldKey_ne.mp heq)⟩]
        exact congrArg (data.insert · (lib.str e.2)) (drop_keyPrefix e.1)
      rw [List.map_cons, List.foldl_cons, List.foldl_cons, hadd, ih _ hes]

/-- No field is called `data`. -/
theorem getValidatedData_data (c : Context) :
    (getValidatedData c).get? (ascii "data") = none := by
  rw [getValidatedData_eq]
  have hstep : ∀ (es : List (ByteString × ByteString)) (data : InsertionMap ByteString ByteString),
      data.get? (ascii "data") = none → (es.foldl addField data).get? (ascii "data") = none := by
    intro es
    induction es with
    | nil => exact fun _ h => h
    | cons e es ih =>
        intro data h
        refine ih _ ?_
        rw [addField]
        split
        · rename_i hfield
          rw [InsertionMap.get?_insert_ne]
          · exact h
          · intro hname
            obtain ⟨rest, hrest⟩ := startsWith_iff.mp hfield.1
            rw [← hrest, drop_keyPrefix] at hname
            refine hfield.2 ?_
            rw [← hrest, ← hname]
            rfl
        · exact h
  exact hstep _ _ rfl

section ReadBack

variable {F : Type} {lib : Validator.Library F} {c : Context}
variable {data : InsertionMap ByteString Json}

theorem entries_getValidatedData (hfresh : Unvalidated c)
    (hdata : ∀ field ∈ data.entries, field.1 ≠ ascii "data") :
    (getValidatedData (storeValidatedData lib c data)).entries
      = data.entries.map (fun field => (field.1, lib.str field.2)) := by
  rw [getValidatedData_eq, entries_storeValidatedData lib hfresh hdata, List.foldl_append,
    List.foldl_append, foldl_addField_skip c.store.entries,
    foldl_addField_skip [(ascii "validated_data", _)],
    foldl_addField_fields lib _ _ hdata, InsertionMap.entries_foldl_insert]
  · rfl
  · exact data.nodup
  · exact List.forall_mem_singleton.mpr (fun _ => rfl)
  · exact fun e he hstart => absurd hstart (hfresh _ (List.mem_map_of_mem he))

/-- The whole is found under its key, and each field under its own. -/
theorem get_storeValidatedData (lib : Validator.Library F) (hfresh : Unvalidated c)
    (hdata : ∀ field ∈ data.entries, field.1 ≠ ascii "data") :
    getValidatedJson (storeValidatedData lib c data) = some (validatedJson lib data) ∧
      ∀ field ∈ data.entries,
        getValidatedField (storeValidatedData lib c data) field.1 = some (lib.str field.2) := by
  have hentries := entries_storeValidatedData lib hfresh hdata
  constructor
  · refine InsertionMap.get?_of_mem_entries ?_
    rw [hentries]
    exact List.mem_append_left _ (List.mem_append_right _ (List.mem_singleton.mpr rfl))
  · intro field hfield
    refine InsertionMap.get?_of_mem_entries ?_
    rw [hentries]
    exact List.mem_append_right _ (List.mem_map.mpr ⟨field, hfield, rfl⟩)

end ReadBack

/-- **VALIDATED DATA.**  In a context without validated entries, where the JSON library writes every
    value that is UTF-8 as its text, all that is stored is read back exactly if no field is called
    `data`, every name can be quoted, and every value is UTF-8. -/
theorem readBack_iff {F : Type} (lib : Validator.Library F) (c : Context)
    (data : InsertionMap ByteString Json) (hfresh : Unvalidated c)
    (hjson : ∀ field ∈ data.entries, IsUtf8 field.2 → TextOf (lib.jsonStr field.2) field.2) :
    ReadBack lib c data ↔
      ∀ field ∈ data.entries, field.1 ≠ ascii "data" ∧ Verbatim field.1 ∧ IsUtf8 field.2 := by
  constructor
  · intro h
    have hdata : ∀ field ∈ data.entries, field.1 ≠ ascii "data" := by
      intro field hfield hname
      have hread : (getValidatedData (storeValidatedData lib c data)).get? (ascii "data")
          = some (lib.str field.2) := by
        refine InsertionMap.get?_of_mem_entries ?_
        rw [h.fields]
        exact List.mem_map.mpr ⟨field, hfield, by rw [hname]⟩
      rw [getValidatedData_data] at hread
      cases hread
    obtain ⟨text, htext, hdecode⟩ := h.json
    rw [(get_storeValidatedData lib hfresh hdata).1] at htext
    rw [← Option.some.inj htext] at hdecode
    have hutf8 : ∀ field ∈ data.entries, IsUtf8 field.2 := by
      cases isUtf8_of_decode hdecode with
      | object _ hvalues => exact hvalues
    have hnames := (decode_validatedJson (fun field hfield =>
      hjson field hfield (hutf8 field hfield))).mp hdecode
    exact fun field hfield => ⟨hdata field hfield, hnames field hfield, hutf8 field hfield⟩
  · intro h
    have hdata : ∀ field ∈ data.entries, field.1 ≠ ascii "data" := fun field hfield =>
      (h field hfield).1
    obtain ⟨hwhole, hfields⟩ := get_storeValidatedData lib hfresh hdata
    refine ⟨⟨_, hwhole, ?_⟩, entries_getValidatedData hfresh hdata, fun name v hv => ?_⟩
    · exact (decode_validatedJson (fun field hfield =>
        hjson field hfield (h field hfield).2.2)).mpr (fun field hfield => (h field hfield).2.1)
    · exact hfields (name, v) (InsertionMap.mem_entries_of_get? hv)

/-- A library that writes integers and booleans. -/
def literalLibrary : Validator.Library Nat where
  jsonStr
    | .integer n => intStr n
    | .bool true => ascii "true"
    | .bool false => ascii "false"
    | _ => ascii "null"
  otherInt _ := 0
  f64 _ := 0
  less n m := decide (n < m)
  f64Str := decimal
  regexOpt _ := none

def emptyContext : Context where
  req := ⟨.get, ascii "/", [], []⟩
  params := .empty
  query := .empty
  url := ascii "/"
  path := ascii "/"
  statusCode := 200
  headers := .empty
  body := []
  store := InsertionMap.empty.insert (ascii "user") (ascii "ann")

def ageData : InsertionMap ByteString Json :=
  (InsertionMap.empty.insert (ascii "age") (.integer 30)).insert (ascii "member") (.bool true)

theorem unvalidated_emptyContext : Unvalidated emptyContext := by
  show ∀ key ∈ [ascii "user"], ¬ startsWith key (ascii "validated_") = true
  decide

theorem readBack_iff_age : ReadBack literalLibrary emptyContext ageData ↔
    ∀ field ∈ ageData.entries, field.1 ≠ ascii "data" ∧ Verbatim field.1 ∧ IsUtf8 field.2 := by
  refine readBack_iff literalLibrary emptyContext ageData unvalidated_emptyContext ?_
  refine List.forall_mem_cons.mpr ⟨fun _ => ⟨by decide, rfl⟩,
    List.forall_mem_singleton.mpr (fun _ => ⟨by decide, rfl⟩)⟩

def dataField : InsertionMap ByteString Json :=
  InsertionMap.empty.insert (ascii "data") (.integer 1)

/-- A field that is called `data` takes the place of the whole. -/
theorem data_field_lost :
    Unvalidated emptyContext ∧
      (∀ field ∈ dataField.entries, TextOf (literalLibrary.jsonStr field.2) field.2) ∧
      ¬ ReadBack literalLibrary emptyContext dataField := by
  refine ⟨unvalidated_emptyContext, ?_, fun h => ?_⟩
  · exact List.forall_mem_singleton.mpr ⟨by decide, rfl⟩
  · have hlength := congrArg List.length h.fields
    exact absurd hlength (by decide)

end VHono
