import VHono.ByteDecimals
import VHono.InsertionMap

/-! # Records as JSON objects

    A record is written as an object with a member for each of its fields, or
    for each that is set, and is read back member by member.  The keys of an
    object are distinct, so what is read under a key is what was written there:
    a record comes back exactly if each of its fields does. -/

/-- `json2.Any`, the numbers with a fraction of a type of their own. -/
inductive JsonAny (F : Type)
  | null
  | bool (b : Bool)
  | int (n : Int)
  | f64 (x : F)
  | string (s : ByteString)
  | array (items : List (JsonAny F))
  | object (members : List (ByteString × JsonAny F))

/-- What `json2` does with texts, and with values of another kind than asked for. -/
structure JsonConversions (F : Type) where
  encode    : JsonAny F → ByteString
  decode    : ByteString → Except ByteString (JsonAny F)
  otherBool : JsonAny F → Bool
  otherInt  : JsonAny F → Int
  otherF64  : JsonAny F → F

namespace JsonAny

open ByteString

variable {F : Type} (json : JsonConversions F)

/-- `str()`: a string is itself, any other value its text. -/
def str : JsonAny F → ByteString
  | string s => s
  | v => json.encode v

def toBool : JsonAny F → Bool
  | bool b => b
  | v => json.otherBool v

def toInt : JsonAny F → Int
  | int n => n
  | v => json.otherInt v

def toF64 : JsonAny F → F
  | f64 x => x
  | v => json.otherF64 v

def asMap : JsonAny F → List (ByteString × JsonAny F)
  | object members => members
  | array items => items.zipIdx.map (fun item => (decimal item.2, item.1))
  | v => [(ascii "0", v)]

def arr : JsonAny F → List (JsonAny F)
  | array items => items
  | object members => members.map Prod.snd
  | v => [v]

end JsonAny

namespace JsonRecords

open JsonAny

variable {F α : Type} {key : ByteString} {obj : List (ByteString × JsonAny F)}

/-! ## Writing -/

/-- An object that has a member for each field that is written. -/
def object (fields : List (ByteString × Option (JsonAny F))) : JsonAny F :=
  .object (fields.filterMap (fun field => field.2.map (fun v => (field.1, v))))

/-- A field that is written if the test holds. -/
def when (test : Prop) [Decidable test] (v : JsonAny F) : Option (JsonAny F) :=
  if test then some v else none

/-- A text that is written unless it is empty. -/
def text (s : ByteString) : Option (JsonAny F) := when (s ≠ []) (.string s)

def flag (b : Bool) : Option (JsonAny F) := when (b = true) (.bool b)

/-- A list, each entry written by `write`. -/
def itemsOf (write : α → JsonAny F) (l : List α) : JsonAny F := .array (l.map write)

/-- The entries of a map, each value written by `write`. -/
def membersOf (write : α → JsonAny F) (entries : List (ByteString × α)) : JsonAny F :=
  .object (entries.map (fun e => (e.1, write e.2)))

/-! ## Reading -/

section Reading

variable (json : JsonConversions F)

def textAt (obj : List (ByteString × JsonAny F)) (key : ByteString) : ByteString :=
  match obj.lookup key with
  | some v => v.str json
  | none => []

def flagAt (obj : List (ByteString × JsonAny F)) (key : ByteString) : Bool :=
  match obj.lookup key with
  | some v => v.toBool json
  | none => false

def intAt (obj : List (ByteString × JsonAny F)) (key : ByteString) : Int :=
  match obj.lookup key with
  | some v => v.toInt json
  | none => 0

def f64At [Zero F] (obj : List (ByteString × JsonAny F)) (key : ByteString) : F :=
  match obj.lookup key with
  | some v => v.toF64 json
  | none => 0

end Reading

def itemsAt (obj : List (ByteString × JsonAny F)) (key : ByteString) : List (JsonAny F) :=
  match obj.lookup key with
  | some v => v.arr
  | none => []

def membersAt (obj : List (ByteString × JsonAny F)) (key : ByteString) :
    List (ByteString × JsonAny F) :=
  match obj.lookup key with
  | some v => v.asMap
  | none => []

/-- The loop over an array. -/
def listAt (read : JsonAny F → α) (obj : List (ByteString × JsonAny F)) (key : ByteString) :
    List α :=
  (itemsAt obj key).map read

/-- The loop over an object, which writes a map. -/
def mapOf (read : JsonAny F → α) (members : List (ByteString × JsonAny F)) :
    InsertionMap ByteString α :=
  members.foldl (fun m e => m.insert e.1 (read e.2)) .empty

def mapAt (read : JsonAny F → α) (obj : List (ByteString × JsonAny F)) (key : ByteString) :
    InsertionMap ByteString α :=
  mapOf read (membersAt obj key)

def recordAt (read : JsonAny F → α) (default : α) (obj : List (ByteString × JsonAny F))
    (key : ByteString) : α :=
  match obj.lookup key with
  | some v => read v
  | none => default

/-! ## What is read is what was written -/

theorem lookup_filterMap {fields : List (ByteString × Option (JsonAny F))}
    (hnodup : (fields.map Prod.fst).Nodup) {v : Option (JsonAny F)} (h : (key, v) ∈ fields) :
    (fields.filterMap (fun field => field.2.map (fun v => (field.1, v)))).lookup key = v := by
  induction fields with
  | nil => cases h
  | cons field fields ih =>
      obtain ⟨hnew, hrest⟩ := List.nodup_cons.mp hnodup
      -- no later field has the key of the first
      have habsent : key = field.1 →
          (fields.filterMap (fun field => field.2.map (fun v => (field.1, v)))).lookup key
            = none := by
        rintro rfl
        refine List.lookup_eq_none_iff.mpr (fun e he => ?_)
        obtain ⟨other, hother, hwritten⟩ := List.mem_filterMap.mp he
        obtain ⟨v, -, rfl⟩ := Option.map_eq_some_iff.mp hwritten
        exact bne_iff_ne.mpr (fun heq => hnew (List.mem_map.mpr ⟨other, hother, heq.symm⟩))
      rcases List.mem_cons.mp h with rfl | hmem
      · cases v with
        | none => exact habsent rfl
        | some v => exact List.lookup_cons_self
      · have hne : key ≠ field.1 :=
          fun heq => hnew (List.mem_map.mpr ⟨(key, v), hmem, heq⟩)
        obtain ⟨other, w⟩ := field
        cases w with
        | none => exact ih hrest hmem
        | some w =>
            show List.lookup key ((other, w) :: _) = v
            rw [List.lookup_cons, beq_eq_false_iff_ne.mpr hne]
            exact ih hrest hmem

/-- Under the key of each field stands what was written for it. -/
def Reads (fields : List (ByteString × Option (JsonAny F)))
    (obj : List (ByteString × JsonAny F)) : Prop :=
  ∀ (i : Nat) {key : ByteString} {v : Option (JsonAny F)},
    fields[i]? = some (key, v) → obj.lookup key = v

theorem reads_object {fields : List (ByteString × Option (JsonAny F))}
    (hnodup : (fields.map Prod.fst).Nodup) : Reads fields (object fields).asMap :=
  fun _ _ _ h => lookup_filterMap hnodup (List.mem_of_getElem? h)

/-- A field that is never written changes nothing. -/
theorem object_unwritten (fields : List (ByteString × Option (JsonAny F))) (key : ByteString) :
    object (fields ++ [(key, none)]) = object fields := by
  rw [object, List.filterMap_append]
  exact congrArg JsonAny.object (List.append_nil _)

section
variable (json : JsonConversions F)

theorem textAt_none (h : obj.lookup key = none) : textAt json obj key = [] := by
  rw [textAt, h]

theorem textAt_string {s : ByteString} (h : obj.lookup key = some (.string s)) :
    textAt json obj key = s := by
  rw [textAt, h]
  rfl

theorem textAt_text {s : ByteString} (h : obj.lookup key = text s) : textAt json obj key = s := by
  by_cases hs : s = []
  · rw [text, when, if_neg (fun hne => hne hs)] at h
    rw [textAt, h, hs]
  · rw [text, when, if_pos hs] at h
    exact textAt_string json h

theorem flagAt_flag {b : Bool} (h : obj.lookup key = flag b) : flagAt json obj key = b := by
  rw [flagAt, h]
  cases b <;> rfl

theorem intAt_int {n : Int} (h : obj.lookup key = when (n ≠ 0) (.int n)) :
    intAt json obj key = n := by
  rw [intAt, h]
  by_cases hn : n = 0
  · rw [when, if_neg (fun hne => hne hn), hn]
  · rw [when, if_pos hn]
    rfl

theorem f64At_f64 [Zero F] [DecidableEq F] {x : F}
    (h : obj.lookup key = when (x ≠ 0) (.f64 x)) : f64At json obj key = x := by
  rw [f64At, h]
  by_cases hx : x = 0
  · rw [when, if_neg (fun hne => hne hx), hx]
  · rw [when, if_pos hx]
    rfl

end

theorem map_eq_self_iff {f : α → α} {l : List α} : l.map f = l ↔ ∀ a ∈ l, f a = a := by
  conv_lhs => rw [← List.map_id l, List.map_map]
  exact List.map_inj_left

theorem entries_eq_iff (f : α → α) {entries : List (ByteString × α)} :
    entries.map (fun e => (e.1, f e.2)) = entries ↔ ∀ e ∈ entries, f e.2 = e.2 := by
  rw [map_eq_self_iff]
  exact forall₂_congr (fun e _ => ⟨congrArg Prod.snd, fun heq => Prod.ext rfl heq⟩)

section
variable {read : JsonAny F → α} {write : α → JsonAny F} {l : List α}

theorem listAt_items (h : obj.lookup key = when (l ≠ []) (itemsOf write l)) :
    listAt read obj key = l.map (fun a => read (write a)) := by
  rw [listAt, itemsAt, h]
  by_cases hl : l = []
  · rw [when, if_neg (fun hne => hne hl), hl]
    rfl
  · rw [when, if_pos hl]
    exact List.map_map

/-- A list comes back exactly if its entries do. -/
theorem listAt_iff (read : JsonAny F → α) (h : obj.lookup key = when (l ≠ []) (itemsOf write l)) :
    listAt read obj key = l ↔ ∀ a ∈ l, read (write a) = a := by
  rw [listAt_items h, map_eq_self_iff]

theorem mapOf_members (m : InsertionMap ByteString α) :
    (mapOf read (m.entries.map (fun e => (e.1, write e.2)))).entries
      = m.entries.map (fun e => (e.1, read (write e.2))) := by
  have hkeys : (m.entries.map (fun e => (e.1, write e.2))).map Prod.fst = m.keys := by
    rw [List.map_map]
    rfl
  rw [mapOf, InsertionMap.entries_foldl_insert Prod.fst (fun e => read e.2) _ _
    (by rw [hkeys]; exact m.nodup_keys), List.map_map]
  rfl

theorem mapOf_iff (m : InsertionMap ByteString α) :
    mapOf read (m.entries.map (fun e => (e.1, write e.2))) = m ↔
      ∀ e ∈ m.entries, read (write e.2) = e.2 := by
  have hsame : mapOf read (m.entries.map (fun e => (e.1, write e.2))) = m ↔
      m.entries.map (fun e => (e.1, read (write e.2))) = m.entries := by
    rw [← mapOf_members]
    exact ⟨congrArg InsertionMap.entries, InsertionMap.eq_of_entries⟩
  exact hsame.trans (entries_eq_iff (fun a => read (write a)))

theorem membersAt_membersOf {entries : List (ByteString × α)}
    (h : obj.lookup key = when (entries ≠ []) (membersOf write entries)) :
    membersAt obj key = entries.map (fun e => (e.1, write e.2)) := by
  rw [membersAt, h]
  by_cases hentries : entries = []
  · rw [when, if_neg (fun hne => hne hentries), hentries]
    rfl
  · rw [when, if_pos hentries]
    rfl

/-- A map comes back exactly if its values do. -/
theorem mapAt_iff (read : JsonAny F → α) {m : InsertionMap ByteString α}
    (h : obj.lookup key = when (m.entries ≠ []) (membersOf write m.entries)) :
    mapAt read obj key = m ↔ ∀ e ∈ m.entries, read (write e.2) = e.2 := by
  rw [mapAt, membersAt_membersOf h, mapOf_iff]

/-- So does a map that is written where it is empty, too. -/
theorem mapAt_always_iff (read : JsonAny F → α) {m : InsertionMap ByteString α}
    (h : obj.lookup key = some (membersOf write m.entries)) :
    mapAt read obj key = m ↔ ∀ e ∈ m.entries, read (write e.2) = e.2 := by
  have hmembers : membersAt obj key = m.entries.map (fun e => (e.1, write e.2)) := by
    rw [membersAt, h]
    rfl
  rw [mapAt, hmembers, mapOf_iff]

/-- A record comes back exactly if it does where it is written, and is the default or written. -/
theorem recordAt_iff {test : Prop} [Decidable test] {a default : α}
    (h : obj.lookup key = when test (write a)) (hdefault : read (write default) = default) :
    recordAt read default obj key = a ↔ (a = default ∨ test) ∧ read (write a) = a := by
  rw [recordAt, h]
  by_cases htest : test
  · rw [when, if_pos htest]
    exact ⟨fun heq => ⟨.inr htest, heq⟩, And.right⟩
  · rw [when, if_neg htest]
    constructor
    · rintro rfl
      exact ⟨.inl rfl, hdefault⟩
    · exact fun hboth => (hboth.1.resolve_right htest).symm

end

/-! ## Sizes -/

theorem mem_of_lookup {v : JsonAny F} (h : obj.lookup key = some v) : (key, v) ∈ obj := by
  obtain ⟨before, after, rfl, -⟩ := List.lookup_eq_some_iff.mp h
  exact List.mem_append_right _ (List.mem_cons_self ..)

theorem sizeOf_lt_of_mem {α : Type} [SizeOf α] {l : List (ByteString × α)} {e : ByteString × α}
    (h : e ∈ l) : sizeOf e.2 < sizeOf l := by
  have hlt := List.sizeOf_lt_of_mem h
  have he : sizeOf e = 1 + sizeOf e.1 + sizeOf e.2 := rfl
  omega

/-- No value of an object or array is larger than it; a value of another kind is its own. -/
theorem sizeOf_le_of_asMap {j : JsonAny F} {e : ByteString × JsonAny F} (h : e ∈ j.asMap) :
    sizeOf e.2 < sizeOf j ∨ e = (ByteString.ascii "0", j) := by
  cases j with
  | object members =>
      have hlt : sizeOf e.2 < sizeOf members := sizeOf_lt_of_mem h
      exact .inl (by rw [JsonAny.object.sizeOf_spec]; omega)
  | array items =>
      obtain ⟨item, hitem, rfl⟩ := List.mem_map.mp h
      have hlt := List.sizeOf_lt_of_mem (List.fst_mem_of_mem_zipIdx hitem)
      refine .inl ?_
      show sizeOf item.1 < sizeOf (JsonAny.array items)
      rw [JsonAny.array.sizeOf_spec]
      omega
  | null => exact .inr (List.mem_singleton.mp h)
  | bool b => exact .inr (List.mem_singleton.mp h)
  | int n => exact .inr (List.mem_singleton.mp h)
  | f64 x => exact .inr (List.mem_singleton.mp h)
  | string s => exact .inr (List.mem_singleton.mp h)

/-- What is read under another key than `0` is smaller. -/
theorem sizeOf_lookup {j v : JsonAny F} (hkey : key ≠ ByteString.ascii "0")
    (h : j.asMap.lookup key = some v) : sizeOf v < sizeOf j := by
  rcases sizeOf_le_of_asMap (mem_of_lookup h) with hlt | heq
  · exact hlt
  · exact absurd (congrArg Prod.fst heq) hkey

theorem sizeOf_membersAt {j : JsonAny F} (hkey : key ≠ ByteString.ascii "0")
    {e : ByteString × JsonAny F} (h : e ∈ membersAt j.asMap key) : sizeOf e.2 < sizeOf j := by
  rw [membersAt] at h
  cases hlookup : j.asMap.lookup key with
  | none =>
      rw [hlookup] at h
      cases h
  | some v =>
      rw [hlookup] at h
      have hlt := sizeOf_lookup hkey hlookup
      rcases sizeOf_le_of_asMap h with hless | rfl
      · exact Nat.lt_trans hless hlt
      · exact hlt

end JsonRecords
