import Mathlib.Tactic

/-! # Maps that remember insertion order

    A finite map kept as the list of its entries in the order in which the
    keys first arrived: writing a present key replaces its value in place,
    writing a new key appends.  This is the iteration order many languages
    document for their built-in map.  Uniqueness of keys is a field, so a map
    with two entries for one key cannot be built. -/

/-- A finite map in insertion order. -/
structure InsertionMap (κ α : Type*) where
  entries : List (κ × α)
  nodup   : (entries.map Prod.fst).Nodup

namespace InsertionMap

variable {κ α : Type*}

/-- The empty map. -/
def empty : InsertionMap κ α := ⟨[], List.nodup_nil⟩

/-- The keys, oldest first. -/
def keys (m : InsertionMap κ α) : List κ := m.entries.map Prod.fst

/-- The number of entries. -/
def len (m : InsertionMap κ α) : Nat := m.entries.length

theorem nodup_keys (m : InsertionMap κ α) : m.keys.Nodup := m.nodup

@[simp] theorem keys_empty : (empty : InsertionMap κ α).keys = [] := rfl

@[simp] theorem len_empty : (empty : InsertionMap κ α).len = 0 := rfl

variable [DecidableEq κ]

/-- Replace the value of a present key, or append a new entry. -/
def setEntry (k : κ) (v : α) : List (κ × α) → List (κ × α)
  | [] => [(k, v)]
  | (k', v') :: es => if k' = k then (k, v) :: es else (k', v') :: setEntry k v es

theorem keys_setEntry (k : κ) (v : α) (es : List (κ × α)) :
    (setEntry k v es).map Prod.fst
      = if k ∈ es.map Prod.fst then es.map Prod.fst else es.map Prod.fst ++ [k] := by
  induction es with
  | nil => simp [setEntry]
  | cons e es ih =>
      obtain ⟨k', v'⟩ := e
      by_cases hk : k' = k
      · simp [setEntry, hk]
      · have hk' : ¬ k = k' := fun h => hk h.symm
        simp only [setEntry, if_neg hk, List.map_cons, ih, List.mem_cons, hk', false_or]
        split <;> rfl

theorem nodup_setEntry {k : κ} {v : α} {es : List (κ × α)}
    (h : (es.map Prod.fst).Nodup) : ((setEntry k v es).map Prod.fst).Nodup := by
  rw [keys_setEntry]
  split
  · exact h
  · rename_i hk
    rw [List.nodup_append]
    refine ⟨h, List.nodup_singleton k, ?_⟩
    intro a ha b hb
    rw [List.mem_singleton.mp hb]
    exact fun hab => hk (hab ▸ ha)

/-- The value stored under a key. -/
def get? (m : InsertionMap κ α) (k : κ) : Option α := m.entries.lookup k

/-- Write a key. -/
def insert (m : InsertionMap κ α) (k : κ) (v : α) : InsertionMap κ α :=
  ⟨setEntry k v m.entries, nodup_setEntry m.nodup⟩

/-- Delete a key; the other entries keep their order. -/
def erase (m : InsertionMap κ α) (k : κ) : InsertionMap κ α :=
  ⟨m.entries.filter (fun e => ¬ e.1 = k),
    m.nodup.sublist (List.Sublist.map Prod.fst List.filter_sublist)⟩

/-- Does the map hold the key? -/
def contains (m : InsertionMap κ α) (k : κ) : Bool := (m.get? k).isSome

@[simp] theorem get?_empty (k : κ) : (empty : InsertionMap κ α).get? k = none := rfl

theorem lookup_setEntry (k k' : κ) (v : α) (es : List (κ × α)) :
    (setEntry k v es).lookup k' = if k' = k then some v else es.lookup k' := by
  induction es with
  | nil =>
      by_cases hk : k' = k
      · simp [setEntry, hk]
      · simp [setEntry, List.lookup_cons, hk, beq_eq_false_iff_ne.mpr hk]
  | cons e es ih =>
      obtain ⟨k₀, v₀⟩ := e
      by_cases h0 : k₀ = k
      · subst h0
        by_cases hk : k' = k₀
        · simp [setEntry, hk]
        · simp [setEntry, List.lookup_cons, hk, beq_eq_false_iff_ne.mpr hk]
      · simp only [setEntry, if_neg h0, List.lookup_cons]
        by_cases hk : k' = k₀
        · subst hk
          simp [h0]
        · rw [beq_eq_false_iff_ne.mpr hk]
          exact ih

/-- The value under a key in a list of entries. -/
def getEntry (k : κ) (es : List (κ × α)) : Option α := es.lookup k

theorem getEntry_setEntry (k k' : κ) (v : α) (es : List (κ × α)) :
    getEntry k' (setEntry k v es) = if k' = k then some v else getEntry k' es :=
  lookup_setEntry k k' v es

/-- Reading after a write. -/
theorem get?_insert (m : InsertionMap κ α) (k k' : κ) (v : α) :
    (m.insert k v).get? k' = if k' = k then some v else m.get? k' :=
  lookup_setEntry k k' v m.entries

@[simp] theorem get?_insert_self (m : InsertionMap κ α) (k : κ) (v : α) :
    (m.insert k v).get? k = some v := by
  rw [get?_insert, if_pos rfl]

theorem get?_insert_ne (m : InsertionMap κ α) {k k' : κ} (v : α) (h : k' ≠ k) :
    (m.insert k v).get? k' = m.get? k' := by
  rw [get?_insert, if_neg h]

/-- Reading after a deletion. -/
theorem get?_erase (m : InsertionMap κ α) (k k' : κ) :
    (m.erase k).get? k' = if k' = k then none else m.get? k' := by
  obtain ⟨es, hnd⟩ := m
  show (es.filter (fun e => ¬ e.1 = k)).lookup k' = if k' = k then none else es.lookup k'
  clear hnd
  induction es with
  | nil => simp
  | cons e es ih =>
      obtain ⟨k₀, v₀⟩ := e
      by_cases h0 : k₀ = k
      · subst h0
        rw [List.filter_cons_of_neg (by simp), ih]
        by_cases hk : k' = k₀
        · rw [if_pos hk, if_pos hk]
        · rw [if_neg hk, if_neg hk, List.lookup_cons, beq_eq_false_iff_ne.mpr hk]
      · rw [List.filter_cons_of_pos (by simpa using h0), List.lookup_cons, List.lookup_cons]
        by_cases hk : k' = k₀
        · subst hk
          rw [if_neg h0, BEq.rfl]
        · rw [beq_eq_false_iff_ne.mpr hk]
          exact ih

theorem mem_entries_of_get? {m : InsertionMap κ α} {k : κ} {v : α}
    (h : m.get? k = some v) : (k, v) ∈ m.entries := by
  obtain ⟨es, hnd⟩ := m
  have h' : es.lookup k = some v := h
  show (k, v) ∈ es
  clear h hnd
  induction es with
  | nil => cases h'
  | cons e es ih =>
      obtain ⟨k₀, v₀⟩ := e
      by_cases hk : k = k₀
      · subst hk
        simp only [List.lookup_cons, BEq.rfl, Option.some.injEq] at h'
        rw [h']
        exact List.mem_cons_self ..
      · rw [List.lookup_cons, beq_eq_false_iff_ne.mpr hk] at h'
        exact List.mem_cons_of_mem _ (ih h')

theorem get?_of_mem_entries {m : InsertionMap κ α} {k : κ} {v : α}
    (h : (k, v) ∈ m.entries) : m.get? k = some v := by
  obtain ⟨es, hnd⟩ := m
  show es.lookup k = some v
  induction es with
  | nil => cases h
  | cons e es ih =>
      obtain ⟨k₀, v₀⟩ := e
      have hnd' : k₀ ∉ es.map Prod.fst ∧ (es.map Prod.fst).Nodup := by
        simpa only [List.map_cons, List.nodup_cons] using hnd
      rcases List.mem_cons.mp h with heq | hmem
      · have hk : k = k₀ := congrArg Prod.fst heq
        have hv : v = v₀ := congrArg Prod.snd heq
        simp [hk, hv]
      · have hk : k ≠ k₀ := by
          intro hk
          exact hnd'.1 (hk ▸ List.mem_map.mpr ⟨(k, v), hmem, rfl⟩)
        rw [List.lookup_cons, beq_eq_false_iff_ne.mpr hk]
        exact ih hnd'.2 hmem

/-- A key is listed exactly when it can be read. -/
theorem mem_keys_iff {m : InsertionMap κ α} {k : κ} :
    k ∈ m.keys ↔ ∃ v, m.get? k = some v := by
  constructor
  · intro h
    obtain ⟨⟨k', v⟩, he, hk⟩ := List.mem_map.mp h
    have hk' : k' = k := hk
    subst hk'
    exact ⟨v, get?_of_mem_entries he⟩
  · rintro ⟨v, hv⟩
    exact List.mem_map.mpr ⟨(k, v), mem_entries_of_get? hv, rfl⟩

/-- Writing a present key adds no entry. -/
theorem len_insert_of_get? {m : InsertionMap κ α} {k : κ} {v : α} (h : m.get? k = some v) (w : α) :
    (m.insert k w).len = m.len := by
  have hkey : k ∈ m.entries.map Prod.fst := mem_keys_iff.mpr ⟨v, h⟩
  have hlength := congrArg List.length (keys_setEntry k w m.entries)
  rw [if_pos hkey, List.length_map, List.length_map] at hlength
  exact hlength

theorem get?_eq_some_iff {m : InsertionMap κ α} {k : κ} {v : α} :
    m.get? k = some v ↔ (k, v) ∈ m.entries :=
  ⟨mem_entries_of_get?, get?_of_mem_entries⟩

/-- The entries whose keys pass a test. -/
def filterKeys (m : InsertionMap κ α) (test : κ → Bool) : InsertionMap κ α :=
  ⟨m.entries.filter (fun e => test e.1),
    m.nodup.sublist (List.Sublist.map Prod.fst List.filter_sublist)⟩

theorem get?_filterKeys {m : InsertionMap κ α} {test : κ → Bool} {k : κ} {v : α} :
    (m.filterKeys test).get? k = some v ↔ test k = true ∧ m.get? k = some v := by
  rw [get?_eq_some_iff, get?_eq_some_iff, filterKeys, List.mem_filter, and_comm]

/-- Every value of a map satisfies `P`. -/
def AllValues (P : κ → α → Prop) (m : InsertionMap κ α) : Prop :=
  ∀ k v, m.get? k = some v → P k v

theorem allValues_empty (P : κ → α → Prop) :
    AllValues P (empty : InsertionMap κ α) := by
  intro k v h
  cases h

theorem AllValues.insert {P : κ → α → Prop} {m : InsertionMap κ α}
    (h : AllValues P m) {k : κ} {v : α} (hv : P k v) : AllValues P (m.insert k v) := by
  intro k' v' hget
  rw [get?_insert] at hget
  by_cases hk : k' = k
  · rw [if_pos hk] at hget
    rw [hk, ← Option.some.inj hget]
    exact hv
  · rw [if_neg hk] at hget
    exact h k' v' hget

theorem AllValues.erase {P : κ → α → Prop} {m : InsertionMap κ α}
    (h : AllValues P m) (k : κ) : AllValues P (m.erase k) := by
  intro k' v' hget
  rw [get?_erase] at hget
  by_cases hk : k' = k
  · rw [if_pos hk] at hget
    cases hget
  · rw [if_neg hk] at hget
    exact h k' v' hget

theorem AllValues.mono {P Q : κ → α → Prop} {m : InsertionMap κ α}
    (h : AllValues P m) (hPQ : ∀ k v, P k v → Q k v) : AllValues Q m :=
  fun k v hget => hPQ k v (h k v hget)

/-! ## Entries in order -/

theorem setEntry_new {k : κ} {v : α} : ∀ {es : List (κ × α)}, k ∉ es.map Prod.fst →
    setEntry k v es = es ++ [(k, v)] := by
  intro es
  induction es with
  | nil => exact fun _ => rfl
  | cons e es ih =>
      intro h
      have hne : ¬ e.1 = k := fun heq => h (heq ▸ List.mem_cons_self ..)
      rw [setEntry, if_neg hne, ih (fun hmem => h (List.mem_cons_of_mem _ hmem))]
      rfl

/-- Entries of new keys are appended. -/
theorem entries_foldl_insert {β : Type*} (key : β → κ) (f : β → α) :
    ∀ (bs : List β) (m : InsertionMap κ α), (m.keys ++ bs.map key).Nodup →
      (bs.foldl (fun m b => m.insert (key b) (f b)) m).entries
        = m.entries ++ bs.map (fun b => (key b, f b)) := by
  intro bs
  induction bs with
  | nil => exact fun m _ => (List.append_nil _).symm
  | cons b bs ih =>
      intro m h
      have hnew : key b ∉ m.keys := by
        intro hmem
        exact (List.nodup_append.mp h).2.2 _ hmem _ (List.mem_cons_self ..) rfl
      have hentries : (m.insert (key b) (f b)).entries = m.entries ++ [(key b, f b)] :=
        setEntry_new hnew
      have hkeys : (m.insert (key b) (f b)).keys = m.keys ++ [key b] := by
        rw [keys, hentries, List.map_append, keys]
        rfl
      rw [List.foldl_cons, ih _ (by rw [hkeys, List.append_assoc]; exact h), hentries,
        List.append_assoc]
      rfl

omit [DecidableEq κ] in
theorem eq_of_entries {m m' : InsertionMap κ α} (h : m.entries = m'.entries) : m = m' := by
  obtain ⟨es, hnd⟩ := m
  obtain ⟨es', hnd'⟩ := m'
  obtain rfl : es = es' := h
  rfl

end InsertionMap
