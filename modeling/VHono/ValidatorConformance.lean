import VHono.Validator

/-! # What the validator accepts

    A value is admitted by a schema if it is null where it may be, or of the
    schema's kind and within its rules, down to every element and property.
    What counts as a text, an integer or a truth value is told by `Kinds`: in
    the strict sense by the kind of the JSON value, in the validator's by the
    value's text.  Where integers fit, and arrays and objects stand where they
    should, the validator accepts exactly what is admitted in its sense. -/

namespace VHono

open ByteString NumberTexts

namespace Validator

/-! ## Admitted values -/

/-- The values that stand for a text, an integer or a truth value. -/
structure Kinds where
  text    : Json → Option ByteString
  integer : Json → Option Int
  truth   : Json → Prop

/-- The integer a text spells: digits, and a sign before a negative one. -/
def spelled : ByteString → Option Int
  | [] => none
  | c :: s =>
    if c = byte '-' then if s ≠ [] ∧ Digits s then some (-(value s : Int)) else none
    else if Digits (c :: s) then some (value (c :: s)) else none

def integerOf : Json → Option Int
  | .integer n => some n
  | .string s => spelled s
  | _ => none

/-- Texts are strings, and truth values booleans or one of four strings. -/
def strict : Kinds where
  text
    | .string s => some s
    | _ => none
  integer := integerOf
  truth
    | .bool _ => True
    | .string s => s ∈ boolTexts
    | _ => False

/-- Every value has a text, and the text of a truth value may have any case. -/
def coerced {F : Type} (lib : Library F) : Kinds where
  text v := some (lib.str v)
  integer := integerOf
  truth v := isBool v = true ∨ toLower (lib.str v) ∈ boolTexts

/-- Null is admitted unless a value is required. -/
def OrNull (required : Bool) (v : Json) (conforms : Prop) : Prop :=
  (v = .null ∧ required = false) ∨ (v ≠ .null ∧ conforms)

/-- A text within a schema's rules.  A pattern that is none is met by no text. -/
structure StringSchema.Meets (schema : StringSchema) (regexOpt : ByteString → Option (ByteString → Bool))
    (text : ByteString) : Prop where
  nonempty : schema.required = true → text ≠ []
  min      : schema.minLength > 0 → schema.minLength ≤ text.length
  max      : schema.maxLength > 0 → (text.length : Int) ≤ schema.maxLength
  pattern  : schema.pattern ≠ [] → ∃ re, regexOpt schema.pattern = some re ∧ re text = true
  values   : schema.enumValues ≠ [] → text ∈ schema.enumValues

structure IntSchema.Meets (schema : IntSchema) (n : Int) : Prop where
  min    : ∀ min ∈ schema.min, min ≤ n
  max    : ∀ max ∈ schema.max, n ≤ max
  values : schema.enumValues ≠ [] → n ∈ schema.enumValues

/-- An array of as many elements as it may have. -/
structure ArraySchema.Meets (schema : ArraySchema) (count : Nat) : Prop where
  min : schema.minItems > 0 → schema.minItems ≤ count
  max : schema.maxItems > 0 → (count : Int) ≤ schema.maxItems

section

variable {F : Type} (kinds : Kinds) (regexOpt : ByteString → Option (ByteString → Bool))

mutual

def Admits (v : Json) : Schema F → Prop
  | .string s => OrNull s.required v (∃ text, kinds.text v = some text ∧ s.Meets regexOpt text)
  | .int s => OrNull s.required v (∃ n, kinds.integer v = some n ∧ s.Meets n)
  | .float _ => False
  | .bool s => OrNull s.required v (kinds.truth v)
  | .array s items =>
    OrNull s.required v (∃ elements, v = .array elements ∧ s.Meets elements.length ∧
      AdmitsItems elements items)
  | .object required properties =>
    OrNull required v (∃ members, v = .object members ∧ AdmitsProperties (asMap v) properties)

def AdmitsItems (elements : List Json) : Items F → Prop
  | .unset => True
  | .each s => ∀ element ∈ elements, Admits element s

/-- A property is there and admitted, or not there and not required. -/
def AdmitsProperties (obj : InsertionMap ByteString Json) : Properties F → Prop
  | .nil => True
  | .cons name s rest =>
    (match obj.get? name with
      | some v => Admits v s
      | none => s.required = false) ∧ AdmitsProperties obj rest

end

end

/-! ## Values that are read without loss -/

section

variable {F : Type}

mutual

/-- Integers are of 32 bits, arrays and objects stand where they should, and there are no floats. -/
def Readable (v : Json) : Schema F → Prop
  | .string _ => True
  | .int _ => v = .null ∨ ∃ n, integerOf v = some n ∧ -2 ^ 31 ≤ n ∧ n < 2 ^ 31
  | .float _ => False
  | .bool _ => True
  | .array _ items => v = .null ∨ ∃ elements, v = .array elements ∧ ReadableItems elements items
  | .object _ properties =>
    v = .null ∨ ∃ members, v = .object members ∧ ReadableProperties (asMap v) properties

def ReadableItems (elements : List Json) : Items F → Prop
  | .unset => True
  | .each s => ∀ element ∈ elements, Readable element s

def ReadableProperties (obj : InsertionMap ByteString Json) : Properties F → Prop
  | .nil => True
  | .cons name s rest => (∀ v ∈ obj.get? name, Readable v s) ∧ ReadableProperties obj rest

end

end

/-! ## The checks -/

variable {F : Type} (lib : Library F) {fieldName : ByteString} {v : Json}

theorem check_eq_nil {fails : Prop} [Decidable fails] {message code : ByteString} :
    check fails fieldName message code = [] ↔ ¬ fails := by
  rw [check]
  split
  · rename_i h
    exact iff_of_false (List.cons_ne_nil _ _) (fun hnot => hnot h)
  · rename_i h
    exact iff_of_true rfl h

theorem unlessNull_eq_nil {required : Bool} {errors : List ValidationError} :
    unlessNull fieldName required v errors = [] ↔ OrNull required v (errors = []) := by
  by_cases hv : v = .null
  · subst hv
    rw [OrNull, unlessNull]
    cases required with
    | true =>
        refine iff_of_false (List.cons_ne_nil _ _) ?_
        rintro (⟨-, hfalse⟩ | ⟨hne, -⟩)
        · cases hfalse
        · exact hne rfl
    | false => exact iff_of_true rfl (.inl ⟨rfl, rfl⟩)
  · have hskip : unlessNull fieldName required v errors = errors := by
      cases v with
      | null => exact absurd rfl hv
      | _ => rfl
    rw [hskip, OrNull]
    exact ⟨fun h => .inr ⟨hv, h⟩, fun h => h.elim (fun hnull => absurd hnull.1 hv) And.right⟩

theorem orNull_congr {required : Bool} {p q : Prop} (h : v ≠ .null → (p ↔ q)) :
    OrNull required v p ↔ OrNull required v q :=
  or_congr Iff.rfl (and_congr_right h)

/-- The rules from the pattern on. -/
theorem patternErrors_eq_nil (schema : StringSchema) (text : ByteString) :
    patternErrors lib fieldName schema text = [] ↔
      (schema.pattern ≠ [] → ∃ re, lib.regexOpt schema.pattern = some re ∧ re text = true) ∧
        (schema.enumValues ≠ [] → text ∈ schema.enumValues) := by
  have henum : enumErrors fieldName schema text = [] ↔
      (schema.enumValues ≠ [] → text ∈ schema.enumValues) := by
    rw [enumErrors, check_eq_nil, not_and, not_not, gt_iff_lt, List.length_pos_iff]
  rw [patternErrors]
  by_cases hpattern : schema.pattern = []
  · rw [if_neg (by rw [hpattern]; exact Nat.lt_irrefl 0), henum]
    exact (and_iff_right (fun hne => absurd hpattern hne)).symm
  · rw [if_pos (List.length_pos_iff.mpr hpattern)]
    cases hre : lib.regexOpt schema.pattern with
    | none =>
        refine iff_of_false (List.cons_ne_nil _ _) (fun h => ?_)
        obtain ⟨re, hsome, -⟩ := h.1 hpattern
        cases hsome
    | some re =>
        dsimp only
        rw [List.append_eq_nil_iff, check_eq_nil, henum, not_not]
        refine and_congr ⟨fun h _ => ⟨re, rfl, h⟩, fun h => ?_⟩ Iff.rfl
        obtain ⟨re', hsome, hmatch⟩ := h hpattern
        rwa [Option.some.inj hsome]

theorem bound_iff {low x : Int} : ¬ (low > 0 ∧ x < low) ↔ (low > 0 → low ≤ x) := by
  rw [not_and, Int.not_lt]

theorem limit_iff {high x : Int} : ¬ (high > 0 ∧ x > high) ↔ (high > 0 → x ≤ high) := by
  rw [not_and, Int.not_lt]

/-- The rules of a text are kept, as it is read, exactly if no error is found. -/
theorem validateString_read (schema : StringSchema) :
    validateString lib fieldName v schema = [] ↔
      OrNull schema.required v (schema.Meets lib.regexOpt (lib.str v)) := by
  rw [validateString, unlessNull_eq_nil]
  refine orNull_congr (fun _ => ?_)
  by_cases hempty : (lib.str v).length = 0 ∧ schema.required = true
  · rw [if_pos hempty]
    exact iff_of_false (List.cons_ne_nil _ _)
      (fun h => h.nonempty hempty.2 (List.length_eq_zero_iff.mp hempty.1))
  · rw [if_neg hempty, List.append_eq_nil_iff, List.append_eq_nil_iff, check_eq_nil, check_eq_nil,
      patternErrors_eq_nil, bound_iff, limit_iff]
    constructor
    · rintro ⟨⟨hmin, hmax⟩, hpattern, hvalues⟩
      exact ⟨fun hrequired hnil => hempty ⟨List.length_eq_zero_iff.mpr hnil, hrequired⟩, hmin, hmax,
        hpattern, hvalues⟩
    · exact fun h => ⟨⟨h.min, h.max⟩, h.pattern, h.values⟩

theorem validateString_eq_nil (schema : StringSchema) :
    validateString lib fieldName v schema = [] ↔
      OrNull schema.required v (∃ text, (coerced lib).text v = some text ∧
        schema.Meets lib.regexOpt text) := by
  rw [validateString_read]
  exact orNull_congr (fun _ => ⟨fun h => ⟨_, rfl, h⟩,
    fun h => h.elim (fun _ hboth => Option.some.inj hboth.1 ▸ hboth.2)⟩)

/-! ## Integers -/

theorem i64_minus {s : ByteString} (h : Digits s) :
    i64 (byte '-' :: s) = max (-((min (value s) maxU64 : Nat) : Int)) (-2 ^ 63) := by
  rw [i64]
  simp only [List.head?_cons, List.tail_cons, true_or, if_true, u64_digits h]

/-- A text that spells an integer of 32 bits is read as it. -/
theorem stringInt_spelled {s : ByteString} {n : Int} (h : spelled s = some n)
    (hrange : -2 ^ 31 ≤ n ∧ n < 2 ^ 31) : stringInt s = n := by
  cases s with
  | nil => cases h
  | cons c s =>
      rw [spelled] at h
      by_cases hc : c = byte '-'
      · rw [if_pos hc] at h
        by_cases hs : s ≠ [] ∧ Digits s
        · rw [if_pos hs] at h
          obtain rfl := Option.some.inj h
          rw [stringInt, hc, i64_minus hs.2]
          have hmax : maxU64 = 2 ^ 64 - 1 := rfl
          omega
        · rw [if_neg hs] at h
          cases h
      · rw [if_neg hc] at h
        by_cases hs : Digits (c :: s)
        · rw [if_pos hs] at h
          obtain rfl := Option.some.inj h
          rw [stringInt, i64_digits hs]
          omega
        · rw [if_neg hs] at h
          cases h

theorem int_of_integerOf {n : Int} (h : integerOf v = some n) (hrange : -2 ^ 31 ≤ n ∧ n < 2 ^ 31) :
    lib.int v = n := by
  cases v with
  | integer m =>
      obtain rfl : m = n := Option.some.inj h
      rw [Library.int, if_pos (by omega)]
      exact Int.bmod_eq_of_le (by omega) (by omega)
  | string s => exact stringInt_spelled h hrange
  | null => cases h
  | bool b => cases h
  | real literal => cases h
  | array items => cases h
  | object members => cases h

/-- The rules of an integer are kept, as it is read, exactly if no error is found. -/
theorem validateInt_read (schema : IntSchema) :
    validateInt lib fieldName v schema = [] ↔ OrNull schema.required v (schema.Meets (lib.int v)) := by
  rw [validateInt, unlessNull_eq_nil]
  refine orNull_congr (fun _ => ?_)
  have hvalues : ¬ (schema.enumValues.length > 0 ∧ lib.int v ∉ schema.enumValues) ↔
      (schema.enumValues ≠ [] → lib.int v ∈ schema.enumValues) := by
    rw [not_and, not_not, gt_iff_lt, List.length_pos_iff]
  rw [List.append_eq_nil_iff, List.append_eq_nil_iff, check_eq_nil, hvalues]
  constructor
  · rintro ⟨⟨hmin, hmax⟩, hin⟩
    refine ⟨fun min hmem => ?_, fun max hmem => ?_, hin⟩
    · rw [hmem] at hmin
      exact Int.not_lt.mp (check_eq_nil.mp hmin)
    · rw [hmem] at hmax
      exact Int.not_lt.mp (check_eq_nil.mp hmax)
  · intro h
    refine ⟨⟨?_, ?_⟩, h.values⟩
    · cases hmin : schema.min with
      | none => rfl
      | some min => exact check_eq_nil.mpr (Int.not_lt.mpr (h.min min hmin))
    · cases hmax : schema.max with
      | none => rfl
      | some max => exact check_eq_nil.mpr (Int.not_lt.mpr (h.max max hmax))

theorem validateInt_eq_nil (schema : IntSchema) (hread : Readable (F := F) v (.int schema)) :
    validateInt lib fieldName v schema = [] ↔
      OrNull schema.required v (∃ n, integerOf v = some n ∧ schema.Meets n) := by
  rw [validateInt_read]
  refine orNull_congr (fun hv => ?_)
  rw [Readable] at hread
  obtain ⟨n, hn, hrange⟩ := hread.resolve_left hv
  rw [hn, int_of_integerOf lib hn hrange]
  exact ⟨fun h => ⟨n, rfl, h⟩, fun h => h.elim (fun _ hboth => Option.some.inj hboth.1 ▸ hboth.2)⟩

theorem validateBool_eq_nil (schema : BoolSchema) :
    validateBool lib fieldName v schema = [] ↔
      OrNull schema.required v ((coerced lib).truth v) := by
  rw [validateBool, unlessNull_eq_nil]
  refine orNull_congr (fun _ => ?_)
  rw [check_eq_nil, not_and_or, not_not, not_not]
  rfl

/-! ## Arrays and objects -/

theorem validateArray_read (schema : ArraySchema) (itemErrors : List Json → List ValidationError) :
    validateArray fieldName v schema itemErrors = [] ↔
      OrNull schema.required v (schema.Meets (arr v).length ∧ itemErrors (arr v) = []) := by
  rw [validateArray, unlessNull_eq_nil]
  refine orNull_congr (fun _ => ?_)
  rw [List.append_eq_nil_iff, List.append_eq_nil_iff, check_eq_nil, check_eq_nil, bound_iff,
    limit_iff]
  exact and_congr_left (fun _ => ⟨fun h => ⟨h.1, h.2⟩, fun h => ⟨h.min, h.max⟩⟩)

theorem validateArray_eq_nil (schema : ArraySchema) {items : Items F}
    {itemErrors : List Json → List ValidationError}
    (hread : Readable v (.array schema items)) {admits : List Json → Prop}
    (hitems : ∀ elements, v = .array elements → (itemErrors elements = [] ↔ admits elements)) :
    validateArray fieldName v schema itemErrors = [] ↔ OrNull schema.required v
      (∃ elements, v = .array elements ∧ schema.Meets elements.length ∧ admits elements) := by
  rw [validateArray_read]
  refine orNull_congr (fun hv => ?_)
  rw [Readable] at hread
  obtain ⟨elements, rfl, -⟩ := hread.resolve_left hv
  show schema.Meets elements.length ∧ itemErrors elements = [] ↔ _
  rw [hitems elements rfl]
  refine ⟨fun h => ⟨elements, rfl, h⟩, ?_⟩
  rintro ⟨elements', heq, h⟩
  obtain rfl := Json.array.inj heq
  exact h

mutual

/-- A value that is read without loss has no error exactly if it is admitted. -/
theorem validateValue_eq_nil : ∀ (schema : Schema F) (fieldName : ByteString) (v : Json),
    Readable v schema →
      (validateValue lib fieldName v schema = [] ↔ Admits (coerced lib) lib.regexOpt v schema)
  | .string s, fieldName, v, _ => validateString_eq_nil lib s
  | .int s, fieldName, v, hread => validateInt_eq_nil lib s hread
  | .float s, fieldName, v, hread => absurd hread id
  | .bool s, fieldName, v, _ => validateBool_eq_nil lib s
  | .array s items, fieldName, v, hread => by
      rw [validateValue, Admits]
      refine validateArray_eq_nil s hread (fun elements hv => ?_)
      subst hv
      rw [Readable] at hread
      obtain ⟨elements', heq, hitems⟩ := hread.resolve_left (fun h => Json.noConfusion h)
      obtain rfl := Json.array.inj heq
      exact validateItems_eq_nil items fieldName elements hitems
  | .object required properties, fieldName, v, hread => by
      rw [validateValue, Admits, unlessNull_eq_nil]
      refine orNull_congr (fun hv => ?_)
      rw [Readable] at hread
      obtain ⟨members, rfl, hprops⟩ := hread.resolve_left hv
      rw [validateProperties_eq_nil properties fieldName _ hprops]
      exact ⟨fun h => ⟨members, rfl, h⟩, fun h => h.elim (fun _ hboth => hboth.2)⟩

theorem validateItems_eq_nil : ∀ (items : Items F) (fieldName : ByteString) (elements : List Json),
    ReadableItems elements items → (validateItems lib fieldName elements items = [] ↔
      AdmitsItems (coerced lib) lib.regexOpt elements items)
  | .unset, _, _, _ => by
      rw [validateItems, AdmitsItems]
      exact iff_of_true rfl trivial
  | .each s, fieldName, elements, hread => by
      rw [ReadableItems] at hread
      rw [validateItems, AdmitsItems, List.flatMap_eq_nil_iff]
      constructor
      · intro h element hmem
        obtain ⟨i, hi, rfl⟩ := List.getElem_of_mem hmem
        have hitem : (elements[i], i) ∈ elements.zipIdx :=
          List.mk_mem_zipIdx_iff_getElem?.mpr (List.getElem?_eq_getElem hi)
        exact (validateValue_eq_nil s _ _ (hread _ hmem)).mp (h _ hitem)
      · intro h item hmem
        have helement := List.fst_mem_of_mem_zipIdx hmem
        exact (validateValue_eq_nil s _ _ (hread _ helement)).mpr (h _ helement)

theorem validateProperties_eq_nil : ∀ (properties : Properties F) (fieldName : ByteString)
    (obj : InsertionMap ByteString Json), ReadableProperties obj properties →
      (validateProperties lib fieldName obj properties = [] ↔
        AdmitsProperties (coerced lib) lib.regexOpt obj properties)
  | .nil, _, _, _ => by
      rw [validateProperties, AdmitsProperties]
      exact iff_of_true rfl trivial
  | .cons name s rest, fieldName, obj, hread => by
      rw [ReadableProperties] at hread
      rw [validateProperties, AdmitsProperties, List.append_eq_nil_iff,
        validateProperties_eq_nil rest fieldName obj hread.2]
      refine and_congr ?_ Iff.rfl
      cases hget : obj.get? name with
      | some v => exact validateValue_eq_nil s _ v (hread.1 v hget)
      | none =>
          dsimp only
          cases s.required with
          | true => exact iff_of_false (List.cons_ne_nil _ _) (fun h => Bool.noConfusion h)
          | false => exact iff_of_true rfl rfl

end

/-- The validator succeeds on data that is read without loss exactly if it is admitted. -/
theorem validateSchema_iff (data : InsertionMap ByteString Json) (properties : Properties F)
    (hread : ReadableProperties data properties) :
    (validateSchema lib data properties).success = true ↔
      AdmitsProperties (coerced lib) lib.regexOpt data properties := by
  rw [← validateProperties_eq_nil lib properties [] data hread, ← List.length_eq_zero_iff]
  exact decide_eq_true_iff

/-! ## Samples -/

/-- A library for texts and integers. -/
def sampleLibrary : Library Nat where
  jsonStr
    | .integer n => intStr n
    | _ => []
  otherInt _ := 0
  f64 _ := 0
  less n m := decide (n < m)
  f64Str := decimal
  regexOpt _ := none

/-- An age, and tags of a letter at least. -/
def userProperties : Properties Nat :=
  .cons (ascii "age") (.int ⟨true, some 0, none, []⟩)
    (.cons (ascii "tags") (.array ⟨false, 0, 2⟩ (.each (.string ⟨true, 1, 0, [], []⟩))) .nil)

def userData : InsertionMap ByteString Json :=
  (InsertionMap.empty.insert (ascii "age") (.string (ascii "-5"))).insert (ascii "tags")
    (.array [.string (ascii "a"), .integer 7])

theorem validateSchema_iff_user :
    (validateSchema sampleLibrary userData userProperties).success = true ↔
      AdmitsProperties (coerced sampleLibrary) sampleLibrary.regexOpt userData userProperties := by
  refine validateSchema_iff sampleLibrary userData userProperties ?_
  refine ⟨fun v hv => ?_, fun v hv => ?_, trivial⟩
  · obtain rfl : .string (ascii "-5") = v := Option.some.inj hv
    exact .inr ⟨-5, by decide, by decide, by decide⟩
  · obtain rfl : .array [.string (ascii "a"), .integer 7] = v := Option.some.inj hv
    exact .inr ⟨_, rfl, fun element _ => trivial⟩

/-- A truth value in upper case is accepted, and is none in the strict sense. -/
theorem upper_case_accepted :
    ¬ ((validateSchema sampleLibrary (InsertionMap.empty.insert (ascii "flag")
          (.string (ascii "TRUE"))) (.cons (ascii "flag") (.bool ⟨true⟩) .nil)).success = true ↔
      AdmitsProperties strict sampleLibrary.regexOpt (InsertionMap.empty.insert (ascii "flag")
        (.string (ascii "TRUE"))) (.cons (ascii "flag") (.bool ⟨true⟩) (.nil : Properties Nat))) := by
  intro h
  obtain ⟨hflag, -⟩ := h.mp (by decide)
  have hstrict : OrNull true (.string (ascii "TRUE")) (ascii "TRUE" ∈ boolTexts) := hflag
  rcases hstrict with ⟨hnull, -⟩ | ⟨-, hmem⟩
  · cases hnull
  · exact absurd hmem (by decide)

end Validator

end VHono
