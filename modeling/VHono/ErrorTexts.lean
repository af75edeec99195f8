import VHono.RawTexts
import VHono.ValidatorConformance

/-! # What the errors of the validator quote

    The body of a refusal has the errors' texts between quotes as they stand.
    An error quotes the names on the way to its value, and some quote texts of
    the schema: a pattern, the values of an enumeration, a bound.  A schema is
    told of a value if all that its errors quote can stand between quotes; this
    is decided by the schema and the value, going down both, and names count
    only on the way to a rule that is broken. -/

namespace VHono

open ByteString JsonText

/-! ## The body -/

/-- `'{"field":"${err.field}","message":"${err.message}","code":"${err.code}"}'` -/
def errorPart (err : Validator.ValidationError) : ByteString :=
  ascii "\x7b\"field\":\"" ++ err.field ++ ascii "\",\"message\":\"" ++ err.message ++
    ascii "\",\"code\":\"" ++ err.code ++ ascii "\"\x7d"

def buildErrorResponse (errors : List Validator.ValidationError) : ByteString :=
  let errorParts := errors.map errorPart
  ascii "\x7b\"error\":\"Bad Request\",\"errors\":[" ++ List.intercalate (ascii ",") errorParts ++
    ascii "]\x7d"

/-- What the body says of an error. -/
def errorJson (err : Validator.ValidationError) : Json :=
  .object [(ascii "field", .string err.field), (ascii "message", .string err.message),
    (ascii "code", .string err.code)]

def errorsJson (errors : List Validator.ValidationError) : Json :=
  .object [(ascii "error", .string (ascii "Bad Request")),
    (ascii "errors", .array (errors.map errorJson))]

/-- The texts of an error can be quoted. -/
def Told (errors : List Validator.ValidationError) : Prop :=
  ∀ err ∈ errors, Verbatim err.field ∧ Verbatim err.message ∧ Verbatim err.code

def errorMembers (err : Validator.ValidationError) : List (ByteString × ByteString) :=
  [(ascii "field", err.field), (ascii "message", err.message), (ascii "code", err.code)]

theorem errorPart_eq (err : Validator.ValidationError) :
    errorPart err = rawObject (errorMembers err) := by
  simp [errorPart, rawObject, errorMembers, objectText, rawMember, memberText, ascii,
    List.intercalate]

theorem errorJson_eq (err : Validator.ValidationError) :
    errorJson err = .object ((errorMembers err).map stringMember) := rfl

theorem verbatim_names : Verbatim (ascii "field") ∧ Verbatim (ascii "message") ∧
    Verbatim (ascii "code") ∧ Verbatim (ascii "error") ∧ Verbatim (ascii "errors") ∧
    Verbatim (ascii "Bad Request") := by
  decide

/-- The two members of the body: their texts, what they say, and when they say it. -/
def bodyMembers (errors : List Validator.ValidationError) :
    List (ByteString × (ByteString × Json) × Prop) :=
  [(rawMember (ascii "error", ascii "Bad Request"),
      stringMember (ascii "error", ascii "Bad Request"),
      Unescaped (ascii "error") ∧ Unescaped (ascii "Bad Request")),
    (memberText (ascii "errors") (arrayText (errors.map errorPart)),
      (ascii "errors", .array (errors.map errorJson)),
      Unescaped (ascii "errors") ∧
        ∀ err ∈ errors, ∀ m ∈ errorMembers err, Unescaped m.1 ∧ Unescaped m.2)]

theorem buildErrorResponse_eq (errors : List Validator.ValidationError) :
    buildErrorResponse errors = objectText ((bodyMembers errors).map Prod.fst) := by
  simp [buildErrorResponse, bodyMembers, objectText, rawMember, memberText, arrayText, ascii,
    List.intercalate]

theorem settles_bodyMembers (errors : List Validator.ValidationError) (fuel : Nat) :
    ∀ b ∈ bodyMembers errors,
      Settles (member (value (fuel + 3))) (byte '}') b.1 b.2.1 b.2.2 := by
  refine List.forall_mem_cons.mpr ⟨settles_rawMember (fuel + 2) _,
    List.forall_mem_singleton.mpr (settles_member (settles_array errors (by decide) ?_))⟩
  intro err _
  rw [errorPart_eq, errorJson_eq]
  exact settles_rawObject fuel (by decide) (errorMembers err)

theorem valid_buildErrorResponse (errors : List Validator.ValidationError) :
    Utf8.valid (buildErrorResponse errors) = true ↔
      ∀ err ∈ errors, ∀ m ∈ errorMembers err, Utf8.valid m.1 = true ∧ Utf8.valid m.2 = true := by
  obtain ⟨-, -, -, herror, herrors, hbad⟩ := verbatim_names
  rw [buildErrorResponse_eq, valid_objectText, bodyMembers, List.map_cons, List.map_singleton,
    List.all_cons, List.all_cons, List.all_nil, Bool.and_true, valid_rawMember, valid_memberText,
    valid_arrayText, herror.1, herrors.1, hbad.1, Bool.and_self, Bool.true_and, Bool.true_and,
    List.all_map, List.all_eq_true]
  refine forall₂_congr (fun err _ => ?_)
  rw [Function.comp_apply, errorPart_eq, valid_rawObject]

/-- The body says what the errors are exactly if all their texts can be quoted. -/
theorem decode_buildErrorResponse (errors : List Validator.ValidationError) :
    decode (buildErrorResponse errors) = some (errorsJson errors) ↔ Told errors := by
  obtain ⟨hfield, hmessage, hcode, herror, herrors, hbad⟩ := verbatim_names
  have hlength : 3 < (objectText ((bodyMembers errors).map Prod.fst)).length := by
    rw [← buildErrorResponse_eq, buildErrorResponse, List.length_append, List.length_append]
    have hstart : 3 < (ascii "\x7b\"error\":\"Bad Request\",\"errors\":[").length := by
      decide
    omega
  have hiff := decode_objectText_iff (g := fun b => b.2.1) (P := fun b => b.2.2)
    (bodyMembers errors) hlength (fun b hb fuel hfuel => (by
      obtain ⟨fuel, rfl⟩ := Nat.exists_eq_add_of_le' hfuel
      exact settles_bodyMembers errors fuel b hb))
  rw [← buildErrorResponse_eq, valid_buildErrorResponse] at hiff
  refine hiff.trans ?_
  rw [bodyMembers, List.forall_mem_cons, List.forall_mem_singleton,
    and_iff_right (⟨herror.2, hbad.2⟩ : Unescaped (ascii "error") ∧ Unescaped (ascii "Bad Request")),
    and_iff_right herrors.2, ← forall₂_and]
  refine forall₂_congr (fun err _ => ?_)
  rw [← forall₂_and, ← and_iff_right hfield (b := Verbatim err.field),
    ← and_iff_right hmessage (b := Verbatim err.message),
    ← and_iff_right hcode (b := Verbatim err.code)]
  have hboth : ∀ m ∈ errorMembers err,
      ((Utf8.valid m.1 = true ∧ Utf8.valid m.2 = true) ∧ Unescaped m.1 ∧ Unescaped m.2 ↔
        Verbatim m.1 ∧ Verbatim m.2) := fun m _ => and_and_and_comm
  rw [forall₂_congr hboth, errorMembers, List.forall_mem_cons, List.forall_mem_cons,
    List.forall_mem_singleton]

namespace Validator

variable {F : Type}

/-! ## Rules that quote -/

/-- The text does not match the pattern, or the pattern is none. -/
def StringSchema.PatternBroken (schema : StringSchema)
    (regexOpt : ByteString → Option (ByteString → Bool)) (text : ByteString) : Prop :=
  schema.pattern ≠ [] ∧ ∀ re, regexOpt schema.pattern = some re → ¬ re text = true

/-- The text is none of the values, and the pattern before them is one. -/
def StringSchema.ValuesBroken (schema : StringSchema)
    (regexOpt : ByteString → Option (ByteString → Bool)) (text : ByteString) : Prop :=
  schema.enumValues ≠ [] ∧ text ∉ schema.enumValues ∧
    (schema.pattern ≠ [] → regexOpt schema.pattern ≠ none)

/-- What is quoted of a text's schema can be quoted.  A text that is required and empty is told
    only that. -/
structure StringSchema.Quotes (schema : StringSchema)
    (regexOpt : ByteString → Option (ByteString → Bool)) (text : ByteString) : Prop where
  pattern : ¬ (text = [] ∧ schema.required = true) → schema.PatternBroken regexOpt text →
    Verbatim schema.pattern
  values  : ¬ (text = [] ∧ schema.required = true) → schema.ValuesBroken regexOpt text →
    ∀ value ∈ schema.enumValues, Verbatim value

structure FloatSchema.Meets (schema : FloatSchema F) (lib : Library F) (x : F) : Prop where
  min : ∀ min ∈ schema.min, ¬ lib.less x min = true
  max : ∀ max ∈ schema.max, ¬ lib.less max x = true

structure FloatSchema.Quotes (schema : FloatSchema F) (lib : Library F) (x : F) : Prop where
  min : ∀ min ∈ schema.min, lib.less x min = true → Verbatim (lib.f64Str min)
  max : ∀ max ∈ schema.max, lib.less max x = true → Verbatim (lib.f64Str max)

section

variable (lib : Library F)

mutual

/-- All that the errors of a value quote can be quoted, where `named` says it of the names on the
    way to it. -/
def Tells (named : Prop) (v : Json) : Schema F → Prop
  | .string s =>
    (OrNull s.required v (s.Meets lib.regexOpt (lib.str v)) ∨ named) ∧
      (v ≠ .null → s.Quotes lib.regexOpt (lib.str v))
  | .int s => OrNull s.required v (s.Meets (lib.int v)) ∨ named
  | .float s =>
    (OrNull s.required v (s.Meets lib (lib.f64 v)) ∨ named) ∧ (v ≠ .null → s.Quotes lib (lib.f64 v))
  | .bool s => OrNull s.required v ((coerced lib).truth v) ∨ named
  | .array s items =>
    (OrNull s.required v (s.Meets (arr v).length) ∨ named) ∧ (v ≠ .null → TellsItems named (arr v) items)
  | .object required properties =>
    (OrNull required v True ∨ named) ∧ (v ≠ .null → TellsProperties named (asMap v) properties)

def TellsItems (named : Prop) (elements : List Json) : Items F → Prop
  | .unset => True
  | .each s => ∀ element ∈ elements, Tells named element s

def TellsProperties (named : Prop) (obj : InsertionMap ByteString Json) : Properties F → Prop
  | .nil => True
  | .cons name s rest =>
    (match obj.get? name with
      | some v => Tells (named ∧ Verbatim name) v s
      | none => s.required = false ∨ (named ∧ Verbatim name)) ∧ TellsProperties named obj rest

end

end

/-! ## Errors of one value -/

variable {lib : Library F} {fieldName : ByteString} {v : Json} {errors : List ValidationError}

/-- The errors name a field. -/
def Names (fieldName : ByteString) (errors : List ValidationError) : Prop :=
  ∀ err ∈ errors, err.field = fieldName

/-- The errors say something that can be quoted. -/
def Clear (errors : List ValidationError) : Prop :=
  ∀ err ∈ errors, Verbatim err.message ∧ Verbatim err.code

theorem told_append (es es' : List ValidationError) :
    Told (es ++ es') ↔ Told es ∧ Told es' :=
  List.forall_mem_append

theorem clear_append (es es' : List ValidationError) :
    Clear (es ++ es') ↔ Clear es ∧ Clear es' :=
  List.forall_mem_append

theorem Names.append {es es' : List ValidationError} (h : Names fieldName es)
    (h' : Names fieldName es') : Names fieldName (es ++ es') :=
  List.forall_mem_append.mpr ⟨h, h'⟩

theorem names_check {fails : Prop} [Decidable fails] (message code : ByteString) :
    Names fieldName (check fails fieldName message code) := by
  rw [check]
  split
  · exact List.forall_mem_singleton.mpr rfl
  · exact fun err herr => absurd herr List.not_mem_nil

theorem names_unlessNull {required : Bool} (h : Names fieldName errors) :
    Names fieldName (unlessNull fieldName required v errors) := by
  rw [unlessNull.eq_def]
  split
  · split
    · exact List.forall_mem_singleton.mpr rfl
    · exact fun err herr => absurd herr List.not_mem_nil
  · exact h

theorem clear_check {fails : Prop} [Decidable fails] {message code : ByteString}
    (hcode : Verbatim code) :
    Clear (check fails fieldName message code) ↔ (fails → Verbatim message) := by
  rw [check]
  split
  · rename_i hfails
    exact List.forall_mem_singleton.trans
      ((and_iff_left hcode).trans (true_imp_iff.symm.trans (imp_congr_left (iff_of_true trivial hfails))))
  · rename_i hfails
    exact iff_of_true (fun err herr => absurd herr List.not_mem_nil) (fun h => absurd h hfails)

theorem clear_requiredError : Clear [requiredError fieldName] := by
  have htexts : Verbatim (ascii "Field is required") ∧ Verbatim (ascii "required") := by
    decide
  exact List.forall_mem_singleton.mpr htexts

theorem clear_unlessNull {required : Bool} :
    Clear (unlessNull fieldName required v errors) ↔ (v ≠ .null → Clear errors) := by
  rw [unlessNull.eq_def]
  split
  · refine iff_of_true ?_ (fun hne => absurd rfl hne)
    split
    · exact clear_requiredError
    · exact fun err herr => absurd herr List.not_mem_nil
  · rename_i hne
    exact ⟨fun h _ => h, fun h => h hne⟩

/-- Errors of one field can be quoted if what they say can be, and the field's name if there are
    any. -/
theorem told_iff (h : Names fieldName errors) :
    Told errors ↔ (errors = [] ∨ Verbatim fieldName) ∧ Clear errors := by
  constructor
  · intro htold
    refine ⟨?_, fun err herr => (htold err herr).2⟩
    cases errors with
    | nil => exact .inl rfl
    | cons err es =>
        right
        rw [← h err (List.mem_cons_self ..)]
        exact (htold err (List.mem_cons_self ..)).1
  · rintro ⟨hname, hclear⟩ err herr
    refine ⟨?_, hclear err herr⟩
    rw [h err herr]
    exact hname.resolve_left (List.ne_nil_of_mem herr)

/-- Errors that are added are found in a value that is not null. -/
theorem told_unlessNull {required : Bool} (es es' : List ValidationError) :
    Told (unlessNull fieldName required v (es ++ es')) ↔
      Told (unlessNull fieldName required v es) ∧ (v ≠ .null → Told es') := by
  by_cases hv : v = .null
  · rw [hv]
    exact (and_iff_left (fun hne => absurd rfl hne)).symm
  · have hskip : ∀ es, unlessNull fieldName required v es = es := by
      intro es
      cases v with
      | null => exact absurd rfl hv
      | _ => rfl
    rw [hskip, hskip, told_append]
    exact and_congr_right (fun _ => ⟨fun h _ => h, fun h => h hv⟩)

/-! ## Texts -/

theorem names_enumErrors (schema : StringSchema) (text : ByteString) :
    Names fieldName (enumErrors fieldName schema text) :=
  names_check _ _

theorem names_patternErrors (schema : StringSchema) (text : ByteString) :
    Names fieldName (patternErrors lib fieldName schema text) := by
  rw [patternErrors]
  split
  · split
    · exact List.forall_mem_singleton.mpr rfl
    · exact (names_check _ _).append (names_enumErrors schema text)
  · exact names_enumErrors schema text

theorem names_validateString (schema : StringSchema) :
    Names fieldName (validateString lib fieldName v schema) := by
  refine names_unlessNull ?_
  dsimp only
  split
  · exact List.forall_mem_singleton.mpr rfl
  · exact ((names_check _ _).append (names_check _ _)).append (names_patternErrors schema _)

theorem verbatim_values (values : List ByteString) :
    Verbatim (ascii "Value must be one of: " ++ (ascii ", ").intercalate values) ↔
      ∀ value ∈ values, Verbatim value := by
  rw [verbatim_before (by decide)]
  exact verbatim_intercalate (by decide) (by decide) values

theorem clear_enumErrors (schema : StringSchema) (text : ByteString) :
    Clear (enumErrors fieldName schema text) ↔
      (schema.enumValues ≠ [] ∧ text ∉ schema.enumValues →
        ∀ value ∈ schema.enumValues, Verbatim value) := by
  rw [enumErrors, clear_check (by decide), verbatim_values, gt_iff_lt, List.length_pos_iff]

/-- From the pattern on, what is quoted is the pattern or the values. -/
theorem clear_patternErrors (schema : StringSchema) (text : ByteString) :
    Clear (patternErrors lib fieldName schema text) ↔
      (schema.PatternBroken lib.regexOpt text → Verbatim schema.pattern) ∧
        (schema.ValuesBroken lib.regexOpt text → ∀ value ∈ schema.enumValues, Verbatim value) := by
  rw [patternErrors]
  by_cases hpattern : schema.pattern = []
  · have hbroken : ¬ schema.PatternBroken lib.regexOpt text := fun h => h.1 hpattern
    have hvalues : schema.ValuesBroken lib.regexOpt text ↔
        schema.enumValues ≠ [] ∧ text ∉ schema.enumValues :=
      and_congr_right (fun _ => and_iff_left (fun hne => absurd hpattern hne))
    rw [if_neg (by rw [hpattern]; exact Nat.lt_irrefl 0), clear_enumErrors, hvalues]
    exact (and_iff_right (fun h => absurd h hbroken)).symm
  · rw [if_pos (List.length_pos_iff.mpr hpattern)]
    cases hre : lib.regexOpt schema.pattern with
    | none =>
        have hbroken : schema.PatternBroken lib.regexOpt text := by
          refine ⟨hpattern, fun re h => ?_⟩
          rw [hre] at h
          cases h
        have hvalues : ¬ schema.ValuesBroken lib.regexOpt text := fun h => h.2.2 hpattern hre
        dsimp only
        rw [Clear, List.forall_mem_singleton, verbatim_before (by decide),
          and_iff_left (show Verbatim (ascii "invalid_pattern") by decide),
          forall_prop_of_true hbroken]
        exact (and_iff_left (fun h => absurd h hvalues)).symm
    | some re =>
        have hbroken : schema.PatternBroken lib.regexOpt text ↔ ¬ re text = true := by
          refine ⟨fun h => h.2 re hre, fun h => ⟨hpattern, fun re' hre' => ?_⟩⟩
          rw [hre] at hre'
          rwa [← Option.some.inj hre']
        have hvalues : schema.ValuesBroken lib.regexOpt text ↔
            schema.enumValues ≠ [] ∧ text ∉ schema.enumValues := by
          refine and_congr_right (fun _ => and_iff_left (fun _ h => ?_))
          rw [hre] at h
          cases h
        dsimp only
        rw [clear_append, clear_check (by decide), verbatim_before (by decide),
          clear_enumErrors, hbroken, hvalues]

/-- A bound is a number. -/
theorem verbatim_bound {text : ByteString} (h : ∀ b ∈ text, isPlainByte b = true) (n : Int) :
    Verbatim (text ++ intStr n) :=
  (verbatim_before h _).mpr (verbatim_intStr n)

theorem clear_validateString (schema : StringSchema) :
    Clear (validateString lib fieldName v schema) ↔
      (v ≠ .null → schema.Quotes lib.regexOpt (lib.str v)) := by
  rw [validateString, clear_unlessNull]
  refine imp_congr_right (fun _ => ?_)
  by_cases hempty : lib.str v = [] ∧ schema.required = true
  · rw [if_pos ⟨List.length_eq_zero_iff.mpr hempty.1, hempty.2⟩]
    exact iff_of_true clear_requiredError
      ⟨fun h => absurd hempty h, fun h => absurd hempty h⟩
  · have hlength : ¬ ((lib.str v).length = 0 ∧ schema.required = true) :=
      fun h => hempty ⟨List.length_eq_zero_iff.mp h.1, h.2⟩
    rw [if_neg hlength, clear_append, clear_append, clear_check (by decide),
      clear_check (by decide), clear_patternErrors,
      and_iff_right ⟨fun _ => verbatim_bound (by decide) _,
        fun _ => verbatim_bound (by decide) _⟩]
    exact ⟨fun h => ⟨fun _ => h.1, fun _ => h.2⟩, fun h => ⟨h.pattern hempty, h.values hempty⟩⟩

theorem told_validateString (schema : StringSchema) :
    Told (validateString lib fieldName v schema) ↔
      Tells lib (Verbatim fieldName) v (.string schema) := by
  rw [told_iff (names_validateString schema), validateString_read, clear_validateString, Tells]

/-! ## Numbers and truth values -/

theorem names_validateInt (schema : IntSchema) :
    Names fieldName (validateInt lib fieldName v schema) := by
  refine names_unlessNull ?_
  refine Names.append (Names.append ?_ ?_) (names_check _ _)
  · cases schema.min with
    | none => exact fun err herr => absurd herr List.not_mem_nil
    | some min => exact names_check _ _
  · cases schema.max with
    | none => exact fun err herr => absurd herr List.not_mem_nil
    | some max => exact names_check _ _

theorem verbatim_intsStr (values : List Int) :
    Verbatim (ascii "Value must be one of: " ++ intsStr values) := by
  rw [verbatim_before (by decide), intsStr, verbatim_after (by decide),
    verbatim_before (by decide)]
  refine (verbatim_intercalate (by decide) (by decide) _).mpr (fun t ht => ?_)
  obtain ⟨n, -, rfl⟩ := List.mem_map.mp ht
  exact verbatim_intStr n

/-- An integer's errors quote numbers. -/
theorem clear_validateInt (schema : IntSchema) : Clear (validateInt lib fieldName v schema) := by
  refine clear_unlessNull.mpr (fun _ => ?_)
  dsimp only
  rw [clear_append, clear_append, clear_check (by decide)]
  refine ⟨⟨?_, ?_⟩, fun _ => verbatim_intsStr _⟩
  · cases schema.min with
    | none => exact fun err herr => absurd herr List.not_mem_nil
    | some min =>
        exact (clear_check (by decide)).mpr (fun _ => verbatim_bound (by decide) min)
  · cases schema.max with
    | none => exact fun err herr => absurd herr List.not_mem_nil
    | some max =>
        exact (clear_check (by decide)).mpr (fun _ => verbatim_bound (by decide) max)

theorem told_validateInt (schema : IntSchema) :
    Told (validateInt lib fieldName v schema) ↔ Tells lib (Verbatim fieldName) v (.int schema) := by
  rw [told_iff (names_validateInt schema), validateInt_read, Tells,
    and_iff_left (clear_validateInt schema)]

theorem names_validateFloat (schema : FloatSchema F) :
    Names fieldName (validateFloat lib fieldName v schema) := by
  refine names_unlessNull ?_
  refine Names.append ?_ ?_
  · cases schema.min with
    | none => exact fun err herr => absurd herr List.not_mem_nil
    | some min => exact names_check _ _
  · cases schema.max with
    | none => exact fun err herr => absurd herr List.not_mem_nil
    | some max => exact names_check _ _

theorem validateFloat_read (schema : FloatSchema F) :
    validateFloat lib fieldName v schema = [] ↔
      OrNull schema.required v (schema.Meets lib (lib.f64 v)) := by
  rw [validateFloat, unlessNull_eq_nil]
  refine orNull_congr (fun _ => ?_)
  rw [List.append_eq_nil_iff]
  constructor
  · rintro ⟨hmin, hmax⟩
    refine ⟨fun min hmem => ?_, fun max hmem => ?_⟩
    · rw [hmem] at hmin
      exact check_eq_nil.mp hmin
    · rw [hmem] at hmax
      exact check_eq_nil.mp hmax
  · intro h
    constructor
    · cases hmin : schema.min with
      | none => rfl
      | some min => exact check_eq_nil.mpr (h.min min hmin)
    · cases hmax : schema.max with
      | none => rfl
      | some max => exact check_eq_nil.mpr (h.max max hmax)

theorem clear_validateFloat (schema : FloatSchema F) :
    Clear (validateFloat lib fieldName v schema) ↔ (v ≠ .null → schema.Quotes lib (lib.f64 v)) := by
  rw [validateFloat, clear_unlessNull]
  refine imp_congr_right (fun _ => ?_)
  rw [clear_append]
  constructor
  · rintro ⟨hmin, hmax⟩
    refine ⟨fun min hmem hless => ?_, fun max hmem hless => ?_⟩
    · rw [hmem] at hmin
      exact (verbatim_before (by decide) _).mp ((clear_check (by decide)).mp hmin hless)
    · rw [hmem] at hmax
      exact (verbatim_before (by decide) _).mp ((clear_check (by decide)).mp hmax hless)
  · intro h
    constructor
    · cases hmin : schema.min with
      | none => exact fun err herr => absurd herr List.not_mem_nil
      | some min =>
          exact (clear_check (by decide)).mpr
            (fun hless => (verbatim_before (by decide) _).mpr (h.min min hmin hless))
    · cases hmax : schema.max with
      | none => exact fun err herr => absurd herr List.not_mem_nil
      | some max =>
          exact (clear_check (by decide)).mpr
            (fun hless => (verbatim_before (by decide) _).mpr (h.max max hmax hless))

theorem told_validateFloat (schema : FloatSchema F) :
    Told (validateFloat lib fieldName v schema) ↔
      Tells lib (Verbatim fieldName) v (.float schema) := by
  rw [told_iff (names_validateFloat schema), validateFloat_read, clear_validateFloat, Tells]

theorem told_validateBool (schema : BoolSchema) :
    Told (validateBool lib fieldName v schema) ↔ Tells lib (Verbatim fieldName) v (.bool schema) := by
  have hclear : Clear (validateBool lib fieldName v schema) :=
    clear_unlessNull.mpr (fun _ => (clear_check (by decide)).mpr (fun _ => by decide))
  have hnames : Names fieldName (validateBool lib fieldName v schema) :=
    names_unlessNull (names_check _ _)
  rw [told_iff hnames, validateBool_eq_nil, and_iff_left hclear, Tells]

/-! ## Arrays and objects -/

theorem told_validateArray (schema : ArraySchema) (itemErrors : List Json → List ValidationError) :
    Told (validateArray fieldName v schema itemErrors) ↔
      (OrNull schema.required v (schema.Meets (arr v).length) ∨ Verbatim fieldName) ∧
        (v ≠ .null → Told (itemErrors (arr v))) := by
  have hown : Told (validateArray fieldName v schema (fun _ => [])) ↔
      OrNull schema.required v (schema.Meets (arr v).length) ∨ Verbatim fieldName := by
    have hnames : Names fieldName (validateArray fieldName v schema (fun _ => [])) :=
      names_unlessNull (((names_check _ _).append (names_check _ _)).append
        (fun err herr => absurd herr List.not_mem_nil))
    have hitems : ∀ {n : Int} {p : ByteString}, (∀ b ∈ p, isPlainByte b = true) →
        Verbatim (p ++ intStr n ++ ascii " items") := by
      intro n p hp
      exact (verbatim_after (by decide) _).mpr (verbatim_bound hp n)
    have hclear : Clear (validateArray fieldName v schema (fun _ => [])) := by
      refine clear_unlessNull.mpr (fun _ => ?_)
      dsimp only
      rw [clear_append, clear_append, clear_check (by decide),
        clear_check (by decide)]
      exact ⟨⟨fun _ => hitems (by decide), fun _ => hitems (by decide)⟩,
        fun err herr => absurd herr List.not_mem_nil⟩
    rw [told_iff hnames, and_iff_left hclear, validateArray_read]
    exact or_congr_left (orNull_congr (fun _ => and_iff_left rfl))
  rw [← hown, validateArray, told_unlessNull, validateArray, List.append_nil]

/-- A null that may not be there is told by its name. -/
theorem told_null (required : Bool) :
    Told (unlessNull fieldName required v []) ↔ OrNull required v True ∨ Verbatim fieldName := by
  have hnames : Names fieldName (unlessNull fieldName required v []) :=
    names_unlessNull (fun err herr => absurd herr List.not_mem_nil)
  have hclear : Clear (unlessNull fieldName required v []) :=
    clear_unlessNull.mpr (fun _ err herr => absurd herr List.not_mem_nil)
  rw [told_iff hnames, and_iff_left hclear, unlessNull_eq_nil]
  exact or_congr_left (orNull_congr (fun _ => iff_true_intro rfl))

theorem verbatim_itemName (i : Nat) : Verbatim (itemName fieldName i) ↔ Verbatim fieldName := by
  rw [itemName, verbatim_after (by decide), List.append_assoc]
  exact (verbatim_between (by decide) fieldName (decimal i)).trans
    (and_iff_left (verbatim_decimal i))

theorem verbatim_propertyName (propName : ByteString) :
    Verbatim (propertyName fieldName propName) ↔ Verbatim fieldName ∧ Verbatim propName := by
  rw [propertyName]
  split
  · rw [List.append_assoc]
    exact verbatim_between (by decide) fieldName propName
  · rename_i hempty
    rw [List.length_eq_zero_iff.mp (Nat.eq_zero_of_not_pos hempty)]
    exact (and_iff_right verbatim_nil).symm

theorem told_requiredError : Told [requiredError fieldName] ↔ Verbatim fieldName := by
  have hnames : Names fieldName [requiredError fieldName] := List.forall_mem_singleton.mpr rfl
  rw [told_iff hnames, and_iff_left clear_requiredError,
    or_iff_right (List.cons_ne_nil _ _)]

mutual

/-- The errors of a value can be quoted exactly if its schema is told of it. -/
theorem told_validateValue : ∀ (schema : Schema F) (fieldName : ByteString) (v : Json),
    Told (validateValue lib fieldName v schema) ↔ Tells lib (Verbatim fieldName) v schema
  | .string s, _, _ => told_validateString s
  | .int s, _, _ => told_validateInt s
  | .float s, _, _ => told_validateFloat s
  | .bool s, _, _ => told_validateBool s
  | .array s items, fieldName, v => by
      rw [validateValue, told_validateArray, Tells, told_validateItems items fieldName (arr v)]
  | .object required properties, fieldName, v => by
      rw [validateValue, Tells, ← told_validateProperties properties fieldName (asMap v),
        ← told_null]
      exact told_unlessNull [] _

theorem told_validateItems : ∀ (items : Items F) (fieldName : ByteString) (elements : List Json),
    Told (validateItems lib fieldName elements items) ↔
      TellsItems lib (Verbatim fieldName) elements items
  | .unset, _, _ => by
      rw [validateItems, TellsItems]
      exact iff_true_intro (fun err herr => absurd herr List.not_mem_nil)
  | .each s, fieldName, elements => by
      rw [validateItems, TellsItems, Told, List.forall_mem_flatMap]
      have hitem : ∀ (element : Json) (i : Nat),
          Told (validateValue lib (itemName fieldName i) element s) ↔
            Tells lib (Verbatim fieldName) element s := by
        intro element i
        rw [told_validateValue s, propext (verbatim_itemName i)]
      constructor
      · intro h element hmem
        obtain ⟨i, hi, rfl⟩ := List.getElem_of_mem hmem
        have hindex : (elements[i], i) ∈ elements.zipIdx :=
          List.mk_mem_zipIdx_iff_getElem?.mpr (List.getElem?_eq_getElem hi)
        exact (hitem _ i).mp (h _ hindex)
      · intro h item hmem
        exact (hitem _ _).mpr (h _ (List.fst_mem_of_mem_zipIdx hmem))

theorem told_validateProperties : ∀ (properties : Properties F) (fieldName : ByteString)
    (obj : InsertionMap ByteString Json),
    Told (validateProperties lib fieldName obj properties) ↔
      TellsProperties lib (Verbatim fieldName) obj properties
  | .nil, _, _ => by
      rw [validateProperties, TellsProperties]
      exact iff_true_intro (fun err herr => absurd herr List.not_mem_nil)
  | .cons name s rest, fieldName, obj => by
      rw [validateProperties, TellsProperties, told_append,
        told_validateProperties rest fieldName obj]
      refine and_congr ?_ Iff.rfl
      cases hget : obj.get? name with
      | some v =>
          dsimp only
          rw [told_validateValue s, propext (verbatim_propertyName name)]
      | none =>
          dsimp only
          cases s.required with
          | true =>
              rw [if_pos rfl, told_requiredError, verbatim_propertyName]
              exact (or_iff_right (fun h => Bool.noConfusion h)).symm
          | false =>
              exact iff_of_true (fun err herr => absurd herr List.not_mem_nil) (.inl rfl)

end

/-- The errors of the data can be quoted exactly if the schema is told of them. -/
theorem told_validateSchema (data : InsertionMap ByteString Json) (properties : Properties F) :
    Told (validateSchema lib data properties).errors ↔ TellsProperties lib True data properties := by
  have hempty : Verbatim ([] : ByteString) ↔ True := iff_true_intro verbatim_nil
  rw [← propext hempty]
  exact told_validateProperties properties [] data

end Validator

end VHono
