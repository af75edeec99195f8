import VHono.OpenApiJson
import VHono.OpenApiValidation

/-! # What comes back of a document

    A schema with a reference is written as the reference alone, and several
    records are written only where one of their fields is set.  A document
    comes back exactly if nothing is left out so: each record as it should be
    for its own fields, and then the records that hold it. -/

namespace VHono

open ByteString JsonRecords

namespace OpenApiRoundTrip

variable {F : Type} (json : JsonConversions F)

/-! ## Records without schemas -/

theorem contact_kept (c : OpenAPIContact) : OpenAPIContact.fromJson json c.toJson = c := by
  have hread : Reads _ (c.toJson (F := F)).asMap := reads_object (by
    simp only [List.map_cons, List.map_nil]
    decide)
  obtain ⟨name, url, email⟩ := c
  rw [OpenAPIContact.fromJson, OpenAPIContact.mk.injEq]
  exact ⟨textAt_text json (hread 0 rfl), textAt_text json (hread 1 rfl),
    textAt_text json (hread 2 rfl)⟩

theorem license_kept (l : OpenAPILicense) : OpenAPILicense.fromJson json l.toJson = l := by
  have hread : Reads _ (l.toJson (F := F)).asMap := reads_object (by
    simp only [List.map_cons, List.map_nil]
    decide)
  obtain ⟨name, url⟩ := l
  rw [OpenAPILicense.fromJson, OpenAPILicense.mk.injEq]
  exact ⟨textAt_string json (hread 0 rfl), textAt_text json (hread 1 rfl)⟩

theorem server_kept (s : OpenAPIServer) : OpenAPIServer.fromJson json s.toJson = s := by
  have hread : Reads _ (s.toJson (F := F)).asMap := reads_object (by
    simp only [List.map_cons, List.map_nil]
    decide)
  obtain ⟨url, description⟩ := s
  rw [OpenAPIServer.fromJson, OpenAPIServer.mk.injEq]
  exact ⟨textAt_string json (hread 0 rfl), textAt_text json (hread 1 rfl)⟩

theorem externalDocs_kept (e : OpenAPIExternalDocs) :
    OpenAPIExternalDocs.fromJson json e.toJson = e := by
  have hread : Reads _ (e.toJson (F := F)).asMap := reads_object (by
    simp only [List.map_cons, List.map_nil]
    decide)
  obtain ⟨url, description⟩ := e
  rw [OpenAPIExternalDocs.fromJson, OpenAPIExternalDocs.mk.injEq]
  exact ⟨textAt_string json (hread 0 rfl), textAt_text json (hread 1 rfl)⟩

theorem securityScheme_kept (ss : OpenAPISecurityScheme) :
    OpenAPISecurityScheme.fromJson json ss.toJson = ss := by
  have hread : Reads _ (ss.toJson (F := F)).asMap := reads_object (by
    simp only [List.map_cons, List.map_nil]
    decide)
  obtain ⟨schemeType, description, name, inLocation, scheme, bearerFormat⟩ := ss
  rw [OpenAPISecurityScheme.fromJson, OpenAPISecurityScheme.mk.injEq]
  exact ⟨textAt_text json (hread 0 rfl), textAt_text json (hread 1 rfl),
    textAt_text json (hread 2 rfl), textAt_text json (hread 3 rfl),
    textAt_text json (hread 4 rfl), textAt_text json (hread 5 rfl)⟩

theorem texts_kept (l : List ByteString) :
    (itemsOf .string l : JsonAny F).arr.map (JsonAny.str json) = l := by
  show (l.map JsonAny.string).map (JsonAny.str json) = l
  rw [List.map_map]
  exact List.map_id l

theorem security_kept (sec : OpenAPISecurity) :
    securityFromJson json (securityToJson sec) = sec :=
  (mapOf_iff sec).mpr (fun e _ => texts_kept json e.2)

/-- A tag comes back exactly if its external documentation has an address or nothing at all. -/
theorem tag_iff (t : OpenAPITag) : OpenAPITag.fromJson json t.toJson = t ↔
    t.externalDocs = {} ∨ t.externalDocs.url ≠ [] := by
  have hread : Reads _ (t.toJson (F := F)).asMap := reads_object (by
    simp only [List.map_cons, List.map_nil]
    decide)
  have hdocs := recordAt_iff (hread 2 rfl) (externalDocs_kept json {})
  rw [and_iff_left (externalDocs_kept json t.externalDocs)] at hdocs
  obtain ⟨name, description, externalDocs⟩ := t
  rw [OpenAPITag.fromJson, OpenAPITag.mk.injEq, ← hdocs]
  exact ⟨fun h => h.2.2, fun h => ⟨textAt_string json (hread 0 rfl),
    textAt_text json (hread 1 rfl), h⟩⟩

/-- So does what is said of the service, if the license has a name or nothing at all. -/
theorem info_iff (i : OpenAPIInfo) : OpenAPIInfo.fromJson json i.toJson = i ↔
    i.license = {} ∨ i.license.name ≠ [] := by
  have hread : Reads _ (i.toJson (F := F)).asMap := reads_object (by
    simp only [List.map_cons, List.map_nil]
    decide)
  have hcontact := recordAt_iff (hread 4 rfl) (contact_kept json {})
  have hlicense := recordAt_iff (hread 5 rfl) (license_kept json {})
  rw [and_iff_left (contact_kept json i.contact)] at hcontact
  rw [and_iff_left (license_kept json i.license)] at hlicense
  obtain ⟨title, version, description, termsOfService, contact, license⟩ := i
  rw [OpenAPIInfo.fromJson, OpenAPIInfo.mk.injEq, ← hlicense]
  refine ⟨fun h => h.2.2.2.2.2, fun h => ⟨textAt_string json (hread 0 rfl),
    textAt_string json (hread 1 rfl), textAt_text json (hread 2 rfl),
    textAt_text json (hread 3 rfl), hcontact.mpr ?_, h⟩⟩
  -- a contact is left out only if all of it is empty
  obtain ⟨name, url, email⟩ := contact
  by_cases hempty : name = [] ∧ url = [] ∧ email = []
  · obtain ⟨rfl, rfl, rfl⟩ := hempty
    exact .inl rfl
  · exact .inr ((not_and_or.mp hempty).imp_right not_and_or.mp)

/-! ## Schemas -/

section
variable [Zero F] [DecidableEq F]

/-- A schema with a reference has nothing else set, and so do the schemas that one holds. -/
inductive SchemaKept : OpenAPISchema F → Prop
  | reference {ref : ByteString} : ref ≠ [] → SchemaKept { OpenAPISchema.empty with ref := ref }
  | plain {s : OpenAPISchema F} : s.ref = [] → (∀ p ∈ s.properties, SchemaKept p.2) →
      (∀ t ∈ s.items, SchemaKept t) → SchemaKept s

omit [DecidableEq F] in
theorem schemaKept_empty : SchemaKept (OpenAPISchema.empty : OpenAPISchema F) :=
  .plain rfl (fun _ hp => by cases hp) (fun _ ht => by cases ht)

omit [DecidableEq F] in
theorem schema_reference (ref : ByteString) :
    openapiSchemaFromJsonImpl json (object [(ascii "$ref", some (.string ref))])
      = { OpenAPISchema.empty with ref := ref } := by
  rw [openapiSchemaFromJsonImpl]
  rfl

/-- The fields of a schema without a reference. -/
def schemaFields (s : OpenAPISchema F) : List (ByteString × Option (JsonAny F)) := [
  (ascii "type", text s.schemaType),
  (ascii "format", text s.format),
  (ascii "title", text s.title),
  (ascii "description", text s.description),
  (ascii "default", text s.defaultVal),
  (ascii "example", text s.exampleVal),
  (ascii "enum", when (s.enumValues ≠ []) (itemsOf .string s.enumValues)),
  (ascii "required", when (s.required ≠ []) (itemsOf .string s.required)),
  (ascii "properties", when (s.properties ≠ []) (membersOf (·.toJson) s.properties)),
  (ascii "items", s.items.map (·.toJson)),
  (ascii "minimum", when (s.minimum ≠ 0) (.f64 s.minimum)),
  (ascii "maximum", when (s.maximum ≠ 0) (.f64 s.maximum)),
  (ascii "minLength", when (s.minLength ≠ 0) (.int s.minLength)),
  (ascii "maxLength", when (s.maxLength ≠ 0) (.int s.maxLength)),
  (ascii "pattern", text s.pattern),
  (ascii "nullable", flag s.nullable),
  (ascii "readOnly", flag s.readOnly),
  (ascii "writeOnly", flag s.writeOnly)]

theorem toJson_plain {s : OpenAPISchema F} (h : s.ref = []) :
    s.toJson = object (schemaFields s ++ [(ascii "$ref", none)]) := by
  have hproperties : s.properties.attach.map (fun p => (p.1.1, p.1.2.toJson))
      = s.properties.map (fun p => (p.1, p.2.toJson)) :=
    List.attach_map_val (f := fun p : ByteString × OpenAPISchema F => (p.1, p.2.toJson))
  have hitems : s.items.attach.map (fun t => t.1.toJson) = s.items.map (·.toJson) :=
    Option.attach_map_val s.items (·.toJson)
  rw [OpenAPISchema.toJson, if_neg (fun hne => hne h), hproperties, hitems, object_unwritten]
  rfl

theorem schema_plain_iff {s : OpenAPISchema F} (h : s.ref = []) :
    openapiSchemaFromJsonImpl json s.toJson = s ↔
      (∀ p ∈ s.properties, openapiSchemaFromJsonImpl json p.2.toJson = p.2) ∧
      ∀ t ∈ s.items, openapiSchemaFromJsonImpl json t.toJson = t := by
  have hread : Reads (schemaFields s ++ [(ascii "$ref", none)]) s.toJson.asMap := by
    rw [toJson_plain h]
    exact reads_object (by
      simp only [schemaFields, List.map_cons, List.map_nil, List.cons_append, List.nil_append]
      decide)
  have hproperties : (membersAt s.toJson.asMap (ascii "properties")).attach.map
      (fun e => (e.1.1, openapiSchemaFromJsonImpl json e.1.2)) = s.properties ↔
        ∀ p ∈ s.properties, openapiSchemaFromJsonImpl json p.2.toJson = p.2 := by
    rw [List.attach_map_val (f := fun e : ByteString × JsonAny F =>
        (e.1, openapiSchemaFromJsonImpl json e.2)), membersAt_membersOf (hread 8 rfl), List.map_map]
    exact entries_eq_iff (fun p => openapiSchemaFromJsonImpl json p.toJson)
  have hitems : (s.toJson.asMap.lookup (ascii "items")).attach.map
      (fun v => openapiSchemaFromJsonImpl json v.1) = s.items ↔
        ∀ t ∈ s.items, openapiSchemaFromJsonImpl json t.toJson = t := by
    rw [Option.attach_map_val _ (openapiSchemaFromJsonImpl json), hread 9 rfl]
    cases s.items with
    | none => exact iff_of_true rfl (fun _ ht => by cases ht)
    | some t =>
        refine ⟨fun heq t' ht' => ?_, fun hall => congrArg some (hall t rfl)⟩
        rw [← Option.some.inj ht']
        exact Option.some.inj heq
  rw [← hproperties, ← hitems, openapiSchemaFromJsonImpl]
  constructor
  · intro heq
    exact ⟨congrArg OpenAPISchema.properties heq, congrArg OpenAPISchema.items heq⟩
  · -- every field but the two comes back as it is
    rintro ⟨hproperties', hitems'⟩
    rw [hproperties', hitems']
    obtain ⟨schemaType, format, title, description, defaultVal, exampleVal, enumValues, required,
      properties, items, minimum, maximum, minLength, maxLength, pattern, nullable, readOnly,
      writeOnly, ref⟩ := s
    rw [OpenAPISchema.mk.injEq]
    exact ⟨textAt_text json (hread 0 rfl), textAt_text json (hread 1 rfl),
      textAt_text json (hread 2 rfl), textAt_text json (hread 3 rfl),
      textAt_text json (hread 4 rfl), textAt_text json (hread 5 rfl),
      (listAt_iff _ (hread 6 rfl)).mpr (fun _ _ => rfl),
      (listAt_iff _ (hread 7 rfl)).mpr (fun _ _ => rfl), rfl, rfl,
      f64At_f64 json (hread 10 rfl), f64At_f64 json (hread 11 rfl),
      intAt_int json (hread 12 rfl), intAt_int json (hread 13 rfl),
      textAt_text json (hread 14 rfl), flagAt_flag json (hread 15 rfl),
      flagAt_flag json (hread 16 rfl), flagAt_flag json (hread 17 rfl),
      (textAt_none json (hread 18 rfl)).trans h.symm⟩

/-- **A SCHEMA** comes back exactly if no schema in it has a reference beside other fields. -/
theorem schema_iff (s : OpenAPISchema F) :
    OpenAPISchema.fromJson json s.toJson = s ↔ SchemaKept s := by
  rw [OpenAPISchema.fromJson]
  induction hsize : sizeOf s using Nat.strong_induction_on generalizing s with
  | _ n ih =>
      subst hsize
      by_cases href : s.ref = []
      · -- the schemas that this one holds are smaller
        rw [schema_plain_iff json href]
        constructor
        · rintro ⟨hproperties, hitems⟩
          exact .plain href
            (fun p hp => (ih _ (OpenAPISchema.sizeOf_property hp) p.2 rfl).mp (hproperties p hp))
            (fun t ht => (ih _ (OpenAPISchema.sizeOf_items ht) t rfl).mp (hitems t ht))
        · intro hkept
          cases hkept with
          | reference hne => exact absurd href hne
          | plain _ hproperties hitems =>
              exact ⟨fun p hp =>
                  (ih _ (OpenAPISchema.sizeOf_property hp) p.2 rfl).mpr (hproperties p hp),
                fun t ht => (ih _ (OpenAPISchema.sizeOf_items ht) t rfl).mpr (hitems t ht)⟩
      · rw [OpenAPISchema.toJson, if_pos href, schema_reference]
        constructor
        · intro heq
          rw [← heq]
          exact .reference href
        · intro hkept
          cases hkept with
          | reference _ => rfl
          | plain hnone => exact absurd hnone href

/-! ## Records that hold schemas -/

theorem empty_kept : OpenAPISchema.fromJson json (OpenAPISchema.empty : OpenAPISchema F).toJson
    = OpenAPISchema.empty :=
  (schema_iff json .empty).mpr schemaKept_empty

/-- The schema of a header has nothing set, or a type or a reference. -/
def HeaderKept (h : OpenAPIHeader F) : Prop :=
  (h.schema = .empty ∨ h.schema.schemaType ≠ [] ∨ h.schema.ref ≠ []) ∧ SchemaKept h.schema

theorem header_iff (h : OpenAPIHeader F) :
    OpenAPIHeader.fromJson json h.toJson = h ↔ HeaderKept h := by
  have hread : Reads _ h.toJson.asMap := reads_object (by
    simp only [List.map_cons, List.map_nil]
    decide)
  have hschema := recordAt_iff (hread 2 rfl) (empty_kept json)
  rw [schema_iff] at hschema
  rw [HeaderKept, ← hschema]
  obtain ⟨description, required, schema⟩ := h
  rw [OpenAPIHeader.fromJson, OpenAPIHeader.mk.injEq]
  exact ⟨fun heq => heq.2.2, fun heq => ⟨textAt_text json (hread 0 rfl),
    flagAt_flag json (hread 1 rfl), heq⟩⟩

/-- The schema of a media type may have properties instead. -/
def MediaTypeKept (m : OpenAPIMediaType F) : Prop :=
  (m.schema = .empty ∨ m.schema.schemaType ≠ [] ∨ m.schema.ref ≠ [] ∨ m.schema.properties ≠ []) ∧
    SchemaKept m.schema

theorem mediaType_iff (m : OpenAPIMediaType F) :
    OpenAPIMediaType.fromJson json m.toJson = m ↔ MediaTypeKept m := by
  have hread : Reads _ m.toJson.asMap := reads_object (by
    simp only [List.map_cons, List.map_nil]
    decide)
  have hschema := recordAt_iff (hread 0 rfl) (empty_kept json)
  rw [schema_iff] at hschema
  rw [MediaTypeKept, ← hschema]
  obtain ⟨schema, exampleVal⟩ := m
  rw [OpenAPIMediaType.fromJson, OpenAPIMediaType.mk.injEq]
  exact ⟨fun heq => heq.1, fun heq => ⟨heq, textAt_text json (hread 1 rfl)⟩⟩

def ParameterKept (p : OpenAPIParameter F) : Prop :=
  (p.schema = .empty ∨ p.schema.schemaType ≠ [] ∨ p.schema.ref ≠ []) ∧ SchemaKept p.schema

theorem parameter_iff (p : OpenAPIParameter F) :
    OpenAPIParameter.fromJson json p.toJson = p ↔ ParameterKept p := by
  have hread : Reads _ p.toJson.asMap := reads_object (by
    simp only [List.map_cons, List.map_nil]
    decide)
  have hschema := recordAt_iff (hread 5 rfl) (empty_kept json)
  rw [schema_iff] at hschema
  rw [ParameterKept, ← hschema]
  obtain ⟨name, inLocation, description, required, deprecated, schema, exampleVal⟩ := p
  rw [OpenAPIParameter.fromJson, OpenAPIParameter.mk.injEq]
  exact ⟨fun heq => heq.2.2.2.2.2.1, fun heq => ⟨textAt_string json (hread 0 rfl),
    textAt_string json (hread 1 rfl), textAt_text json (hread 2 rfl),
    flagAt_flag json (hread 3 rfl), flagAt_flag json (hread 4 rfl), heq,
    textAt_text json (hread 6 rfl)⟩⟩

def ResponseKept (r : OpenAPIResponse F) : Prop :=
  (∀ e ∈ r.headers.entries, HeaderKept e.2) ∧ ∀ e ∈ r.content.entries, MediaTypeKept e.2

theorem response_iff (r : OpenAPIResponse F) :
    OpenAPIResponse.fromJson json r.toJson = r ↔ ResponseKept r := by
  have hread : Reads _ r.toJson.asMap := reads_object (by
    simp only [List.map_cons, List.map_nil]
    decide)
  have hheaders := mapAt_iff (OpenAPIHeader.fromJson json) (hread 1 rfl)
  have hcontent := mapAt_iff (OpenAPIMediaType.fromJson json) (hread 2 rfl)
  simp only [header_iff] at hheaders
  simp only [mediaType_iff] at hcontent
  rw [ResponseKept, ← hheaders, ← hcontent]
  obtain ⟨description, headers, content⟩ := r
  rw [OpenAPIResponse.fromJson, OpenAPIResponse.mk.injEq]
  exact and_iff_right (textAt_string json (hread 0 rfl))

def RequestBodyKept (rb : OpenAPIRequestBody F) : Prop :=
  ∀ e ∈ rb.content.entries, MediaTypeKept e.2

theorem requestBody_iff (rb : OpenAPIRequestBody F) :
    OpenAPIRequestBody.fromJson json rb.toJson = rb ↔ RequestBodyKept rb := by
  have hread : Reads _ rb.toJson.asMap := reads_object (by
    simp only [List.map_cons, List.map_nil]
    decide)
  have hcontent := mapAt_iff (OpenAPIMediaType.fromJson json) (hread 1 rfl)
  simp only [mediaType_iff] at hcontent
  rw [RequestBodyKept, ← hcontent]
  obtain ⟨description, content, required⟩ := rb
  rw [OpenAPIRequestBody.fromJson, OpenAPIRequestBody.mk.injEq]
  exact ⟨fun heq => heq.2.1, fun heq => ⟨textAt_text json (hread 0 rfl), heq,
    flagAt_flag json (hread 2 rfl)⟩⟩

/-! ## Operations and paths -/

/-- The request body has content or is not set at all. -/
structure OperationKept (op : OpenAPIOperation F) : Prop where
  parameters : ∀ p ∈ op.parameters, ParameterKept p
  bodySet    : op.requestBody = {} ∨ op.requestBody.content.entries ≠ []
  body       : RequestBodyKept op.requestBody
  responses  : ∀ e ∈ op.responses.entries, ResponseKept e.2

theorem noBody_kept : OpenAPIRequestBody.fromJson json ({} : OpenAPIRequestBody F).toJson = {} :=
  (requestBody_iff json {}).mpr (fun _ he => by cases he)

theorem operation_iff (op : OpenAPIOperation F) :
    OpenAPIOperation.fromJson json op.toJson = op ↔ OperationKept op := by
  have hread : Reads _ op.toJson.asMap := reads_object (by
    simp only [List.map_cons, List.map_nil]
    decide)
  have hparameters := listAt_iff (OpenAPIParameter.fromJson json) (hread 4 rfl)
  have hbody := recordAt_iff (hread 5 rfl) (noBody_kept json)
  have hresponses := mapAt_iff (OpenAPIResponse.fromJson json) (hread 6 rfl)
  simp only [parameter_iff] at hparameters
  simp only [response_iff] at hresponses
  rw [requestBody_iff] at hbody
  constructor
  · intro heq
    have hsetBody := hbody.mp (congrArg OpenAPIOperation.requestBody heq)
    exact ⟨hparameters.mp (congrArg OpenAPIOperation.parameters heq), hsetBody.1, hsetBody.2,
      hresponses.mp (congrArg OpenAPIOperation.responses heq)⟩
  · intro hkept
    have hparameters' := hparameters.mpr hkept.parameters
    have hbody' := hbody.mpr ⟨hkept.bodySet, hkept.body⟩
    have hresponses' := hresponses.mpr hkept.responses
    obtain ⟨summary, description, operationId, tags, parameters, requestBody, responses,
      deprecated, security⟩ := op
    rw [OpenAPIOperation.fromJson, OpenAPIOperation.mk.injEq]
    exact ⟨textAt_text json (hread 0 rfl), textAt_text json (hread 1 rfl),
      textAt_text json (hread 2 rfl), (listAt_iff _ (hread 3 rfl)).mpr (fun _ _ => rfl),
      hparameters', hbody', hresponses', flagAt_flag json (hread 7 rfl),
      (listAt_iff _ (hread 8 rfl)).mpr (fun sec _ => security_kept json sec)⟩

def operationsOf (pi : OpenAPIPathItem F) : List (OpenAPIOperation F) :=
  [pi.get, pi.post, pi.put, pi.delete, pi.patch, pi.head, pi.options]

/-- Each operation has responses or is not set at all. -/
structure PathItemKept (pi : OpenAPIPathItem F) : Prop where
  parameters : ∀ p ∈ pi.parameters, ParameterKept p
  operations : ∀ op ∈ operationsOf pi, (op = {} ∨ op.responses.entries ≠ []) ∧ OperationKept op

theorem noOperation_kept : OpenAPIOperation.fromJson json ({} : OpenAPIOperation F).toJson = {} :=
  (operation_iff json {}).mpr ⟨(fun _ hp => by cases hp), .inl rfl, (fun _ he => by cases he),
    (fun _ he => by cases he)⟩

theorem written_iff {op : OpenAPIOperation F} {obj : List (ByteString × JsonAny F)}
    {key : ByteString} (h : obj.lookup key = op.written) :
    recordAt (OpenAPIOperation.fromJson json) {} obj key = op ↔
      (op = {} ∨ op.responses.entries ≠ []) ∧ OperationKept op := by
  rw [recordAt_iff h (noOperation_kept json), operation_iff]

theorem pathItem_iff (pi : OpenAPIPathItem F) :
    OpenAPIPathItem.fromJson json pi.toJson = pi ↔ PathItemKept pi := by
  have hread : Reads _ pi.toJson.asMap := reads_object (by
    simp only [List.map_cons, List.map_nil]
    decide)
  have hparameters := listAt_iff (OpenAPIParameter.fromJson json) (hread 2 rfl)
  simp only [parameter_iff] at hparameters
  have hget := written_iff json (hread 3 rfl)
  have hpost := written_iff json (hread 4 rfl)
  have hput := written_iff json (hread 5 rfl)
  have hdelete := written_iff json (hread 6 rfl)
  have hpatch := written_iff json (hread 7 rfl)
  have hhead := written_iff json (hread 8 rfl)
  have hoptions := written_iff json (hread 9 rfl)
  constructor
  · intro heq
    refine ⟨hparameters.mp (congrArg OpenAPIPathItem.parameters heq), fun op hop => ?_⟩
    simp only [operationsOf, List.mem_cons, List.not_mem_nil, or_false] at hop
    rcases hop with rfl | rfl | rfl | rfl | rfl | rfl | rfl
    · exact hget.mp (congrArg OpenAPIPathItem.get heq)
    · exact hpost.mp (congrArg OpenAPIPathItem.post heq)
    · exact hput.mp (congrArg OpenAPIPathItem.put heq)
    · exact hdelete.mp (congrArg OpenAPIPathItem.delete heq)
    · exact hpatch.mp (congrArg OpenAPIPathItem.patch heq)
    · exact hhead.mp (congrArg OpenAPIPathItem.head heq)
    · exact hoptions.mp (congrArg OpenAPIPathItem.options heq)
  · rintro ⟨hparameters', hoperations⟩
    simp only [operationsOf, List.forall_mem_cons, List.not_mem_nil, false_implies, implies_true,
      and_true] at hoperations
    rw [← hget, ← hpost, ← hput, ← hdelete, ← hpatch, ← hhead, ← hoptions] at hoperations
    rw [← hparameters] at hparameters'
    obtain ⟨hget', hpost', hput', hdelete', hpatch', hhead', hoptions'⟩ := hoperations
    obtain ⟨get, post, put, delete, patch, head, options, summary, description, parameters⟩ := pi
    rw [OpenAPIPathItem.fromJson, OpenAPIPathItem.mk.injEq]
    exact ⟨hget', hpost', hput', hdelete', hpatch', hhead', hoptions',
      textAt_text json (hread 0 rfl), textAt_text json (hread 1 rfl), hparameters'⟩

/-! ## Documents -/

structure ComponentsKept (c : OpenAPIComponents F) : Prop where
  schemas       : ∀ e ∈ c.schemas.entries, SchemaKept e.2
  responses     : ∀ e ∈ c.responses.entries, ResponseKept e.2
  parameters    : ∀ e ∈ c.parameters.entries, ParameterKept e.2
  requestBodies : ∀ e ∈ c.requestBodies.entries, RequestBodyKept e.2
  headers       : ∀ e ∈ c.headers.entries, HeaderKept e.2

theorem components_iff (c : OpenAPIComponents F) :
    OpenAPIComponents.fromJson json c.toJson = c ↔ ComponentsKept c := by
  have hread : Reads _ c.toJson.asMap := reads_object (by
    simp only [List.map_cons, List.map_nil]
    decide)
  have hschemas := mapAt_iff (OpenAPISchema.fromJson json) (hread 0 rfl)
  have hresponses := mapAt_iff (OpenAPIResponse.fromJson json) (hread 1 rfl)
  have hparameters := mapAt_iff (OpenAPIParameter.fromJson json) (hread 2 rfl)
  have hbodies := mapAt_iff (OpenAPIRequestBody.fromJson json) (hread 3 rfl)
  have hheaders := mapAt_iff (OpenAPIHeader.fromJson json) (hread 4 rfl)
  have hschemes := mapAt_iff (OpenAPISecurityScheme.fromJson json) (hread 5 rfl)
  simp only [schema_iff] at hschemas
  simp only [response_iff] at hresponses
  simp only [parameter_iff] at hparameters
  simp only [requestBody_iff] at hbodies
  simp only [header_iff] at hheaders
  constructor
  · intro heq
    exact ⟨hschemas.mp (congrArg OpenAPIComponents.schemas heq),
      hresponses.mp (congrArg OpenAPIComponents.responses heq),
      hparameters.mp (congrArg OpenAPIComponents.parameters heq),
      hbodies.mp (congrArg OpenAPIComponents.requestBodies heq),
      hheaders.mp (congrArg OpenAPIComponents.headers heq)⟩
  · intro hkept
    have hschemas' := hschemas.mpr hkept.schemas
    have hresponses' := hresponses.mpr hkept.responses
    have hparameters' := hparameters.mpr hkept.parameters
    have hbodies' := hbodies.mpr hkept.requestBodies
    have hheaders' := hheaders.mpr hkept.headers
    have hschemes' := hschemes.mpr (fun e _ => securityScheme_kept json e.2)
    obtain ⟨schemas, responses, parameters, requestBodies, headers, securitySchemes⟩ := c
    rw [OpenAPIComponents.fromJson, OpenAPIComponents.mk.injEq]
    exact ⟨hschemas', hresponses', hparameters', hbodies', hheaders', hschemes'⟩

omit [DecidableEq F] in
theorem eq_empty_of_isEmpty {c : OpenAPIComponents F} (h : c.IsEmpty) : c = {} := by
  obtain ⟨schemas, responses, parameters, requestBodies, headers, securitySchemes⟩ := c
  obtain ⟨hschemas, hresponses, hparameters, hbodies, hheaders, hschemes⟩ := h
  rw [OpenAPIComponents.mk.injEq]
  exact ⟨InsertionMap.eq_of_entries hschemas, InsertionMap.eq_of_entries hresponses,
    InsertionMap.eq_of_entries hparameters, InsertionMap.eq_of_entries hbodies,
    InsertionMap.eq_of_entries hheaders, InsertionMap.eq_of_entries hschemes⟩

/-- Nothing of a document is left out. -/
structure DocumentKept (doc : OpenAPIDocument F) : Prop where
  license      : doc.info.license = {} ∨ doc.info.license.name ≠ []
  paths        : ∀ e ∈ doc.paths.entries, PathItemKept e.2
  components   : ComponentsKept doc.components
  tags         : ∀ t ∈ doc.tags, t.externalDocs = {} ∨ t.externalDocs.url ≠ []
  externalDocs : doc.externalDocs = {} ∨ doc.externalDocs.url ≠ []

/-- **A DOCUMENT** comes back exactly if nothing of it is left out. -/
theorem document_iff (doc : OpenAPIDocument F) :
    OpenAPIDocument.fromJson json doc.toJson = doc ↔ DocumentKept doc := by
  have hread : Reads _ doc.toJson.asMap := reads_object (by
    simp only [List.map_cons, List.map_nil]
    decide)
  have hinfo : recordAt (OpenAPIInfo.fromJson json) {} doc.toJson.asMap (ascii "info") = doc.info ↔
      doc.info.license = {} ∨ doc.info.license.name ≠ [] := by
    rw [recordAt, hread 1 rfl]
    exact info_iff json doc.info
  have hpaths := mapAt_always_iff (OpenAPIPathItem.fromJson json) (hread 3 rfl)
  have hnoComponents : OpenAPIComponents.fromJson json ({} : OpenAPIComponents F).toJson = {} :=
    (components_iff json {}).mpr (by
      refine ⟨?_, ?_, ?_, ?_, ?_⟩ <;> rintro _ ⟨⟩)
  have hcomponents := recordAt_iff (hread 4 rfl) hnoComponents
  -- components without entries are not written, and are the default ones
  have hset : doc.components = {} ∨ ¬doc.components.IsEmpty :=
    (Classical.em doc.components.IsEmpty).imp_left eq_empty_of_isEmpty
  have htags := listAt_iff (OpenAPITag.fromJson json) (hread 6 rfl)
  have hdocs := recordAt_iff (hread 7 rfl) (externalDocs_kept json {})
  simp only [pathItem_iff] at hpaths
  simp only [tag_iff] at htags
  rw [components_iff, and_iff_right hset] at hcomponents
  rw [and_iff_left (externalDocs_kept json doc.externalDocs)] at hdocs
  constructor
  · intro heq
    exact ⟨hinfo.mp (congrArg OpenAPIDocument.info heq),
      hpaths.mp (congrArg OpenAPIDocument.paths heq),
      hcomponents.mp (congrArg OpenAPIDocument.components heq),
      htags.mp (congrArg OpenAPIDocument.tags heq),
      hdocs.mp (congrArg OpenAPIDocument.externalDocs heq)⟩
  · intro hkept
    have hinfo' := hinfo.mpr hkept.license
    have hpaths' := hpaths.mpr hkept.paths
    have hcomponents' := hcomponents.mpr hkept.components
    have htags' := htags.mpr hkept.tags
    have hdocs' := hdocs.mpr hkept.externalDocs
    obtain ⟨openapi, info, servers, paths, components, security, tags, externalDocs⟩ := doc
    rw [OpenAPIDocument.fromJson, OpenAPIDocument.mk.injEq]
    exact ⟨textAt_string json (hread 0 rfl), hinfo',
      (listAt_iff _ (hread 2 rfl)).mpr (fun s _ => server_kept json s), hpaths', hcomponents',
      (listAt_iff _ (hread 5 rfl)).mpr (fun sec _ => security_kept json sec), htags', hdocs'⟩

/-! ## The two ways to be left out -/

/-- The operations of all paths. -/
def allOperations (doc : OpenAPIDocument F) : List (OpenAPIOperation F) :=
  doc.paths.entries.flatMap (fun e => operationsOf e.2)

def allResponses (doc : OpenAPIDocument F) : List (OpenAPIResponse F) :=
  doc.components.responses.entries.map Prod.snd ++
    (allOperations doc).flatMap (fun op => op.responses.entries.map Prod.snd)

def allRequestBodies (doc : OpenAPIDocument F) : List (OpenAPIRequestBody F) :=
  doc.components.requestBodies.entries.map Prod.snd ++ (allOperations doc).map (·.requestBody)

/-- The headers that stand anywhere in a document. -/
def allHeaders (doc : OpenAPIDocument F) : List (OpenAPIHeader F) :=
  doc.components.headers.entries.map Prod.snd ++
    (allResponses doc).flatMap (fun r => r.headers.entries.map Prod.snd)

def allParameters (doc : OpenAPIDocument F) : List (OpenAPIParameter F) :=
  doc.components.parameters.entries.map Prod.snd ++
    doc.paths.entries.flatMap (fun e => e.2.parameters) ++ (allOperations doc).flatMap (·.parameters)

def allMediaTypes (doc : OpenAPIDocument F) : List (OpenAPIMediaType F) :=
  (allRequestBodies doc).flatMap (fun rb => rb.content.entries.map Prod.snd) ++
    (allResponses doc).flatMap (fun r => r.content.entries.map Prod.snd)

/-- The schemas of a document that no other schema holds. -/
def allSchemas (doc : OpenAPIDocument F) : List (OpenAPISchema F) :=
  doc.components.schemas.entries.map Prod.snd ++ (allHeaders doc).map (·.schema) ++
    (allParameters doc).map (·.schema) ++ (allMediaTypes doc).map (·.schema)

/-- A schema that a header, a parameter or a media type holds has nothing set, or one of the fields
    that the holder looks at. -/
structure SchemasShown (doc : OpenAPIDocument F) : Prop where
  headers    : ∀ h ∈ allHeaders doc,
    h.schema = .empty ∨ h.schema.schemaType ≠ [] ∨ h.schema.ref ≠ []
  parameters : ∀ p ∈ allParameters doc,
    p.schema = .empty ∨ p.schema.schemaType ≠ [] ∨ p.schema.ref ≠ []
  mediaTypes : ∀ m ∈ allMediaTypes doc, m.schema = .empty ∨ m.schema.schemaType ≠ [] ∨
    m.schema.ref ≠ [] ∨ m.schema.properties ≠ []

/-- Nothing is set beside a reference, and nothing in a record whose required field is not set. -/
structure RequiredSet (doc : OpenAPIDocument F) : Prop where
  license      : doc.info.license = {} ∨ doc.info.license.name ≠ []
  tags         : ∀ t ∈ doc.tags, t.externalDocs = {} ∨ t.externalDocs.url ≠ []
  externalDocs : doc.externalDocs = {} ∨ doc.externalDocs.url ≠ []
  operations   : ∀ op ∈ allOperations doc, op = {} ∨ op.responses.entries ≠ []
  bodies       : ∀ op ∈ allOperations doc,
    op.requestBody = {} ∨ op.requestBody.content.entries ≠ []
  schemas      : ∀ s ∈ allSchemas doc, SchemaKept s

theorem forall_mem_values {α : Type} {P : α → Prop} {entries : List (ByteString × α)} :
    (∀ a ∈ entries.map Prod.snd, P a) ↔ ∀ e ∈ entries, P e.2 :=
  List.forall_mem_map

section
omit [DecidableEq F]

theorem DocumentKept.operation {doc : OpenAPIDocument F} (h : DocumentKept doc)
    {op : OpenAPIOperation F} (hop : op ∈ allOperations doc) :
    (op = {} ∨ op.responses.entries ≠ []) ∧ OperationKept op := by
  obtain ⟨e, he, hop⟩ := List.mem_flatMap.mp hop
  exact (h.paths e he).operations op hop

theorem DocumentKept.response {doc : OpenAPIDocument F} (h : DocumentKept doc)
    {r : OpenAPIResponse F} (hr : r ∈ allResponses doc) : ResponseKept r := by
  rcases List.mem_append.mp hr with hr | hr
  · exact forall_mem_values.mpr h.components.responses r hr
  · obtain ⟨op, hop, hr⟩ := List.mem_flatMap.mp hr
    exact forall_mem_values.mpr (h.operation hop).2.responses r hr

theorem DocumentKept.requestBody {doc : OpenAPIDocument F} (h : DocumentKept doc)
    {rb : OpenAPIRequestBody F} (hrb : rb ∈ allRequestBodies doc) : RequestBodyKept rb := by
  rcases List.mem_append.mp hrb with hrb | hrb
  · exact forall_mem_values.mpr h.components.requestBodies rb hrb
  · obtain ⟨op, hop, rfl⟩ := List.mem_map.mp hrb
    exact (h.operation hop).2.body

theorem DocumentKept.header {doc : OpenAPIDocument F} (h : DocumentKept doc)
    {header : OpenAPIHeader F} (hheader : header ∈ allHeaders doc) : HeaderKept header := by
  rcases List.mem_append.mp hheader with hheader | hheader
  · exact forall_mem_values.mpr h.components.headers header hheader
  · obtain ⟨r, hr, hheader⟩ := List.mem_flatMap.mp hheader
    exact forall_mem_values.mpr (h.response hr).1 header hheader

theorem DocumentKept.parameter {doc : OpenAPIDocument F} (h : DocumentKept doc)
    {p : OpenAPIParameter F} (hp : p ∈ allParameters doc) : ParameterKept p := by
  rcases List.mem_append.mp hp with hp | hp
  · rcases List.mem_append.mp hp with hp | hp
    · exact forall_mem_values.mpr h.components.parameters p hp
    · obtain ⟨e, he, hp⟩ := List.mem_flatMap.mp hp
      exact (h.paths e he).parameters p hp
  · obtain ⟨op, hop, hp⟩ := List.mem_flatMap.mp hp
    exact (h.operation hop).2.parameters p hp

theorem DocumentKept.mediaType {doc : OpenAPIDocument F} (h : DocumentKept doc)
    {m : OpenAPIMediaType F} (hm : m ∈ allMediaTypes doc) : MediaTypeKept m := by
  rcases List.mem_append.mp hm with hm | hm
  · obtain ⟨rb, hrb, hm⟩ := List.mem_flatMap.mp hm
    exact forall_mem_values.mpr (h.requestBody hrb) m hm
  · obtain ⟨r, hr, hm⟩ := List.mem_flatMap.mp hm
    exact forall_mem_values.mpr (h.response hr).2 m hm

theorem DocumentKept.schema {doc : OpenAPIDocument F} (h : DocumentKept doc)
    {s : OpenAPISchema F} (hs : s ∈ allSchemas doc) : SchemaKept s := by
  rcases List.mem_append.mp hs with hs | hs
  · rcases List.mem_append.mp hs with hs | hs
    · rcases List.mem_append.mp hs with hs | hs
      · exact forall_mem_values.mpr h.components.schemas s hs
      · obtain ⟨header, hheader, rfl⟩ := List.mem_map.mp hs
        exact (h.header hheader).2
    · obtain ⟨p, hp, rfl⟩ := List.mem_map.mp hs
      exact (h.parameter hp).2
  · obtain ⟨m, hm, rfl⟩ := List.mem_map.mp hs
    exact (h.mediaType hm).2

/-- Where schemas show and required fields are set, nothing is left out. -/
theorem documentKept_of {doc : OpenAPIDocument F} (hshown : SchemasShown doc)
    (hset : RequiredSet doc) : DocumentKept doc := by
  have hheader : ∀ header ∈ allHeaders doc, HeaderKept header := by
    refine fun header hheader => ⟨hshown.headers header hheader, hset.schemas _ ?_⟩
    exact List.mem_append_left _ (List.mem_append_left _ (List.mem_append_right _
      (List.mem_map_of_mem hheader)))
  have hparameter : ∀ p ∈ allParameters doc, ParameterKept p := by
    refine fun p hp => ⟨hshown.parameters p hp, hset.schemas _ ?_⟩
    exact List.mem_append_left _ (List.mem_append_right _ (List.mem_map_of_mem hp))
  have hmediaType : ∀ m ∈ allMediaTypes doc, MediaTypeKept m := by
    refine fun m hm => ⟨hshown.mediaTypes m hm, hset.schemas _ ?_⟩
    exact List.mem_append_right _ (List.mem_map_of_mem hm)
  have hresponse : ∀ r ∈ allResponses doc, ResponseKept r := fun r hr =>
    ⟨forall_mem_values.mp (fun header hmem => hheader header
      (List.mem_append_right _ (List.mem_flatMap.mpr ⟨r, hr, hmem⟩))),
    forall_mem_values.mp (fun m hmem => hmediaType m
      (List.mem_append_right _ (List.mem_flatMap.mpr ⟨r, hr, hmem⟩)))⟩
  have hbody : ∀ rb ∈ allRequestBodies doc, RequestBodyKept rb := fun rb hrb =>
    forall_mem_values.mp (fun m hmem => hmediaType m
      (List.mem_append_left _ (List.mem_flatMap.mpr ⟨rb, hrb, hmem⟩)))
  refine ⟨hset.license, fun e he => ⟨fun p hp => ?_, fun op hop => ?_⟩, ?_, hset.tags,
    hset.externalDocs⟩
  · exact hparameter p (List.mem_append_left _ (List.mem_append_right _
      (List.mem_flatMap.mpr ⟨e, he, hp⟩)))
  · have hmem : op ∈ allOperations doc := List.mem_flatMap.mpr ⟨e, he, hop⟩
    refine ⟨hset.operations op hmem, fun p hp => ?_, hset.bodies op hmem, ?_, ?_⟩
    · exact hparameter p (List.mem_append_right _ (List.mem_flatMap.mpr ⟨op, hmem, hp⟩))
    · exact hbody _ (List.mem_append_right _ (List.mem_map_of_mem hmem))
    · exact forall_mem_values.mp (fun r hr => hresponse r
        (List.mem_append_right _ (List.mem_flatMap.mpr ⟨op, hmem, hr⟩)))
  · -- the components stand first in the list of each kind
    exact ⟨forall_mem_values.mp (fun s hs => hset.schemas s (List.mem_append_left _
        (List.mem_append_left _ (List.mem_append_left _ hs)))),
      forall_mem_values.mp (fun r hr => hresponse r (List.mem_append_left _ hr)),
      forall_mem_values.mp (fun p hp => hparameter p
        (List.mem_append_left _ (List.mem_append_left _ hp))),
      forall_mem_values.mp (fun rb hrb => hbody rb (List.mem_append_left _ hrb)),
      forall_mem_values.mp (fun header hmem => hheader header (List.mem_append_left _ hmem))⟩

/-- Nothing is left out exactly if schemas show and required fields are set. -/
theorem documentKept_iff (doc : OpenAPIDocument F) :
    DocumentKept doc ↔ SchemasShown doc ∧ RequiredSet doc := by
  constructor
  · intro h
    exact ⟨⟨fun header hheader => (h.header hheader).1, fun p hp => (h.parameter hp).1,
      fun m hm => (h.mediaType hm).1⟩, h.license, h.tags, h.externalDocs,
      fun op hop => (h.operation hop).1, fun op hop => (h.operation hop).2.bodySet,
      fun s hs => h.schema hs⟩
  · exact fun h => documentKept_of h.1 h.2

end

/-- **ROUND TRIP**: where `json2` reads back what it wrote, parsing what a document was written as
    succeeds, and gives that document exactly if nothing is set beside a reference, nor in a record
    whose required field is not set. -/
theorem roundTrip_iff {doc : OpenAPIDocument F} (hshown : SchemasShown doc)
    (hjson : json.decode (json.encode doc.toJson) = .ok doc.toJson) :
    ∃ doc', OpenAPIDocument.fromJsonStr json (doc.toJsonStr json) = .ok doc' ∧
      (doc' = doc ↔ RequiredSet doc) := by
  refine ⟨OpenAPIDocument.fromJson json doc.toJson, ?_, ?_⟩
  · have hstr : doc.toJsonStr json = json.encode doc.toJson := rfl
    rw [OpenAPIDocument.fromJsonStr, hstr, hjson]
  · rw [document_iff, documentKept_iff, and_iff_right hshown]

end

/-! ## Two documents -/

/-- A conversion that knows one value and its text. -/
def textOf (v : JsonAny Int) (jsonText : ByteString) : JsonConversions Int where
  encode _ := jsonText
  decode s := if s = jsonText then .ok v else .error (ascii "invalid JSON")
  otherBool _ := false
  otherInt _ := 0
  otherF64 _ := 0

theorem decode_textOf (v w : JsonAny Int) (jsonText : ByteString) :
    (textOf v jsonText).decode ((textOf v jsonText).encode w) = .ok v :=
  if_pos rfl

/-- A document about a service whose license is an address only. -/
def namelessLicense : OpenAPIDocument Int where
  openapi := ascii "3.0.3"
  info := { title := ascii "t", version := ascii "1", license := { url := ascii "u" } }

def namelessText : ByteString :=
  ascii "\x7b\"openapi\":\"3.0.3\",\"info\":\x7b\"title\":\"t\",\"version\":\"1\"\x7d,"
    ++ ascii "\"paths\":\x7b\x7d\x7d"

/-- The address does not come back. -/
theorem license_lost : ¬∀ (json : JsonConversions Int) (doc : OpenAPIDocument Int),
    doc.validate = .ok () → json.decode (json.encode doc.toJson) = .ok doc.toJson →
      OpenAPIDocument.fromJsonStr json (doc.toJsonStr json) = .ok doc := by
  intro h
  have hback := h (textOf namelessLicense.toJson namelessText) namelessLicense rfl
    (decode_textOf _ _ _)
  have hsame : OpenAPIDocument.fromJson _ namelessLicense.toJson = namelessLicense :=
    Except.ok.inj hback
  rcases ((document_iff _ _).mp hsame).license with hnone | hname
  · exact absurd hnone (by decide)
  · exact absurd rfl hname

/-- A document about one path with a parameter. -/
def userDocument : OpenAPIDocument Int where
  openapi := ascii "3.0.3"
  info := { title := ascii "t", version := ascii "1" }
  paths := InsertionMap.empty.insert (ascii "/users/\x7bid\x7d") {
    get := {
      parameters := [{
        name := ascii "id"
        inLocation := ascii "path"
        required := true
        schema := { OpenAPISchema.empty with schemaType := ascii "string" } }]
      responses := InsertionMap.empty.insert (ascii "200") { description := ascii "ok" } } }

def userText : ByteString :=
  ascii "\x7b\"openapi\":\"3.0.3\",\"info\":\x7b\"title\":\"t\",\"version\":\"1\"\x7d,"
    ++ ascii "\"paths\":\x7b\"/users/\x7bid\x7d\":\x7b\"get\":\x7b\"parameters\":[\x7b\"name\":"
    ++ ascii "\"id\",\"in\":\"path\",\"required\":true,\"schema\":\x7b\"type\":\"string\"\x7d\x7d],"
    ++ ascii "\"responses\":\x7b\"200\":\x7b\"description\":\"ok\"\x7d\x7d\x7d\x7d\x7d\x7d"

theorem schemasShown_userDocument : SchemasShown userDocument := by
  have hheaders : allHeaders userDocument = [] := rfl
  have hmediaTypes : allMediaTypes userDocument = [] := rfl
  constructor
  · rw [hheaders]
    exact fun _ hh => (by cases hh)
  · intro p hp
    obtain rfl := List.mem_singleton.mp hp
    exact .inr (.inl (by decide))
  · rw [hmediaTypes]
    exact fun _ hm => (by cases hm)

theorem userDocument_back : ∃ doc',
    OpenAPIDocument.fromJsonStr (textOf userDocument.toJson userText)
      (userDocument.toJsonStr (textOf userDocument.toJson userText)) = .ok doc' ∧
    (doc' = userDocument ↔ RequiredSet userDocument) :=
  roundTrip_iff _ schemasShown_userDocument (decode_textOf _ _ _)

end OpenApiRoundTrip

end VHono
