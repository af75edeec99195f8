import VHono.JsonRecords
import VHono.OpenApiDocument

/-! # OpenAPI documents as JSON

    What each record of a document writes, and what it reads.  A field is left
    out where it has its default, and some records are left out of the record
    that holds them. -/

namespace VHono

open ByteString JsonRecords

section Records

variable {F : Type}

def OpenAPIContact.toJson (c : OpenAPIContact) : JsonAny F :=
  object [
    (ascii "name", text c.name),
    (ascii "url", text c.url),
    (ascii "email", text c.email)]

def OpenAPILicense.toJson (l : OpenAPILicense) : JsonAny F :=
  object [
    (ascii "name", some (.string l.name)),
    (ascii "url", text l.url)]

def OpenAPIInfo.toJson (i : OpenAPIInfo) : JsonAny F :=
  object [
    (ascii "title", some (.string i.title)),
    (ascii "version", some (.string i.version)),
    (ascii "description", text i.description),
    (ascii "termsOfService", text i.termsOfService),
    (ascii "contact",
      when (i.contact.name ≠ [] ∨ i.contact.url ≠ [] ∨ i.contact.email ≠ []) i.contact.toJson),
    (ascii "license", when (i.license.name ≠ []) i.license.toJson)]

def OpenAPIServer.toJson (s : OpenAPIServer) : JsonAny F :=
  object [
    (ascii "url", some (.string s.url)),
    (ascii "description", text s.description)]

def OpenAPIExternalDocs.toJson (e : OpenAPIExternalDocs) : JsonAny F :=
  object [
    (ascii "url", some (.string e.url)),
    (ascii "description", text e.description)]

def OpenAPITag.toJson (t : OpenAPITag) : JsonAny F :=
  object [
    (ascii "name", some (.string t.name)),
    (ascii "description", text t.description),
    (ascii "externalDocs", when (t.externalDocs.url ≠ []) t.externalDocs.toJson)]

def OpenAPISecurityScheme.toJson (ss : OpenAPISecurityScheme) : JsonAny F :=
  object [
    (ascii "type", text ss.schemeType),
    (ascii "description", text ss.description),
    (ascii "name", text ss.name),
    (ascii "in", text ss.inLocation),
    (ascii "scheme", text ss.scheme),
    (ascii "bearerFormat", text ss.bearerFormat)]

/-- One entry of a `security` list. -/
def securityToJson (sec : OpenAPISecurity) : JsonAny F :=
  membersOf (itemsOf .string) sec.entries

section Reading

variable (json : JsonConversions F)

def OpenAPIContact.fromJson (j : JsonAny F) : OpenAPIContact :=
  let obj := j.asMap
  { name := textAt json obj (ascii "name")
    url := textAt json obj (ascii "url")
    email := textAt json obj (ascii "email") }

def OpenAPILicense.fromJson (j : JsonAny F) : OpenAPILicense :=
  let obj := j.asMap
  { name := textAt json obj (ascii "name")
    url := textAt json obj (ascii "url") }

def OpenAPIInfo.fromJson (j : JsonAny F) : OpenAPIInfo :=
  let obj := j.asMap
  { title := textAt json obj (ascii "title")
    version := textAt json obj (ascii "version")
    description := textAt json obj (ascii "description")
    termsOfService := textAt json obj (ascii "termsOfService")
    contact := recordAt (OpenAPIContact.fromJson json) {} obj (ascii "contact")
    license := recordAt (OpenAPILicense.fromJson json) {} obj (ascii "license") }

def OpenAPIServer.fromJson (j : JsonAny F) : OpenAPIServer :=
  let obj := j.asMap
  { url := textAt json obj (ascii "url")
    description := textAt json obj (ascii "description") }

def OpenAPIExternalDocs.fromJson (j : JsonAny F) : OpenAPIExternalDocs :=
  let obj := j.asMap
  { url := textAt json obj (ascii "url")
    description := textAt json obj (ascii "description") }

def OpenAPITag.fromJson (j : JsonAny F) : OpenAPITag :=
  let obj := j.asMap
  { name := textAt json obj (ascii "name")
    description := textAt json obj (ascii "description")
    externalDocs := recordAt (OpenAPIExternalDocs.fromJson json) {} obj (ascii "externalDocs") }

def OpenAPISecurityScheme.fromJson (j : JsonAny F) : OpenAPISecurityScheme :=
  let obj := j.asMap
  { schemeType := textAt json obj (ascii "type")
    description := textAt json obj (ascii "description")
    name := textAt json obj (ascii "name")
    inLocation := textAt json obj (ascii "in")
    scheme := textAt json obj (ascii "scheme")
    bearerFormat := textAt json obj (ascii "bearerFormat") }

def securityFromJson (j : JsonAny F) : OpenAPISecurity :=
  mapOf (fun v => v.arr.map (JsonAny.str json)) j.asMap

end Reading

end Records

/-! ## Schemas -/

section Schemas

variable {F : Type}

theorem OpenAPISchema.sizeOf_property {s : OpenAPISchema F} {p : ByteString × OpenAPISchema F}
    (h : p ∈ s.properties) : sizeOf p.2 < sizeOf s := by
  have hlt := sizeOf_lt_of_mem h
  cases s
  rw [OpenAPISchema.mk.sizeOf_spec]
  simp only at hlt
  omega

theorem OpenAPISchema.sizeOf_items {s t : OpenAPISchema F} (h : t ∈ s.items) :
    sizeOf t < sizeOf s := by
  cases s
  have hitems : _ = some t := h
  rw [OpenAPISchema.mk.sizeOf_spec]
  simp only at hitems
  subst hitems
  rw [Option.some.sizeOf_spec]
  omega

variable [Zero F]

/-- With a reference nothing else is written. -/
def OpenAPISchema.toJson [DecidableEq F] (s : OpenAPISchema F) : JsonAny F :=
  if s.ref ≠ [] then object [(ascii "$ref", some (.string s.ref))]
  else
    object [
      (ascii "type", text s.schemaType),
      (ascii "format", text s.format),
      (ascii "title", text s.title),
      (ascii "description", text s.description),
      (ascii "default", text s.defaultVal),
      (ascii "example", text s.exampleVal),
      (ascii "enum", when (s.enumValues ≠ []) (itemsOf .string s.enumValues)),
      (ascii "required", when (s.required ≠ []) (itemsOf .string s.required)),
      (ascii "properties", when (s.properties ≠ [])
        (.object (s.properties.attach.map (fun p => (p.1.1, p.1.2.toJson))))),
      (ascii "items", s.items.attach.map (fun t => t.1.toJson)),
      (ascii "minimum", when (s.minimum ≠ 0) (.f64 s.minimum)),
      (ascii "maximum", when (s.maximum ≠ 0) (.f64 s.maximum)),
      (ascii "minLength", when (s.minLength ≠ 0) (.int s.minLength)),
      (ascii "maxLength", when (s.maxLength ≠ 0) (.int s.maxLength)),
      (ascii "pattern", text s.pattern),
      (ascii "nullable", flag s.nullable),
      (ascii "readOnly", flag s.readOnly),
      (ascii "writeOnly", flag s.writeOnly)]
termination_by sizeOf s
decreasing_by
  · exact OpenAPISchema.sizeOf_property p.2
  · exact OpenAPISchema.sizeOf_items t.2

/-- `openapi_schema_from_json_impl`; the keys of the properties are distinct, being those of an
    object. -/
def openapiSchemaFromJsonImpl (json : JsonConversions F) (j : JsonAny F) : OpenAPISchema F :=
  { schemaType := textAt json j.asMap (ascii "type")
    format := textAt json j.asMap (ascii "format")
    title := textAt json j.asMap (ascii "title")
    description := textAt json j.asMap (ascii "description")
    defaultVal := textAt json j.asMap (ascii "default")
    exampleVal := textAt json j.asMap (ascii "example")
    enumValues := listAt (JsonAny.str json) j.asMap (ascii "enum")
    required := listAt (JsonAny.str json) j.asMap (ascii "required")
    properties := (membersAt j.asMap (ascii "properties")).attach.map
      (fun e => (e.1.1, openapiSchemaFromJsonImpl json e.1.2))
    items := (j.asMap.lookup (ascii "items")).attach.map
      (fun v => openapiSchemaFromJsonImpl json v.1)
    minimum := f64At json j.asMap (ascii "minimum")
    maximum := f64At json j.asMap (ascii "maximum")
    minLength := intAt json j.asMap (ascii "minLength")
    maxLength := intAt json j.asMap (ascii "maxLength")
    pattern := textAt json j.asMap (ascii "pattern")
    nullable := flagAt json j.asMap (ascii "nullable")
    readOnly := flagAt json j.asMap (ascii "readOnly")
    writeOnly := flagAt json j.asMap (ascii "writeOnly")
    ref := textAt json j.asMap (ascii "$ref") }
termination_by sizeOf j
decreasing_by
  · exact sizeOf_membersAt (by decide) e.2
  · exact sizeOf_lookup (by decide) v.2

end Schemas

/-! ## Records that hold schemas -/

section Writing

variable {F : Type} [Zero F] [DecidableEq F]

def OpenAPIHeader.toJson (h : OpenAPIHeader F) : JsonAny F :=
  object [
    (ascii "description", text h.description),
    (ascii "required", flag h.required),
    (ascii "schema", when (h.schema.schemaType ≠ [] ∨ h.schema.ref ≠ []) h.schema.toJson)]

def OpenAPIMediaType.toJson (m : OpenAPIMediaType F) : JsonAny F :=
  object [
    (ascii "schema",
      when (m.schema.schemaType ≠ [] ∨ m.schema.ref ≠ [] ∨ m.schema.properties ≠ [])
        m.schema.toJson),
    (ascii "example", text m.exampleVal)]

def OpenAPIResponse.toJson (r : OpenAPIResponse F) : JsonAny F :=
  object [
    (ascii "description", some (.string r.description)),
    (ascii "headers", when (r.headers.entries ≠ []) (membersOf (·.toJson) r.headers.entries)),
    (ascii "content", when (r.content.entries ≠ []) (membersOf (·.toJson) r.content.entries))]

def OpenAPIRequestBody.toJson (rb : OpenAPIRequestBody F) : JsonAny F :=
  object [
    (ascii "description", text rb.description),
    (ascii "content", when (rb.content.entries ≠ []) (membersOf (·.toJson) rb.content.entries)),
    (ascii "required", flag rb.required)]

def OpenAPIParameter.toJson (p : OpenAPIParameter F) : JsonAny F :=
  object [
    (ascii "name", some (.string p.name)),
    (ascii "in", some (.string p.inLocation)),
    (ascii "description", text p.description),
    (ascii "required", flag p.required),
    (ascii "deprecated", flag p.deprecated),
    (ascii "schema", when (p.schema.schemaType ≠ [] ∨ p.schema.ref ≠ []) p.schema.toJson),
    (ascii "example", text p.exampleVal)]

def OpenAPIOperation.toJson (op : OpenAPIOperation F) : JsonAny F :=
  object [
    (ascii "summary", text op.summary),
    (ascii "description", text op.description),
    (ascii "operationId", text op.operationId),
    (ascii "tags", when (op.tags ≠ []) (itemsOf .string op.tags)),
    (ascii "parameters", when (op.parameters ≠ []) (itemsOf (·.toJson) op.parameters)),
    (ascii "requestBody", when (op.requestBody.content.entries ≠ []) op.requestBody.toJson),
    (ascii "responses",
      when (op.responses.entries ≠ []) (membersOf (·.toJson) op.responses.entries)),
    (ascii "deprecated", flag op.deprecated),
    (ascii "security", when (op.security ≠ []) (itemsOf securityToJson op.security))]

/-- Written where it has responses (`is_operation_empty`). -/
def OpenAPIOperation.written (op : OpenAPIOperation F) : Option (JsonAny F) :=
  when (op.responses.entries ≠ []) op.toJson

def OpenAPIPathItem.toJson (pi : OpenAPIPathItem F) : JsonAny F :=
  object [
    (ascii "summary", text pi.summary),
    (ascii "description", text pi.description),
    (ascii "parameters", when (pi.parameters ≠ []) (itemsOf (·.toJson) pi.parameters)),
    (ascii "get", pi.get.written),
    (ascii "post", pi.post.written),
    (ascii "put", pi.put.written),
    (ascii "delete", pi.delete.written),
    (ascii "patch", pi.patch.written),
    (ascii "head", pi.head.written),
    (ascii "options", pi.options.written)]

/-- `is_components_empty` -/
def OpenAPIComponents.IsEmpty (c : OpenAPIComponents F) : Prop :=
  c.schemas.entries = [] ∧ c.responses.entries = [] ∧ c.parameters.entries = [] ∧
    c.requestBodies.entries = [] ∧ c.headers.entries = [] ∧ c.securitySchemes.entries = []

instance (c : OpenAPIComponents F) : Decidable c.IsEmpty :=
  decidable_of_iff
    (c.schemas.entries.isEmpty ∧ c.responses.entries.isEmpty ∧ c.parameters.entries.isEmpty ∧
      c.requestBodies.entries.isEmpty ∧ c.headers.entries.isEmpty ∧
      c.securitySchemes.entries.isEmpty)
    (by simp only [List.isEmpty_iff, OpenAPIComponents.IsEmpty])

def OpenAPIComponents.toJson (c : OpenAPIComponents F) : JsonAny F :=
  object [
    (ascii "schemas", when (c.schemas.entries ≠ []) (membersOf (·.toJson) c.schemas.entries)),
    (ascii "responses",
      when (c.responses.entries ≠ []) (membersOf (·.toJson) c.responses.entries)),
    (ascii "parameters",
      when (c.parameters.entries ≠ []) (membersOf (·.toJson) c.parameters.entries)),
    (ascii "requestBodies",
      when (c.requestBodies.entries ≠ []) (membersOf (·.toJson) c.requestBodies.entries)),
    (ascii "headers", when (c.headers.entries ≠ []) (membersOf (·.toJson) c.headers.entries)),
    (ascii "securitySchemes",
      when (c.securitySchemes.entries ≠ []) (membersOf (·.toJson) c.securitySchemes.entries))]

def OpenAPIDocument.toJson (doc : OpenAPIDocument F) : JsonAny F :=
  object [
    (ascii "openapi", some (.string doc.openapi)),
    (ascii "info", some doc.info.toJson),
    (ascii "servers", when (doc.servers ≠ []) (itemsOf (·.toJson) doc.servers)),
    (ascii "paths", some (membersOf (·.toJson) doc.paths.entries)),
    (ascii "components", when (¬doc.components.IsEmpty) doc.components.toJson),
    (ascii "security", when (doc.security ≠ []) (itemsOf securityToJson doc.security)),
    (ascii "tags", when (doc.tags ≠ []) (itemsOf (·.toJson) doc.tags)),
    (ascii "externalDocs", when (doc.externalDocs.url ≠ []) doc.externalDocs.toJson)]

def OpenAPIDocument.toJsonStr (json : JsonConversions F) (doc : OpenAPIDocument F) : ByteString :=
  doc.toJson.str json

end Writing

section Reading

variable {F : Type} [Zero F] (json : JsonConversions F)

def OpenAPISchema.fromJson (j : JsonAny F) : OpenAPISchema F :=
  openapiSchemaFromJsonImpl json j

def OpenAPIHeader.fromJson (j : JsonAny F) : OpenAPIHeader F :=
  let obj := j.asMap
  { description := textAt json obj (ascii "description")
    required := flagAt json obj (ascii "required")
    schema := recordAt (OpenAPISchema.fromJson json) .empty obj (ascii "schema") }

def OpenAPIMediaType.fromJson (j : JsonAny F) : OpenAPIMediaType F :=
  let obj := j.asMap
  { schema := recordAt (OpenAPISchema.fromJson json) .empty obj (ascii "schema")
    exampleVal := textAt json obj (ascii "example") }

def OpenAPIResponse.fromJson (j : JsonAny F) : OpenAPIResponse F :=
  let obj := j.asMap
  { description := textAt json obj (ascii "description")
    headers := mapAt (OpenAPIHeader.fromJson json) obj (ascii "headers")
    content := mapAt (OpenAPIMediaType.fromJson json) obj (ascii "content") }

def OpenAPIRequestBody.fromJson (j : JsonAny F) : OpenAPIRequestBody F :=
  let obj := j.asMap
  { description := textAt json obj (ascii "description")
    content := mapAt (OpenAPIMediaType.fromJson json) obj (ascii "content")
    required := flagAt json obj (ascii "required") }

def OpenAPIParameter.fromJson (j : JsonAny F) : OpenAPIParameter F :=
  let obj := j.asMap
  { name := textAt json obj (ascii "name")
    inLocation := textAt json obj (ascii "in")
    description := textAt json obj (ascii "description")
    required := flagAt json obj (ascii "required")
    deprecated := flagAt json obj (ascii "deprecated")
    schema := recordAt (OpenAPISchema.fromJson json) .empty obj (ascii "schema")
    exampleVal := textAt json obj (ascii "example") }

def OpenAPIOperation.fromJson (j : JsonAny F) : OpenAPIOperation F :=
  let obj := j.asMap
  { summary := textAt json obj (ascii "summary")
    description := textAt json obj (ascii "description")
    operationId := textAt json obj (ascii "operationId")
    tags := listAt (JsonAny.str json) obj (ascii "tags")
    parameters := listAt (OpenAPIParameter.fromJson json) obj (ascii "parameters")
    requestBody := recordAt (OpenAPIRequestBody.fromJson json) {} obj (ascii "requestBody")
    responses := mapAt (OpenAPIResponse.fromJson json) obj (ascii "responses")
    deprecated := flagAt json obj (ascii "deprecated")
    security := listAt (securityFromJson json) obj (ascii "security") }

def OpenAPIPathItem.fromJson (j : JsonAny F) : OpenAPIPathItem F :=
  let obj := j.asMap
  { get := recordAt (OpenAPIOperation.fromJson json) {} obj (ascii "get")
    post := recordAt (OpenAPIOperation.fromJson json) {} obj (ascii "post")
    put := recordAt (OpenAPIOperation.fromJson json) {} obj (ascii "put")
    delete := recordAt (OpenAPIOperation.fromJson json) {} obj (ascii "delete")
    patch := recordAt (OpenAPIOperation.fromJson json) {} obj (ascii "patch")
    head := recordAt (OpenAPIOperation.fromJson json) {} obj (ascii "head")
    options := recordAt (OpenAPIOperation.fromJson json) {} obj (ascii "options")
    summary := textAt json obj (ascii "summary")
    description := textAt json obj (ascii "description")
    parameters := listAt (OpenAPIParameter.fromJson json) obj (ascii "parameters") }

def OpenAPIComponents.fromJson (j : JsonAny F) : OpenAPIComponents F :=
  let obj := j.asMap
  { schemas := mapAt (OpenAPISchema.fromJson json) obj (ascii "schemas")
    responses := mapAt (OpenAPIResponse.fromJson json) obj (ascii "responses")
    parameters := mapAt (OpenAPIParameter.fromJson json) obj (ascii "parameters")
    requestBodies := mapAt (OpenAPIRequestBody.fromJson json) obj (ascii "requestBodies")
    headers := mapAt (OpenAPIHeader.fromJson json) obj (ascii "headers")
    securitySchemes :=
      mapAt (OpenAPISecurityScheme.fromJson json) obj (ascii "securitySchemes") }

def OpenAPIDocument.fromJson (j : JsonAny F) : OpenAPIDocument F :=
  let obj := j.asMap
  { openapi := textAt json obj (ascii "openapi")
    info := recordAt (OpenAPIInfo.fromJson json) {} obj (ascii "info")
    servers := listAt (OpenAPIServer.fromJson json) obj (ascii "servers")
    paths := mapAt (OpenAPIPathItem.fromJson json) obj (ascii "paths")
    components := recordAt (OpenAPIComponents.fromJson json) {} obj (ascii "components")
    security := listAt (securityFromJson json) obj (ascii "security")
    tags := listAt (OpenAPITag.fromJson json) obj (ascii "tags")
    externalDocs := recordAt (OpenAPIExternalDocs.fromJson json) {} obj (ascii "externalDocs") }

def OpenAPIDocument.fromJsonStr (jsonStr : ByteString) : Except ByteString (OpenAPIDocument F) :=
  match json.decode jsonStr with
  | .error err => .error err
  | .ok parsed => .ok (OpenAPIDocument.fromJson json parsed)

end Reading

end VHono
