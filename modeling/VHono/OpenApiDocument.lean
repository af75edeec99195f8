import VHono.ByteString
import VHono.InsertionMap

/-! # OpenAPI documents

    The records of a document.  A schema holds schemas: under the names of its
    properties, and for the items of an array.  Numbers of 64 bits with a
    fraction are of a type of their own, with its zero. -/

namespace VHono

open ByteString

structure OpenAPIContact where
  name  : ByteString := []
  url   : ByteString := []
  email : ByteString := []
  deriving DecidableEq

structure OpenAPILicense where
  name : ByteString := []
  url  : ByteString := []
  deriving DecidableEq

structure OpenAPIInfo where
  title          : ByteString := []
  version        : ByteString := []
  description    : ByteString := []
  termsOfService : ByteString := []
  contact        : OpenAPIContact := {}
  license        : OpenAPILicense := {}
  deriving DecidableEq

structure OpenAPIServer where
  url         : ByteString := []
  description : ByteString := []
  deriving DecidableEq

structure OpenAPIExternalDocs where
  url         : ByteString := []
  description : ByteString := []
  deriving DecidableEq

structure OpenAPITag where
  name         : ByteString := []
  description  : ByteString := []
  externalDocs : OpenAPIExternalDocs := {}
  deriving DecidableEq

/-- `items` is a pointer that may be nil; the properties are a map, oldest entry first. -/
structure OpenAPISchema (F : Type) where
  schemaType  : ByteString
  format      : ByteString
  title       : ByteString
  description : ByteString
  defaultVal  : ByteString
  exampleVal  : ByteString
  enumValues  : List ByteString
  required    : List ByteString
  properties  : List (ByteString × OpenAPISchema F)
  items       : Option (OpenAPISchema F)
  minimum     : F
  maximum     : F
  minLength   : Int
  maxLength   : Int
  pattern     : ByteString
  nullable    : Bool
  readOnly    : Bool
  writeOnly   : Bool
  ref         : ByteString

variable {F : Type}

/-- A schema with nothing set. -/
def OpenAPISchema.empty [Zero F] : OpenAPISchema F where
  schemaType := []
  format := []
  title := []
  description := []
  defaultVal := []
  exampleVal := []
  enumValues := []
  required := []
  properties := []
  items := none
  minimum := 0
  maximum := 0
  minLength := 0
  maxLength := 0
  pattern := []
  nullable := false
  readOnly := false
  writeOnly := false
  ref := []

structure OpenAPIMediaType (F : Type) [Zero F] where
  schema : OpenAPISchema F := .empty
  exampleVal : ByteString := []

structure OpenAPIHeader (F : Type) [Zero F] where
  description : ByteString := []
  required    : Bool := false
  schema      : OpenAPISchema F := .empty

structure OpenAPIResponse (F : Type) [Zero F] where
  description : ByteString := []
  headers     : InsertionMap ByteString (OpenAPIHeader F) := .empty
  content     : InsertionMap ByteString (OpenAPIMediaType F) := .empty

structure OpenAPIRequestBody (F : Type) [Zero F] where
  description : ByteString := []
  content     : InsertionMap ByteString (OpenAPIMediaType F) := .empty
  required    : Bool := false

structure OpenAPIParameter (F : Type) [Zero F] where
  name        : ByteString := []
  inLocation  : ByteString := []
  description : ByteString := []
  required    : Bool := false
  deprecated  : Bool := false
  schema      : OpenAPISchema F := .empty
  exampleVal  : ByteString := []

/-- The names of security schemes, each with its scopes. -/
abbrev OpenAPISecurity := InsertionMap ByteString (List ByteString)

structure OpenAPIOperation (F : Type) [Zero F] where
  summary     : ByteString := []
  description : ByteString := []
  operationId : ByteString := []
  tags        : List ByteString := []
  parameters  : List (OpenAPIParameter F) := []
  requestBody : OpenAPIRequestBody F := {}
  responses   : InsertionMap ByteString (OpenAPIResponse F) := .empty
  deprecated  : Bool := false
  security    : List OpenAPISecurity := []

structure OpenAPIPathItem (F : Type) [Zero F] where
  get         : OpenAPIOperation F := {}
  post        : OpenAPIOperation F := {}
  put         : OpenAPIOperation F := {}
  delete      : OpenAPIOperation F := {}
  patch       : OpenAPIOperation F := {}
  head        : OpenAPIOperation F := {}
  options     : OpenAPIOperation F := {}
  summary     : ByteString := []
  description : ByteString := []
  parameters  : List (OpenAPIParameter F) := []

structure OpenAPISecurityScheme where
  schemeType   : ByteString := []
  description  : ByteString := []
  name         : ByteString := []
  inLocation   : ByteString := []
  scheme       : ByteString := []
  bearerFormat : ByteString := []
  deriving DecidableEq

structure OpenAPIComponents (F : Type) [Zero F] where
  schemas         : InsertionMap ByteString (OpenAPISchema F) := .empty
  responses       : InsertionMap ByteString (OpenAPIResponse F) := .empty
  parameters      : InsertionMap ByteString (OpenAPIParameter F) := .empty
  requestBodies   : InsertionMap ByteString (OpenAPIRequestBody F) := .empty
  headers         : InsertionMap ByteString (OpenAPIHeader F) := .empty
  securitySchemes : InsertionMap ByteString OpenAPISecurityScheme := .empty

structure OpenAPIDocument (F : Type) [Zero F] where
  openapi      : ByteString := []
  info         : OpenAPIInfo := {}
  servers      : List OpenAPIServer := []
  paths        : InsertionMap ByteString (OpenAPIPathItem F) := .empty
  components   : OpenAPIComponents F := {}
  security     : List OpenAPISecurity := []
  tags         : List OpenAPITag := []
  externalDocs : OpenAPIExternalDocs := {}

end VHono
