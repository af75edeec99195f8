import VHono.ByteDecimals
import VHono.OpenApiDocument

/-! # The two validators of a document

    One stops at the first defect, the other goes on and gathers them.  Both
    make the same checks in the same order, so the first stops at what the
    second gathers first. -/

namespace VHono

open ByteString

/-- `supported_openapi_versions` -/
def supportedOpenapiVersions : List ByteString :=
  [ascii "3.0.0", ascii "3.0.1", ascii "3.0.2", ascii "3.0.3", ascii "3.1.0"]

inductive OpenAPIErrorKind
  | missingRequiredField | invalidVersion | invalidPath | invalidParameter | invalidSchema
  | serializationError | deserializationError
  deriving DecidableEq

structure OpenAPIError where
  kind     : OpenAPIErrorKind
  errorMsg : ByteString
  path     : ByteString := []
  field    : ByteString := []
  deriving DecidableEq

def isEmpty (s : ByteString) : Bool := decide (s.length = 0)

/-! ## Texts of errors -/

def missingField (field : ByteString) : ByteString :=
  ascii "Missing required field '" ++ field ++ ascii "' in OpenAPI document"

def unsupportedVersion (version : ByteString) : ByteString :=
  ascii "Unsupported OpenAPI version '" ++ version ++ ascii "'. Supported versions: "
    ++ (ascii ", ").intercalate supportedOpenapiVersions

def invalidPath (path reason : ByteString) : ByteString :=
  ascii "Invalid path '" ++ path ++ ascii "': " ++ reason

def notRooted : ByteString := ascii "paths must start with '/'"

def unmatchedClose (i : Nat) : ByteString :=
  ascii "unmatched '\x7d' at position " ++ intStr i

def unmatchedOpen (i : Int) : ByteString :=
  ascii "unmatched '\x7b' at position " ++ intStr i

def emptyParameter : ByteString := ascii "empty path parameter '\x7b\x7d'"

def doubledSlashes : ByteString := ascii "contains consecutive slashes '//'"

/-! ## The validator that stops -/

/-- The loop over the bytes of a path: the position of a brace that closes nothing, or the braces
    left open and the position of the last one that opened. -/
def scanBraces (i : Nat) (openBraces lastOpenIdx : Int) : ByteString → Except Nat (Int × Int)
  | [] => .ok (openBraces, lastOpenIdx)
  | c :: rest =>
    if c = byte '\x7b' then scanBraces (i + 1) (openBraces + 1) i rest
    else if c = byte '\x7d' then
      if openBraces - 1 < 0 then .error i else scanBraces (i + 1) (openBraces - 1) lastOpenIdx rest
    else scanBraces (i + 1) openBraces lastOpenIdx rest

def validatePath (path : ByteString) : Except ByteString Unit :=
  if startsWith path (ascii "/") = false then .error (invalidPath path notRooted)
  else
    match scanBraces 0 0 (-1) path with
    | .error i => .error (invalidPath path (unmatchedClose i))
    | .ok (openBraces, lastOpenIdx) =>
      if openBraces > 0 then .error (invalidPath path (unmatchedOpen lastOpenIdx))
      else if containsStr path (ascii "\x7b\x7d") = true then
        .error (invalidPath path emptyParameter)
      else if containsStr path (ascii "//") = true then .error (invalidPath path doubledSlashes)
      else .ok ()

/-- `for path in paths { ... }`, with an early return. -/
def validatePaths : List ByteString → Except ByteString Unit
  | [] => .ok ()
  | path :: paths =>
    match validatePath path with
    | .error msg => .error msg
    | .ok () => validatePaths paths

section Documents

variable {F : Type} [Zero F]

def OpenAPIDocument.validate (doc : OpenAPIDocument F) : Except ByteString Unit :=
  if isEmpty doc.openapi = true then .error (missingField (ascii "openapi"))
  else if doc.openapi ∉ supportedOpenapiVersions then .error (unsupportedVersion doc.openapi)
  else if isEmpty doc.info.title = true then .error (missingField (ascii "info.title"))
  else if isEmpty doc.info.version = true then .error (missingField (ascii "info.version"))
  else validatePaths doc.paths.keys

/-! ## The validator that gathers -/

def pathError (path reason : ByteString) : OpenAPIError where
  kind := .invalidPath
  errorMsg := invalidPath path reason
  path := path

def missingError (field : ByteString) : OpenAPIError where
  kind := .missingRequiredField
  errorMsg := missingField field
  field := field

/-- The state behind the loop over the bytes of a path. -/
structure BraceScan where
  errors        : List OpenAPIError
  hasBraceError : Bool
  openBraces    : Int
  lastOpenIdx   : Int

/-- The loop that notes a brace that closes nothing and breaks. -/
def braceErrors (path : ByteString) (i : Nat) (openBraces lastOpenIdx : Int) :
    ByteString → BraceScan
  | [] => ⟨[], false, openBraces, lastOpenIdx⟩
  | c :: rest =>
    if c = byte '\x7b' then braceErrors path (i + 1) (openBraces + 1) i rest
    else if c = byte '\x7d' then
      if openBraces - 1 < 0 then
        ⟨[pathError path (unmatchedClose i)], true, openBraces - 1, lastOpenIdx⟩
      else braceErrors path (i + 1) (openBraces - 1) lastOpenIdx rest
    else braceErrors path (i + 1) openBraces lastOpenIdx rest

def pathErrors (path : ByteString) : List OpenAPIError :=
  if startsWith path (ascii "/") = false then [pathError path notRooted]
  else
    let scan := braceErrors path 0 0 (-1) path
    scan.errors ++
    (if scan.hasBraceError = false ∧ scan.openBraces > 0 then
      [pathError path (unmatchedOpen scan.lastOpenIdx)] else []) ++
    (if containsStr path (ascii "\x7b\x7d") = true then [pathError path emptyParameter] else []) ++
    (if containsStr path (ascii "//") = true then [pathError path doubledSlashes] else [])

def OpenAPIDocument.validateWithDetails (doc : OpenAPIDocument F) : List OpenAPIError :=
  (if isEmpty doc.openapi = true then [missingError (ascii "openapi")]
    else if doc.openapi ∉ supportedOpenapiVersions then
      [{ kind := .invalidVersion
         errorMsg := unsupportedVersion doc.openapi
         field := ascii "openapi" }]
    else []) ++
  (if isEmpty doc.info.title = true then [missingError (ascii "info.title")] else []) ++
  (if isEmpty doc.info.version = true then [missingError (ascii "info.version")] else []) ++
  doc.paths.keys.flatMap pathErrors

end Documents

/-! ## Agreement -/

/-- The outcome that stops at the first of some errors. -/
def reported : List OpenAPIError → Except ByteString Unit
  | [] => .ok ()
  | e :: _ => .error e.errorMsg

theorem reported_append (errors errors' : List OpenAPIError) :
    reported (errors ++ errors') = match reported errors with
      | .error msg => .error msg
      | .ok () => reported errors' := by
  cases errors with
  | nil => rfl
  | cons e errors => rfl

/-- One loop breaks where the other returns, and otherwise they count alike. -/
theorem braceErrors_eq (path : ByteString) : ∀ (rest : ByteString) (i : Nat) (opened last : Int),
    match scanBraces i opened last rest with
    | .error k => (braceErrors path i opened last rest).errors = [pathError path (unmatchedClose k)]
    | .ok (opened', last') => braceErrors path i opened last rest = ⟨[], false, opened', last'⟩ := by
  intro rest
  induction rest with
  | nil => intro i opened last; rfl
  | cons c rest ih =>
      intro i opened last
      rw [scanBraces, braceErrors]
      by_cases hopen : c = byte '\x7b'
      · rw [if_pos hopen, if_pos hopen]
        exact ih _ _ _
      · rw [if_neg hopen, if_neg hopen]
        by_cases hclose : c = byte '\x7d'
        · rw [if_pos hclose, if_pos hclose]
          by_cases hnone : opened - 1 < 0
          · rw [if_pos hnone, if_pos hnone]
          · rw [if_neg hnone, if_neg hnone]
            exact ih _ _ _
        · rw [if_neg hclose, if_neg hclose]
          exact ih _ _ _

theorem validatePath_eq (path : ByteString) : validatePath path = reported (pathErrors path) := by
  rw [validatePath, pathErrors]
  by_cases hroot : startsWith path (ascii "/") = false
  · rw [if_pos hroot, if_pos hroot]
    rfl
  · rw [if_neg hroot, if_neg hroot]
    have hscan := braceErrors_eq path path 0 0 (-1)
    cases hbraces : scanBraces 0 0 (-1) path with
    | error k =>
        -- what is gathered behind the first brace error is never reported
        rw [hbraces] at hscan
        dsimp only at hscan ⊢
        rw [hscan, List.append_assoc, List.append_assoc]
        rfl
    | ok counts =>
        obtain ⟨opened, last⟩ := counts
        rw [hbraces] at hscan
        dsimp only at hscan ⊢
        rw [hscan]
        dsimp only
        rw [List.nil_append]
        by_cases hopened : opened > 0
        · rw [if_pos hopened, if_pos ⟨rfl, hopened⟩]
          rfl
        · have hnone : ¬(false = false ∧ opened > 0) := fun h => hopened h.2
          rw [if_neg hopened, if_neg hnone, List.nil_append]
          by_cases hempty : containsStr path (ascii "\x7b\x7d") = true
          · rw [if_pos hempty, if_pos hempty]
            rfl
          · rw [if_neg hempty, if_neg hempty, List.nil_append]
            by_cases hdoubled : containsStr path (ascii "//") = true
            · rw [if_pos hdoubled, if_pos hdoubled]
              rfl
            · rw [if_neg hdoubled, if_neg hdoubled]
              rfl

theorem validatePaths_eq (paths : List ByteString) :
    validatePaths paths = reported (paths.flatMap pathErrors) := by
  induction paths with
  | nil => rfl
  | cons path paths ih =>
      rw [validatePaths, List.flatMap_cons, reported_append, validatePath_eq, ih]

section Agreement

variable {F : Type} [Zero F]

theorem validate_eq (doc : OpenAPIDocument F) :
    doc.validate = reported doc.validateWithDetails := by
  rw [OpenAPIDocument.validate, OpenAPIDocument.validateWithDetails]
  by_cases hmissing : isEmpty doc.openapi = true
  · rw [if_pos hmissing, if_pos hmissing]
    rfl
  · rw [if_neg hmissing, if_neg hmissing]
    by_cases hversion : doc.openapi ∉ supportedOpenapiVersions
    · rw [if_pos hversion, if_pos hversion]
      rfl
    · rw [if_neg hversion, if_neg hversion, List.nil_append]
      by_cases htitle : isEmpty doc.info.title = true
      · rw [if_pos htitle, if_pos htitle]
        rfl
      · rw [if_neg htitle, if_neg htitle, List.nil_append]
        by_cases hinfo : isEmpty doc.info.version = true
        · rw [if_pos hinfo, if_pos hinfo]
          rfl
        · rw [if_neg hinfo, if_neg hinfo, List.nil_append]
          exact validatePaths_eq _

/-- **THE VALIDATORS** agree: one fails exactly if the other finds something, and with the text of
    what it finds first. -/
theorem validators_agree (doc : OpenAPIDocument F) :
    (doc.validate ≠ .ok () ↔ doc.validateWithDetails ≠ []) ∧
      ∀ msg, doc.validate = .error msg →
        (doc.validateWithDetails.head?.map OpenAPIError.errorMsg) = some msg := by
  rw [validate_eq]
  cases doc.validateWithDetails with
  | nil => exact ⟨iff_of_false (fun h => h rfl) (fun h => h rfl), fun msg h => (by cases h)⟩
  | cons e errors =>
      refine ⟨iff_of_true (fun h => by cases h) (List.cons_ne_nil _ _), fun msg h => ?_⟩
      exact congrArg some (Except.error.inj h)

end Agreement

end VHono
