import VHono.HttpGrammar
import VHono.TextSplits

/-! # Multipart forms

    The parser of `multipart/form-data` bodies.  It splits the body at the
    delimiter, each piece at its first blank line, and searches the line of the
    content disposition for the quoted parameters. -/

namespace VHono

open ByteString HttpGrammar

structure MultipartItem where
  name        : ByteString
  filename    : ByteString
  content     : ByteString
  contentType : ByteString
  deriving DecidableEq

structure MultipartParser where
  boundary : ByteString
  data     : ByteString

/-! ## The parser -/

/-- The quotes around a boundary; `none` is a panic, where one quote is both. -/
def withoutQuotes (boundary : ByteString) : Option ByteString :=
  if boundary.head? = some (byte '"') ∧ boundary.getLast? = some (byte '"') then
    if 1 ≤ boundary.length - 1 then some (slice boundary 1 (boundary.length - 1)) else none
  else some boundary

def extractBoundary (contentType : ByteString) : Option (Except ByteString ByteString) :=
  if startsWith contentType (ascii "multipart/form-data") then
    match indexOf (ascii "boundary=") contentType with
    | none => some (.error (ascii "No boundary found"))
    | some boundaryStart => (withoutQuotes (contentType.drop (boundaryStart + 9))).map .ok
  else some (.error (ascii "Not multipart/form-data"))

def newMultipartParser (contentType data : ByteString) :
    Option (Except ByteString MultipartParser) :=
  (extractBoundary contentType).map (fun result =>
    match result with
    | .error _ => .error (ascii "Failed to extract boundary")
    | .ok boundary => .ok { boundary := boundary, data := data })

/-- The value of a parameter on the line of the content disposition; an open
    quote runs to the end of the line. -/
def dispositionValue (key line : ByteString) : Option ByteString :=
  if startsWith line (ascii "Content-Disposition:") then
    let keyEq := key ++ ascii "=\""
    match indexOf keyEq line with
    | none => none
    | some idx =>
      let start := idx + keyEq.length
      some (slice line start ((indexFrom (ascii "\"") line start).getD line.length))
  else none

def extractHeaderValue (header key : ByteString) : Except ByteString ByteString :=
  match (splitStr header crlf).findSome? (dispositionValue key) with
  | some value => .ok value
  | none => .error (ascii "Key not found: " ++ key)

/-- `extract_header_value(header, key) or { default }` -/
def headerValueOr (header key default : ByteString) : ByteString :=
  match extractHeaderValue header key with
  | .ok value => value
  | .error _ => default

def parsePart (part : ByteString) : Except ByteString MultipartItem :=
  match splitStr part (crlf ++ crlf) with
  | header :: first :: rest =>
    match extractHeaderValue header (ascii "name") with
    | .error _ => .error (ascii "Missing name")
    | .ok name =>
      .ok { name := name
            filename := headerValueOr header (ascii "filename") []
            content := (crlf ++ crlf).intercalate (first :: rest)
            contentType := headerValueOr header (ascii "Content-Type") (ascii "text/plain") }
  | _ => .error (ascii "Invalid part format")

/-- What is left between delimiters: nothing, or the dashes of the last one. -/
def skippedPart (part : ByteString) : Bool :=
  trimSpace part == [] || trimSpace part == ascii "--" || startsWith (trimSpace part) (ascii "--")

def MultipartParser.delimiter (parser : MultipartParser) : ByteString :=
  ascii "--" ++ parser.boundary

/-- A part that is no part is passed over. -/
def partItem (part : ByteString) : Option MultipartItem :=
  if skippedPart part then none else (parsePart part).toOption

def MultipartParser.parse (parser : MultipartParser) : List MultipartItem :=
  (splitStr parser.data parser.delimiter).filterMap partItem

/-! ## What the parser reads off a part -/

theorem crlf_blank_ne_nil : crlf ++ crlf ≠ [] := by decide

theorem dispositionValue_within {key line value : ByteString}
    (h : dispositionValue key line = some value) : value <:+: line := by
  rw [dispositionValue] at h
  split at h
  · dsimp only at h
    split at h
    · cases h
    · rw [← Option.some.inj h]
      exact slice_within _ _ _
  · cases h

/-- A value is a part of the header it was found in. -/
theorem extractHeaderValue_within {header key value : ByteString}
    (h : extractHeaderValue header key = .ok value) : value <:+: header := by
  rw [extractHeaderValue] at h
  cases hfind : (splitStr header crlf).findSome? (dispositionValue key) with
  | none =>
      rw [hfind] at h
      cases h
  | some found =>
      rw [hfind] at h
      obtain ⟨line, hline, hvalue⟩ := List.exists_of_findSome?_eq_some hfind
      rw [← Except.ok.inj h]
      exact (dispositionValue_within hvalue).trans
        (splitStr_piece_within (List.cons_ne_nil _ _) hline)

theorem headerValueOr_cases (header key default : ByteString) :
    headerValueOr header key default = default ∨ headerValueOr header key default <:+: header := by
  rw [headerValueOr]
  split
  · rename_i hvalue
    exact .inr (extractHeaderValue_within hvalue)
  · exact .inl rfl

/-- What the fields of an item are made of. -/
structure MultipartItem.TakenFrom (item : MultipartItem) (part : ByteString) : Prop where
  name : item.name <:+: part
  filename : item.filename = [] ∨ item.filename <:+: part
  content : item.content <:+: part
  contentType : item.contentType = ascii "text/plain" ∨ item.contentType <:+: part

theorem parsePart_takenFrom {part : ByteString} {item : MultipartItem}
    (h : parsePart part = .ok item) : item.TakenFrom part := by
  rw [parsePart] at h
  split at h
  · rename_i header first rest hpieces
    have hheader : header <:+: part :=
      splitStr_piece_within crlf_blank_ne_nil (hpieces ▸ List.mem_cons_self ..)
    split at h
    · cases h
    · rename_i name hname
      rw [← Except.ok.inj h]
      have htail : (crlf ++ crlf).intercalate (splitStr part (crlf ++ crlf)).tail <:+: part :=
        splitStr_tail_within crlf_blank_ne_nil
      rw [hpieces] at htail
      exact {
        name := (extractHeaderValue_within hname).trans hheader
        filename := (headerValueOr_cases ..).imp_right (·.trans hheader)
        content := htail
        contentType := (headerValueOr_cases ..).imp_right (·.trans hheader) }
  · cases h

/-- No field of an item holds the delimiter, unless the delimiter lies in a default. -/
theorem parse_takenFrom {parser : MultipartParser} {item : MultipartItem}
    (h : item ∈ parser.parse) :
    ∃ part, item.TakenFrom part ∧ containsStr part parser.delimiter = false := by
  obtain ⟨part, hpart, hitem⟩ := List.mem_filterMap.mp h
  rw [partItem] at hitem
  split at hitem
  · cases hitem
  · cases hparse : parsePart part with
    | error message =>
        rw [hparse] at hitem
        cases hitem
    | ok found =>
        rw [hparse] at hitem
        obtain rfl : found = item := Option.some.inj hitem
        exact ⟨part, parsePart_takenFrom hparse,
          splitStr_piece_free (List.cons_ne_nil _ _) hpart⟩

end VHono
