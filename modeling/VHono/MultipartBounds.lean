import VHono.CheckedSlices
import VHono.InsertionMap
import VHono.MultipartForms

/-! # The bounds of the multipart parser

    The parser again, with the bounds of every slice and index looked at.  All
    of them hold, so it computes what the parser of the forms does, but for the
    quotes of the boundary: a quote that is the first byte and the last one of
    it is taken off twice. -/

namespace VHono

open ByteString HttpGrammar CheckedSlices

namespace MultipartBounds

/-! ## The parser, with its bounds -/

def extractBoundary (contentType : ByteString) : Option (Except ByteString ByteString) :=
  if startsWith contentType (ascii "multipart/form-data") = false then
    some (.error (ascii "Not multipart/form-data"))
  else
    match indexOf (ascii "boundary=") contentType with
    | none => some (.error (ascii "No boundary found"))
    | some boundaryStart => do
      let boundary ← cut contentType (boundaryStart + 9) contentType.length
      if boundary.head? = some (byte '"') ∧ boundary.getLast? = some (byte '"') then
        let unquoted ← cut boundary 1 (boundary.length - 1)
        return .ok unquoted
      else return .ok boundary

def newMultipartParser (contentType data : ByteString) :
    Option (Except ByteString MultipartParser) := do
  match ← extractBoundary contentType with
  | .error _ => return .error (ascii "Failed to extract boundary")
  | .ok boundary => return .ok { boundary := boundary, data := data }

/-- The loop over the lines of a header. -/
def headerValueIn (key : ByteString) : List ByteString → Option (Except ByteString ByteString)
  | [] => some (.error (ascii "Key not found: " ++ key))
  | line :: lines =>
    if startsWith line (ascii "Content-Disposition:") then
      let keyEq := key ++ ascii "=\""
      match indexOf keyEq line with
      | none => headerValueIn key lines
      | some idx =>
        let start := idx + keyEq.length
        (cut line start ((indexFrom (ascii "\"") line start).getD line.length)).map .ok
    else headerValueIn key lines

def extractHeaderValue (header key : ByteString) : Option (Except ByteString ByteString) :=
  headerValueIn key (splitStr header crlf)

/-- `extract_header_value(header, key) or { default }` -/
def headerValueOr (header key default : ByteString) : Option ByteString := do
  match ← extractHeaderValue header key with
  | .ok value => return value
  | .error _ => return default

def parsePart (part : ByteString) : Option (Except ByteString MultipartItem) :=
  let headerContent := splitStr part (crlf ++ crlf)
  if headerContent.length < 2 then some (.error (ascii "Invalid part format"))
  else do
    let header ← headerContent[0]?
    let rest ← cut headerContent 1 headerContent.length
    match ← extractHeaderValue header (ascii "name") with
    | .error _ => return .error (ascii "Missing name")
    | .ok name =>
      let filename ← headerValueOr header (ascii "filename") []
      let contentType ← headerValueOr header (ascii "Content-Type") (ascii "text/plain")
      return .ok { name := name
                   filename := filename
                   content := (crlf ++ crlf).intercalate rest
                   contentType := contentType }

/-- The loop over the parts. -/
def itemsOf : List ByteString → Option (List MultipartItem)
  | [] => some []
  | part :: parts =>
    if skippedPart part then itemsOf parts
    else do
      let result ← parsePart part
      let items ← itemsOf parts
      match result with
      | .ok item => return item :: items
      | .error _ => return items

def parse (parser : MultipartParser) : Option (List MultipartItem) :=
  itemsOf (splitStr parser.data parser.delimiter)

/-- `parse_multipart_form`, given the value of the header, if there is one, and the body. -/
def parseMultipartForm (contentType : Option ByteString) (data : ByteString) :
    Option (Except ByteString (InsertionMap ByteString MultipartItem)) :=
  match contentType with
  | none => some (.error (ascii "No Content-Type header"))
  | some contentType => do
    match ← newMultipartParser contentType data with
    | .error err => return .error (ascii "Failed to create parser: " ++ err)
    | .ok parser =>
      let items ← parse parser
      return .ok (items.foldl (fun result item => result.insert item.name item) .empty)

/-! ## The values of the headers -/

theorem indexFrom_quote_le (line : ByteString) (start : Nat) (h : start ≤ line.length) :
    start ≤ (indexFrom (ascii "\"") line start).getD line.length ∧
      (indexFrom (ascii "\"") line start).getD line.length ≤ line.length := by
  cases hquote : indexFrom (ascii "\"") line start with
  | none => exact ⟨h, Nat.le_refl _⟩
  | some stop =>
      obtain ⟨hle, -, hlen⟩ := indexFrom_spec hquote (by decide)
      exact ⟨hle, Nat.le_of_add_right_le hlen⟩

/-- The value starts behind the key and ends before the next quote or with the line. -/
theorem headerValueIn_eq (key : ByteString) (lines : List ByteString) :
    headerValueIn key lines = some (match lines.findSome? (dispositionValue key) with
      | some value => .ok value
      | none => .error (ascii "Key not found: " ++ key)) := by
  induction lines with
  | nil => rfl
  | cons line lines ih =>
      rw [headerValueIn, List.findSome?_cons, dispositionValue]
      by_cases hline : startsWith line (ascii "Content-Disposition:") = true
      · rw [if_pos hline, if_pos hline]
        cases hidx : indexOf (key ++ ascii "=\"") line with
        | none =>
            dsimp only
            rw [hidx]
            exact ih
        | some idx =>
            have hstart := (indexOf_spec hidx).2
            obtain ⟨hle, hlen⟩ := indexFrom_quote_le line _ hstart
            dsimp only
            rw [hidx]
            show (cut line _ _).map Except.ok = _
            rw [cut_within hle hlen]
            rfl
      · rw [if_neg hline, if_neg hline]
        exact ih

theorem extractHeaderValue_eq (header key : ByteString) :
    extractHeaderValue header key = some (VHono.extractHeaderValue header key) :=
  headerValueIn_eq key _

theorem headerValueOr_eq (header key default : ByteString) :
    headerValueOr header key default = some (VHono.headerValueOr header key default) := by
  rw [headerValueOr, extractHeaderValue_eq, VHono.headerValueOr]
  cases VHono.extractHeaderValue header key with
  | ok value => rfl
  | error message => rfl

/-! ## The parts -/

theorem parsePart_eq (part : ByteString) : parsePart part = some (VHono.parsePart part) := by
  rw [parsePart, VHono.parsePart]
  cases splitStr part (crlf ++ crlf) with
  | nil => rfl
  | cons header pieces =>
      cases pieces with
      | nil => rfl
      | cons first rest =>
          have hrest : cut (header :: first :: rest) 1 (header :: first :: rest).length
              = some (first :: rest) := cut_rest (Nat.succ_le_succ (Nat.zero_le _))
          have hlong : ¬(header :: first :: rest).length < 2 := by simp
          simp only [if_neg hlong, hrest, List.getElem?_cons_zero, Option.bind_eq_bind,
            Option.bind_some, extractHeaderValue_eq, headerValueOr_eq]
          cases VHono.extractHeaderValue header (ascii "name") with
          | error message => rfl
          | ok name => rfl

theorem itemsOf_eq (parts : List ByteString) : itemsOf parts = some (parts.filterMap partItem) := by
  induction parts with
  | nil => rfl
  | cons part parts ih =>
      rw [itemsOf, List.filterMap_cons, partItem]
      by_cases hskip : skippedPart part = true
      · rw [if_pos hskip, if_pos hskip]
        exact ih
      · rw [if_neg hskip, if_neg hskip, parsePart_eq, ih]
        cases VHono.parsePart part with
        | ok item => rfl
        | error message => rfl

/-- The parser keeps every bound, and computes what the parser of the forms does. -/
theorem parse_eq (parser : MultipartParser) : parse parser = some parser.parse := itemsOf_eq _

/-! ## The boundary -/

theorem extractBoundary_eq (contentType : ByteString) :
    extractBoundary contentType = VHono.extractBoundary contentType := by
  rw [extractBoundary, VHono.extractBoundary]
  cases startsWith contentType (ascii "multipart/form-data") with
  | false => rfl
  | true =>
      cases hstart : indexOf (ascii "boundary=") contentType with
      | none => rfl
      | some boundaryStart =>
          have hlen : boundaryStart + 9 ≤ contentType.length := (indexOf_spec hstart).2
          simp only [Bool.true_eq_false, if_false, if_true, cut_rest hlen, Option.bind_eq_bind,
            Option.bind_some, withoutQuotes]
          by_cases hquotes : (contentType.drop (boundaryStart + 9)).head? = some (byte '"') ∧
              (contentType.drop (boundaryStart + 9)).getLast? = some (byte '"')
          · rw [if_pos hquotes, if_pos hquotes, cut]
            by_cases hlong : 1 ≤ (contentType.drop (boundaryStart + 9)).length - 1
            · rw [if_pos hlong, if_pos ⟨hlong, Nat.sub_le _ _⟩]
              rfl
            · rw [if_neg hlong, if_neg (fun hboth => hlong hboth.1)]
              rfl
          · rw [if_neg hquotes, if_neg hquotes]
            rfl

/-- The header announces a form, and behind the first `boundary=` there is one quote and nothing
    more. -/
def LoneQuote (contentType : ByteString) : Prop :=
  startsWith contentType (ascii "multipart/form-data") = true ∧
    ∃ lead, contentType = lead ++ ascii "boundary=\"" ∧
      indexOf (ascii "boundary=") contentType = some lead.length

theorem withoutQuotes_none {boundary : ByteString} :
    withoutQuotes boundary = none ↔ boundary = ascii "\"" := by
  rw [withoutQuotes]
  constructor
  · intro h
    split at h
    · rename_i hquotes
      split at h
      · cases h
      · rename_i hshort
        cases boundary with
        | nil => cases hquotes.1
        | cons b rest =>
            obtain rfl : rest = [] := by
              refine List.length_eq_zero_iff.mp ?_
              rw [List.length_cons] at hshort
              omega
            rw [Option.some.inj hquotes.1]
            rfl
    · cases h
  · rintro rfl
    rfl

theorem extractBoundary_none {contentType : ByteString} :
    VHono.extractBoundary contentType = none ↔ LoneQuote contentType := by
  rw [VHono.extractBoundary, LoneQuote]
  by_cases hform : startsWith contentType (ascii "multipart/form-data") = true
  · rw [if_pos hform]
    cases hstart : indexOf (ascii "boundary=") contentType with
    | none => exact iff_of_false (fun h => by cases h) (fun ⟨_, _, _, h⟩ => by cases h)
    | some start =>
        obtain ⟨hmark, hlen⟩ := indexOf_spec hstart
        have htext : ascii "boundary=\"" = ascii "boundary=" ++ ascii "\"" := rfl
        show (withoutQuotes (contentType.drop (start + 9))).map Except.ok = none ↔ _
        rw [Option.map_eq_none_iff, withoutQuotes_none]
        constructor
        · -- the mark is nine bytes long, and the quote is all that stands behind it
          intro hrest
          refine ⟨hform, contentType.take start, ?_, ?_⟩
          · obtain ⟨rest, hsplit⟩ := hmark
            have hbehind : rest = contentType.drop (start + 9) := by
              have hnine : (ascii "boundary=" ++ rest).drop 9 = rest := List.drop_left' rfl
              rw [← List.drop_drop, ← hsplit, hnine]
            rw [htext, ← hrest, ← hbehind, hsplit, List.take_append_drop]
          · rw [List.length_take, Nat.min_eq_left (Nat.le_of_add_right_le hlen)]
        · rintro ⟨-, lead, hlead, hsame⟩
          rw [Option.some.inj hsame, hlead, htext, ← List.append_assoc]
          exact List.drop_left' List.length_append
  · rw [if_neg hform]
    exact iff_of_false (fun h => by cases h) (fun h => hform h.1)

/-! ## The whole parser -/

theorem newMultipartParser_none {contentType data : ByteString} :
    newMultipartParser contentType data = none ↔ LoneQuote contentType := by
  rw [← extractBoundary_none, ← extractBoundary_eq, newMultipartParser]
  cases extractBoundary contentType with
  | none => exact iff_of_true rfl rfl
  | some result =>
      cases result with
      | ok boundary => exact iff_of_false (fun h => by cases h) (fun h => by cases h)
      | error message => exact iff_of_false (fun h => by cases h) (fun h => by cases h)

/-- **WHEN THE PARSER RETURNS**: for every header and every body, unless the boundary is a lone
    quote. -/
theorem parseMultipartForm_returns_iff (contentType : Option ByteString) (data : ByteString) :
    parseMultipartForm contentType data ≠ none ↔ ∀ value ∈ contentType, ¬ LoneQuote value := by
  cases contentType with
  | none => exact iff_of_true (fun h => by cases h) (fun _ h => by cases h)
  | some value =>
      have hvalue : (∀ other ∈ some value, ¬ LoneQuote other) ↔ ¬ LoneQuote value := by
        constructor
        · exact fun h => h value rfl
        · intro h other hother
          exact Option.some.inj hother ▸ h
      have hparser : newMultipartParser value data = none ↔ LoneQuote value :=
        newMultipartParser_none
      rw [hvalue, ← hparser, parseMultipartForm]
      cases newMultipartParser value data with
      | none => exact iff_of_false (fun h => h rfl) (fun h => h rfl)
      | some result =>
          refine iff_of_true ?_ (fun h => by cases h)
          cases result with
          | error err => exact fun h => (by cases h)
          | ok parser =>
              simp only [Option.bind_eq_bind, Option.bind_some, parse_eq]
              exact fun h => (by cases h)

/-- A boundary that is one quote stops the program. -/
theorem lone_quote_panics :
    ¬∀ (contentType : Option ByteString) (data : ByteString),
      parseMultipartForm contentType data ≠ none := by
  intro hall
  exact hall (some (ascii "multipart/form-data; boundary=\"")) [] (by decide +kernel)

end MultipartBounds

end VHono
