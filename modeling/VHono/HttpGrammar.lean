import VHono.ByteScan

/-! # The grammar of HTTP/1.x messages

    Requests and header fields as values that are well formed by construction:
    the fields of a structure say what the grammar says, so a message that
    could not stand on the wire cannot be built.  `render` writes the message
    out; the lemmas say where its lines end. -/

namespace HttpGrammar

open ByteString

def crlf : ByteString := [13, 10]

/-- The characters of a token. -/
def isTokenByte (b : UInt8) : Bool :=
  (byte 'a' ≤ b && b ≤ byte 'z') || (byte 'A' ≤ b && b ≤ byte 'Z') ||
  (byte '0' ≤ b && b ≤ byte '9') || (ascii "!#$%&'*+-.^_|~" ++ [96]).contains b

/-- Space and horizontal tab. -/
def isBlank (b : UInt8) : Bool := b == 32 || b == 9

/-- What may stand inside a field value. -/
def isFieldByte (b : UInt8) : Bool := b == 9 || (32 ≤ b && b != 127)

/-- What may stand in a request target: no blank and no control. -/
def isTargetByte (b : UInt8) : Bool := 33 ≤ b && b != 127

/-- A header field with the blanks around its value. -/
structure Field where
  name         : ByteString
  value        : ByteString
  before       : ByteString
  after        : ByteString
  name_ne      : name ≠ []
  name_token   : ∀ b ∈ name, isTokenByte b = true
  value_bytes  : ∀ b ∈ value, isFieldByte b = true
  value_head   : ∀ b, value.head? = some b → isBlank b = false
  value_last   : ∀ b, value.getLast? = some b → isBlank b = false
  before_blank : ∀ b ∈ before, isBlank b = true
  after_blank  : ∀ b ∈ after, isBlank b = true

/-- The line of a field, without its line end. -/
def Field.line (f : Field) : ByteString :=
  f.name ++ byte ':' :: (f.before ++ (f.value ++ f.after))

/-- A run of fields, each with its line end. -/
def headerText (fields : List Field) : ByteString := fields.flatMap (fun f => f.line ++ crlf)

/-- A request with one digit for the minor version. -/
structure Request where
  method       : ByteString
  target       : ByteString
  minor        : UInt8
  fields       : List Field
  body         : ByteString
  method_ne    : method ≠ []
  method_token : ∀ b ∈ method, isTokenByte b = true
  target_ne    : target ≠ []
  target_bytes : ∀ b ∈ target, isTargetByte b = true
  minor_digit  : byte '0' ≤ minor ∧ minor ≤ byte '9'

namespace Request

def version (r : Request) : ByteString := ascii "HTTP/1." ++ [r.minor]

/-- The request line, without its line end. -/
def line (r : Request) : ByteString :=
  r.method ++ 32 :: (r.target ++ 32 :: r.version)

def headerBlock (r : Request) : ByteString := headerText r.fields

def render (r : Request) : ByteString :=
  r.line ++ (crlf ++ (r.headerBlock ++ (crlf ++ r.body)))

end Request

/-! ## Bytes that a message part does not contain -/

theorem not_mem_of_test {test : UInt8 → Bool} {s : ByteString} {c : UInt8}
    (hs : ∀ b ∈ s, test b = true) (hc : test c = false) : c ∉ s := by
  intro h
  rw [hs c h] at hc
  cases hc

theorem Field.cr_not_mem_line (f : Field) : (13 : UInt8) ∉ f.line := by
  have hname : (13 : UInt8) ∉ f.name := not_mem_of_test f.name_token (by decide)
  have hbefore : (13 : UInt8) ∉ f.before := not_mem_of_test f.before_blank (by decide)
  have hvalue : (13 : UInt8) ∉ f.value := not_mem_of_test f.value_bytes (by decide)
  have hafter : (13 : UInt8) ∉ f.after := not_mem_of_test f.after_blank (by decide)
  have hcolon : (13 : UInt8) ≠ byte ':' := by decide
  simp only [Field.line, List.mem_append, List.mem_cons, not_or]
  exact ⟨hname, hcolon, hbefore, hvalue, hafter⟩

theorem Field.colon_not_mem_name (f : Field) : byte ':' ∉ f.name :=
  not_mem_of_test f.name_token (by decide)

theorem Field.line_ne_nil (f : Field) : f.line ≠ [] := by
  intro h
  exact f.name_ne (List.append_eq_nil_iff.mp h).1

/-- A run of lines that are not empty and hold no line end is closed by the first
    empty line. -/
theorem indexOf_blank_line (body : ByteString) :
    ∀ lines : List ByteString, (∀ l ∈ lines, l ≠ [] ∧ (13 : UInt8) ∉ l) →
      indexOf (crlf ++ crlf) (crlf ++ (lines.flatMap (· ++ crlf) ++ (crlf ++ body)))
        = some (lines.flatMap (· ++ crlf)).length := by
  intro lines
  induction lines with
  | nil => intro _; exact indexOf_here (startsWith_append (crlf ++ crlf) body)
  | cons l ls ih =>
      intro h
      obtain ⟨hne, hcr⟩ := h l (List.mem_cons_self ..)
      have hrest := ih (fun l' hl' => h l' (List.mem_cons_of_mem _ hl'))
      -- the line end before a line is not followed by another: the line is not empty
      obtain ⟨b, line, hline⟩ := List.exists_cons_of_ne_nil hne
      have hb : (13 == b) = false := by
        refine beq_eq_false_iff_ne.mpr (fun hbe => hcr ?_)
        rw [hline, hbe]
        exact List.mem_cons_self ..
      have htail : (13 : UInt8) ∉ 10 :: l := by
        rw [List.mem_cons, not_or]
        exact ⟨by decide, hcr⟩
      rw [List.flatMap_cons]
      generalize ls.flatMap (· ++ crlf) = rest at hrest ⊢
      have hskip : startsWith (13 :: (10 :: l ++ (crlf ++ (rest ++ (crlf ++ body)))))
          (crlf ++ crlf) = false := by
        rw [hline]
        show ((13 : UInt8) == 13 && ((10 : UInt8) == 10 && ((13 : UInt8) == b && _))) = false
        rw [hb]
        rfl
      have hshape : crlf ++ (l ++ crlf ++ rest ++ (crlf ++ body))
          = 13 :: (10 :: l ++ (crlf ++ (rest ++ (crlf ++ body)))) := by
        simp only [crlf, List.append_assoc, List.cons_append, List.nil_append]
      have hmove : indexOf (crlf ++ crlf) (10 :: l ++ (crlf ++ (rest ++ (crlf ++ body))))
          = (indexOf (crlf ++ crlf) (crlf ++ (rest ++ (crlf ++ body)))).map
              (· + (10 :: l).length) := indexOf_append htail
      rw [hshape, indexOf_skip hskip, hmove, hrest]
      simp only [Option.map_some, List.length_append, List.length_cons, crlf, List.length_nil]
      congr 1
      omega

/-! ## Trimming the parts of a field -/

theorem isSpace_of_isBlank {b : UInt8} (h : isBlank b = true) : isSpace b = true := by
  simp only [isBlank, Bool.or_eq_true, beq_iff_eq] at h
  rcases h with rfl | rfl
  · rfl
  · rfl

/-- The only spaces a field value may hold are blanks. -/
theorem isSpace_field {b : UInt8} (hb : isFieldByte b = true) (hblank : isBlank b = false) :
    isSpace b = false := by
  by_contra hspace
  simp only [isSpace, Bool.not_eq_false, Bool.or_eq_true, beq_iff_eq] at hspace
  rcases hspace with ((((rfl | rfl) | rfl) | rfl) | rfl) | rfl
  all_goals revert hb hblank; decide

theorem isSpace_token {b : UInt8} (h : isTokenByte b = true) : isSpace b = false := by
  by_contra hspace
  simp only [isSpace, Bool.not_eq_false, Bool.or_eq_true, beq_iff_eq] at hspace
  rcases hspace with ((((rfl | rfl) | rfl) | rfl) | rfl) | rfl
  all_goals revert h; decide

theorem Field.trimSpace_name (f : Field) : trimSpace f.name = f.name := by
  have hname : ∀ b ∈ f.name, isSpace b = false := fun b hb => isSpace_token (f.name_token b hb)
  have htrim : trimSpace ([] ++ (f.name ++ [])) = f.name :=
    trimSpace_padded (fun b hb => by cases hb) (fun b hb => by cases hb)
      (fun b hb => hname b (List.mem_of_mem_head? hb))
      (fun b hb => hname b (List.mem_of_mem_getLast? hb))
  rw [List.nil_append, List.append_nil] at htrim
  exact htrim

theorem Field.trimSpace_value (f : Field) :
    trimSpace (f.before ++ (f.value ++ f.after)) = f.value :=
  trimSpace_padded (fun b hb => isSpace_of_isBlank (f.before_blank b hb))
    (fun b hb => isSpace_of_isBlank (f.after_blank b hb))
    (fun b hb => isSpace_field (f.value_bytes b (List.mem_of_mem_head? hb)) (f.value_head b hb))
    (fun b hb => isSpace_field (f.value_bytes b (List.mem_of_mem_getLast? hb))
      (f.value_last b hb))

/-- The line of a field is cut at its first colon. -/
theorem Field.cut_line (f : Field) :
    indexOf [byte ':'] f.line = some f.name.length ∧ f.line.take f.name.length = f.name ∧
      f.line.drop (f.name.length + 1) = f.before ++ (f.value ++ f.after) := by
  have hsplit : f.line = (f.name ++ [byte ':']) ++ (f.before ++ (f.value ++ f.after)) := by
    simp only [Field.line, List.append_assoc, List.cons_append, List.nil_append]
  refine ⟨indexOf_found f.colon_not_mem_name, List.take_left, ?_⟩
  rw [hsplit]
  exact List.drop_left' (by simp)

namespace Request

theorem cr_not_mem_version (r : Request) : (13 : UInt8) ∉ r.version := by
  have hminor : (13 : UInt8) ≠ r.minor := by
    intro h
    have := r.minor_digit.1
    rw [← h] at this
    exact absurd this (by decide)
  rw [version, List.mem_append, not_or, List.mem_singleton]
  exact ⟨by decide, hminor⟩

theorem cr_not_mem_line (r : Request) : (13 : UInt8) ∉ r.line := by
  have hmethod : (13 : UInt8) ∉ r.method := not_mem_of_test r.method_token (by decide)
  have htarget : (13 : UInt8) ∉ r.target := not_mem_of_test r.target_bytes (by decide)
  have hspace : (13 : UInt8) ≠ 32 := by decide
  simp only [line, List.mem_append, List.mem_cons, not_or]
  exact ⟨hmethod, hspace, htarget, hspace, r.cr_not_mem_version⟩

theorem space_not_mem_method (r : Request) : (32 : UInt8) ∉ r.method :=
  not_mem_of_test r.method_token (by decide)

theorem space_not_mem_target (r : Request) : (32 : UInt8) ∉ r.target :=
  not_mem_of_test r.target_bytes (by decide)

/-! ## Where the lines end -/

/-- The first line end of a message closes the request line. -/
theorem indexOf_crlf_render (r : Request) : indexOf crlf r.render = some r.line.length :=
  indexOf_found r.cr_not_mem_line

/-- The first empty line after the request line closes the header block. -/
theorem indexOf_blank_line_render (r : Request) :
    indexOf (crlf ++ crlf) (crlf ++ (r.headerBlock ++ (crlf ++ r.body)))
      = some r.headerBlock.length := by
  have hlines : ∀ l ∈ r.fields.map Field.line, l ≠ [] ∧ (13 : UInt8) ∉ l := by
    intro l hl
    obtain ⟨f, -, rfl⟩ := List.mem_map.mp hl
    exact ⟨f.line_ne_nil, f.cr_not_mem_line⟩
  have hblank := indexOf_blank_line r.body (r.fields.map Field.line) hlines
  rw [List.flatMap_map] at hblank
  exact hblank

/-- The lines of a message: the request line, the fields, an empty line, the body's. -/
theorem splitStr_render (r : Request) :
    splitStr r.render crlf
      = r.line :: (r.fields.map Field.line ++ [] :: splitStr r.body crlf) := by
  have hlines : ∀ l ∈ r.line :: (r.fields.map Field.line ++ [[]]), (13 : UInt8) ∉ l := by
    intro l hl
    rcases List.mem_cons.mp hl with rfl | hl
    · exact r.cr_not_mem_line
    · rcases List.mem_append.mp hl with hf | hnil
      · obtain ⟨f, -, rfl⟩ := List.mem_map.mp hf
        exact f.cr_not_mem_line
      · rw [List.mem_singleton.mp hnil]
        exact List.not_mem_nil
  have hrender : r.render
      = (r.line :: (r.fields.map Field.line ++ [[]])).flatMap (· ++ crlf) ++ r.body := by
    simp only [render, headerBlock, headerText, List.flatMap_cons, List.flatMap_append, List.flatMap_map,
      List.flatMap_nil, List.append_assoc, List.nil_append]
  have hsplit : splitStr ((r.line :: (r.fields.map Field.line ++ [[]])).flatMap (· ++ crlf)
      ++ r.body) crlf = r.line :: (r.fields.map Field.line ++ [[]]) ++ splitStr r.body crlf :=
    splitStr_lines _ r.body hlines
  rw [hrender, hsplit, List.cons_append, List.append_assoc]
  rfl

end Request

end HttpGrammar
