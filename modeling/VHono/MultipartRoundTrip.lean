import VHono.MultipartForms

/-! # The round trip of a form

    A form rendered part by part, and what the parser makes of it.  The line
    break in front of a delimiter belongs to the delimiter; the parser leaves it
    with the content.  So of the first part alone it follows that no form with a
    part comes back: either a field holds the delimiter, which no item the parser
    returns does, or the body falls apart as it should and the first content is
    two bytes too long. -/

namespace VHono

open ByteString HttpGrammar

/-- A part, with the order in which its parameters and its lines are written. -/
structure FormPart where
  name          : ByteString
  filename      : Option ByteString
  contentType   : Option ByteString
  content       : ByteString
  filenameFirst : Bool
  typeFirst     : Bool

/-- What stands between quotes, and on one line. -/
def Quotable (s : ByteString) : Prop := ∀ b ∈ s, b ≠ byte '"' ∧ b ≠ 13 ∧ b ≠ 10

structure FormPart.WellFormed (boundary : ByteString) (p : FormPart) : Prop where
  name : Quotable p.name
  filename : ∀ f ∈ p.filename, Quotable f
  contentType : ∀ t ∈ p.contentType, ∀ b ∈ t, b ≠ 13 ∧ b ≠ 10
  content : containsStr p.content (crlf ++ (ascii "--" ++ boundary)) = false

/-! ## Rendering -/

def dispositionParam (label value : ByteString) : ByteString :=
  label ++ byte '"' :: (value ++ [byte '"'])

def FormPart.params (p : FormPart) : List ByteString :=
  let name := dispositionParam (ascii "; name=") p.name
  match p.filename with
  | none => [name]
  | some f =>
    let filename := dispositionParam (ascii "; filename=") f
    if p.filenameFirst then [filename, name] else [name, filename]

def FormPart.disposition (p : FormPart) : ByteString :=
  ascii "Content-Disposition:" ++ (ascii " form-data" ++ p.params.flatten)

def FormPart.headerLines (p : FormPart) : List ByteString :=
  match p.contentType with
  | none => [p.disposition]
  | some t =>
    let line := ascii "Content-Type: " ++ t
    if p.typeFirst then [line, p.disposition] else [p.disposition, line]

def headerBlock (lines : List ByteString) : ByteString := lines.flatMap (crlf ++ ·)

/-- A part, from its delimiter to the one of the next. -/
def FormPart.render (boundary : ByteString) (p : FormPart) : ByteString :=
  ascii "--" ++ boundary ++ (headerBlock p.headerLines ++ (crlf ++ crlf ++ (p.content ++ crlf)))

def renderForm (boundary : ByteString) (parts : List FormPart) (ending : ByteString) :
    ByteString :=
  parts.flatMap (FormPart.render boundary) ++ (ascii "--" ++ boundary ++ (ascii "--" ++ ending))

/-- The content type of a form, the boundary plain or in quotes. -/
def formContentType (boundary : ByteString) (quotes : Bool) : ByteString :=
  ascii "multipart/form-data" ++ (ascii "; " ++ (ascii "boundary=" ++
    if quotes then byte '"' :: (boundary ++ [byte '"']) else boundary))

/-- The item that a part is to come back as. -/
def FormPart.item (p : FormPart) : MultipartItem where
  name := p.name
  filename := p.filename.getD []
  content := p.content
  contentType := p.contentType.getD (ascii "text/plain")

def FormReturns (boundary : ByteString) (quotes : Bool) (parts : List FormPart)
    (ending : ByteString) : Prop :=
  ∃ parser, newMultipartParser (formContentType boundary quotes)
      (renderForm boundary parts ending) = some (.ok parser) ∧
    parser.parse = parts.map FormPart.item

/-! ## The boundary -/

theorem indexOf_boundary (value : ByteString) :
    indexOf (ascii "boundary=")
        (ascii "multipart/form-data" ++ (ascii "; " ++ (ascii "boundary=" ++ value)))
      = some (ascii "multipart/form-data" ++ ascii "; ").length := by
  rw [← List.append_assoc]
  exact indexOf_found (show byte 'b' ∉ ascii "multipart/form-data" ++ ascii "; " by decide)

theorem extractBoundary_form (value : ByteString) :
    extractBoundary (ascii "multipart/form-data" ++ (ascii "; " ++ (ascii "boundary=" ++ value)))
      = (withoutQuotes value).map .ok := by
  have hdrop : (ascii "multipart/form-data" ++ (ascii "; " ++ (ascii "boundary=" ++ value))).drop
      ((ascii "multipart/form-data" ++ ascii "; ").length + 9) = value := by
    rw [← List.append_assoc, ← List.append_assoc]
    exact List.drop_left' List.length_append
  rw [extractBoundary, if_pos (startsWith_append _ _), indexOf_boundary]
  exact congrArg (fun v => (withoutQuotes v).map Except.ok) hdrop

theorem withoutQuotes_plain {boundary : ByteString} (h : byte '"' ∉ boundary) :
    withoutQuotes boundary = some boundary :=
  if_neg (fun hb => h (List.mem_of_head? hb.1))

theorem withoutQuotes_quoted (boundary : ByteString) :
    withoutQuotes (byte '"' :: (boundary ++ [byte '"'])) = some boundary := by
  have hlast : (byte '"' :: (boundary ++ [byte '"'])).getLast? = some (byte '"') := by
    rw [← List.cons_append, List.getLast?_concat]
  have hlen : (byte '"' :: (boundary ++ [byte '"'])).length - 1 = 1 + boundary.length := by
    rw [List.length_cons, List.length_append, List.length_singleton]
    omega
  have hslice : slice (byte '"' :: (boundary ++ [byte '"'])) 1 (1 + boundary.length) = boundary :=
    slice_eq (show byte '"' :: (boundary ++ [byte '"']) = [byte '"'] ++ (boundary ++ [byte '"'])
      from rfl) rfl rfl
  rw [withoutQuotes, if_pos ⟨rfl, hlast⟩, hlen, if_pos (Nat.le_add_right 1 _), hslice]

/-- The parser takes the boundary the form was rendered with. -/
theorem newMultipartParser_form {boundary : ByteString} (h : byte '"' ∉ boundary) (quotes : Bool)
    (data : ByteString) : newMultipartParser (formContentType boundary quotes) data
      = some (.ok { boundary := boundary, data := data }) := by
  rw [newMultipartParser, formContentType, extractBoundary_form]
  cases quotes with
  | false =>
      show ((withoutQuotes boundary).map Except.ok).map _ = _
      rw [withoutQuotes_plain h]
      rfl
  | true =>
      show ((withoutQuotes (byte '"' :: (boundary ++ [byte '"']))).map Except.ok).map _ = _
      rw [withoutQuotes_quoted]
      rfl

/-! ## Where the delimiter can stand -/

/-- No two dashes in a row, and none at the end. -/
def dashFree : ByteString → Bool
  | [] => true
  | [x] => x != byte '-'
  | x :: y :: s => !(x == byte '-' && y == byte '-') && dashFree (y :: s)

theorem containsStr_dashFree (s pat : ByteString) : ∀ label, dashFree label = true →
    containsStr (label ++ s) (byte '-' :: byte '-' :: pat)
      = containsStr s (byte '-' :: byte '-' :: pat)
  | [], _ => rfl
  | [x], h => by
      have hx : (byte '-' :: byte '-' :: pat).head? ≠ some x := fun heq => by
        rw [← Option.some.inj heq] at h
        exact absurd h (by decide)
      exact containsStr_cons_ne hx (List.cons_ne_nil _ _) s
  | x :: y :: label, h => by
      rw [dashFree, Bool.and_eq_true] at h
      have hstart : startsWith (x :: y :: (label ++ s)) (byte '-' :: byte '-' :: pat) = false := by
        rw [startsWith_cons, startsWith_cons, ← Bool.and_assoc, BEq.comm (a := byte '-'),
          BEq.comm (a := byte '-'), (Bool.not_eq_true' _).mp h.1, Bool.false_and]
      rw [List.cons_append, List.cons_append, containsStr_cons, hstart, Bool.false_or]
      exact containsStr_dashFree s pat (y :: label) h.2

section Delimiter

variable {boundary : ByteString}

/-- The delimiter of a form, without a quote or a line break. -/
structure DelimiterText (boundary delimiter : ByteString) : Prop where
  eq : delimiter = byte '-' :: byte '-' :: boundary
  quote : byte '"' ∉ delimiter
  cr : (13 : UInt8) ∉ delimiter
  lf : (10 : UInt8) ∉ delimiter

theorem DelimiterText.of_quotable (h : Quotable boundary) :
    DelimiterText boundary (ascii "--" ++ boundary) where
  eq := rfl
  quote := fun hmem => (List.mem_append.mp hmem).elim (by decide) (fun hb => (h _ hb).1 rfl)
  cr := fun hmem => (List.mem_append.mp hmem).elim (by decide) (fun hb => (h _ hb).2.1 rfl)
  lf := fun hmem => (List.mem_append.mp hmem).elim (by decide) (fun hb => (h _ hb).2.2 rfl)

variable {delimiter : ByteString}

theorem DelimiterText.ne_nil (d : DelimiterText boundary delimiter) : delimiter ≠ [] :=
  d.eq ▸ List.cons_ne_nil _ _

theorem DelimiterText.label (d : DelimiterText boundary delimiter) {label : ByteString}
    (h : dashFree label = true) (s : ByteString) :
    containsStr (label ++ s) delimiter = containsStr s delimiter := by
  rw [d.eq]
  exact containsStr_dashFree s boundary label h

theorem DelimiterText.param (d : DelimiterText boundary delimiter) {label value : ByteString}
    (hlabel : dashFree label = true) (hvalue : containsStr value delimiter = false)
    (s : ByteString) :
    containsStr (dispositionParam label value ++ s) delimiter = containsStr s delimiter := by
  have htext : dispositionParam label value ++ s
      = label ++ ([] ++ byte '"' :: (value ++ byte '"' :: s)) := by simp [dispositionParam]
  rw [htext, d.label hlabel, containsStr_sep d.quote d.ne_nil, containsStr_nil d.ne_nil,
    Bool.false_or, containsStr_sep d.quote d.ne_nil, hvalue, Bool.false_or]

/-- A line break cuts the delimiter off. -/
theorem DelimiterText.before_cr (d : DelimiterText boundary delimiter) (a : ByteString)
    {s : ByteString} (hs : s.head? = some 13) :
    containsStr (a ++ s) delimiter = (containsStr a delimiter || containsStr s delimiter) := by
  cases s with
  | nil => cases hs
  | cons c s =>
      obtain rfl : c = 13 := Option.some.inj hs
      have hnil := containsStr_sep d.cr d.ne_nil [] s
      rw [List.nil_append, containsStr_nil d.ne_nil, Bool.false_or] at hnil
      rw [containsStr_sep d.cr d.ne_nil, hnil]

theorem headerBlock_head {s : ByteString} (hs : s.head? = some 13) (lines : List ByteString) :
    (headerBlock lines ++ s).head? = some 13 := by
  cases lines with
  | nil => exact hs
  | cons line lines => rfl

theorem DelimiterText.headerBlock (d : DelimiterText boundary delimiter) {s : ByteString}
    (hs : s.head? = some 13) : ∀ {lines : List ByteString},
      (∀ line ∈ lines, containsStr line delimiter = false) →
      containsStr (headerBlock lines ++ s) delimiter = containsStr s delimiter := by
  intro lines
  induction lines with
  | nil => intro _; rfl
  | cons line lines ih =>
      intro h
      have hlines : VHono.headerBlock (line :: lines) ++ s
          = crlf ++ (line ++ (VHono.headerBlock lines ++ s)) := by simp [VHono.headerBlock]
      rw [hlines, d.label (show dashFree crlf = true by decide), d.before_cr line (headerBlock_head hs lines),
        h line (List.mem_cons_self ..), Bool.false_or]
      exact ih (fun l hl => h l (List.mem_cons_of_mem _ hl))

end Delimiter

/-! ## The first part -/

/-- The values of a part do not hold the delimiter. -/
structure FormPart.Free (delimiter : ByteString) (p : FormPart) : Prop where
  name : containsStr p.name delimiter = false
  filename : ∀ f ∈ p.filename, containsStr f delimiter = false
  contentType : ∀ t ∈ p.contentType, containsStr t delimiter = false
  content : containsStr p.content delimiter = false

/-- A part whose item the parser returns is free of the delimiter. -/
theorem FormPart.free_of_item {boundary delimiter part : ByteString} {p : FormPart}
    (d : DelimiterText boundary delimiter) (h : p.item.TakenFrom part)
    (hpart : containsStr part delimiter = false) : p.Free delimiter := by
  have hwithin : ∀ s, s <:+: part → containsStr s delimiter = false := by
    intro s hs
    rw [Bool.eq_false_iff] at hpart ⊢
    exact fun hcontains => hpart (containsStr_of_part hs hcontains)
  refine ⟨hwithin _ h.name, ?_, ?_, hwithin _ h.content⟩
  · intro f hf
    have hitem : p.item.filename = f := by rw [FormPart.item, hf]; rfl
    rcases h.filename with hnil | hpart
    · rw [← hitem, hnil, containsStr_nil d.ne_nil]
    · exact hitem ▸ hwithin _ hpart
  · intro t ht
    have hitem : p.item.contentType = t := by rw [FormPart.item, ht]; rfl
    rcases h.contentType with htext | hpart
    · have hplain := d.label (show dashFree (ascii "text/plain") = true by decide) []
      rw [List.append_nil, containsStr_nil d.ne_nil] at hplain
      rw [← hitem, htext, hplain]
    · exact hitem ▸ hwithin _ hpart

theorem FormPart.params_free {boundary delimiter : ByteString} {p : FormPart}
    (d : DelimiterText boundary delimiter) (h : p.Free delimiter) :
    containsStr p.params.flatten delimiter = false := by
  have hname := d.param (show dashFree (ascii "; name=") = true by decide) h.name
  rw [FormPart.params]
  split
  · rw [List.flatten_cons, hname, List.flatten_nil, containsStr_nil d.ne_nil]
  · rename_i f hf
    have hfilename := d.param (show dashFree (ascii "; filename=") = true by decide)
      (h.filename f hf)
    dsimp only
    split
    · rw [List.flatten_cons, hfilename, List.flatten_cons, hname, List.flatten_nil,
        containsStr_nil d.ne_nil]
    · rw [List.flatten_cons, hname, List.flatten_cons, hfilename, List.flatten_nil,
        containsStr_nil d.ne_nil]

theorem FormPart.mem_headerLines {p : FormPart} {line : ByteString} (h : line ∈ p.headerLines) :
    line = p.disposition ∨ ∃ t ∈ p.contentType, line = ascii "Content-Type: " ++ t := by
  rw [FormPart.headerLines] at h
  split at h
  · exact .inl (List.mem_singleton.mp h)
  · rename_i t ht
    dsimp only at h
    split at h
    · rcases List.mem_cons.mp h with rfl | h
      · exact .inr ⟨t, ht, rfl⟩
      · exact .inl (List.mem_singleton.mp h)
    · rcases List.mem_cons.mp h with rfl | h
      · exact .inl rfl
      · exact .inr ⟨t, ht, List.mem_singleton.mp h⟩

theorem FormPart.disposition_mem (p : FormPart) : p.disposition ∈ p.headerLines := by
  rw [FormPart.headerLines]
  split
  · exact List.mem_cons_self ..
  · dsimp only
    split
    · exact List.mem_cons_of_mem _ (List.mem_cons_self ..)
    · exact List.mem_cons_self ..

theorem FormPart.headerLines_free {boundary delimiter : ByteString} {p : FormPart}
    (d : DelimiterText boundary delimiter) (h : p.Free delimiter) :
    ∀ line ∈ p.headerLines, containsStr line delimiter = false := by
  intro line hline
  rcases FormPart.mem_headerLines hline with rfl | ⟨t, ht, rfl⟩
  · rw [FormPart.disposition, d.label (by decide), d.label (by decide), p.params_free d h]
  · rw [d.label (by decide), h.contentType t ht]

theorem cr_not_mem_param {label value : ByteString} (hlabel : (13 : UInt8) ∉ label)
    (hvalue : Quotable value) : (13 : UInt8) ∉ dispositionParam label value := by
  intro h
  rcases List.mem_append.mp h with h | h
  · exact hlabel h
  · rcases List.mem_cons.mp h with h | h
    · exact absurd h (by decide)
    · rcases List.mem_append.mp h with h | h
      · exact (hvalue _ h).2.1 rfl
      · exact absurd h (by decide)

theorem FormPart.param_cases {p : FormPart} {param : ByteString} (h : param ∈ p.params) :
    param = dispositionParam (ascii "; name=") p.name ∨
      ∃ f ∈ p.filename, param = dispositionParam (ascii "; filename=") f := by
  rw [FormPart.params] at h
  split at h
  · exact .inl (List.mem_singleton.mp h)
  · rename_i f hf
    dsimp only at h
    split at h
    · rcases List.mem_cons.mp h with rfl | h
      · exact .inr ⟨f, hf, rfl⟩
      · exact .inl (List.mem_singleton.mp h)
    · rcases List.mem_cons.mp h with rfl | h
      · exact .inl rfl
      · exact .inr ⟨f, hf, List.mem_singleton.mp h⟩

theorem FormPart.name_mem_params (p : FormPart) :
    dispositionParam (ascii "; name=") p.name ∈ p.params := by
  rw [FormPart.params]
  split
  · exact List.mem_cons_self ..
  · dsimp only
    split
    · exact List.mem_cons_of_mem _ (List.mem_cons_self ..)
    · exact List.mem_cons_self ..

theorem FormPart.headerLines_cr {boundary : ByteString} {p : FormPart}
    (h : p.WellFormed boundary) : ∀ line ∈ p.headerLines, (13 : UInt8) ∉ line := by
  intro line hline hcr
  rcases FormPart.mem_headerLines hline with rfl | ⟨t, ht, rfl⟩
  · rcases List.mem_append.mp hcr with hcr | hcr
    · exact absurd hcr (by decide)
    · rcases List.mem_append.mp hcr with hcr | hcr
      · exact absurd hcr (by decide)
      · obtain ⟨param, hparam, hcr⟩ := List.mem_flatten.mp hcr
        rcases FormPart.param_cases hparam with rfl | ⟨f, hf, rfl⟩
        · exact cr_not_mem_param (by decide) h.name hcr
        · exact cr_not_mem_param (by decide) (h.filename f hf) hcr
  · rcases List.mem_append.mp hcr with hcr | hcr
    · exact absurd hcr (by decide)
    · exact (h.contentType t ht _ hcr).1 rfl

theorem FormPart.headerLines_head {p : FormPart} :
    ∀ line ∈ p.headerLines, line.head? = some (byte 'C') := by
  intro line hline
  rcases FormPart.mem_headerLines hline with rfl | ⟨t, -, rfl⟩ <;> rfl

/-! ## Reading a part -/

theorem crlf_ne_nil : crlf ≠ [] := by decide

/-- The lines of a header are its lines, after an empty one. -/
theorem splitStr_headerBlock : ∀ {lines : List ByteString}, (∀ line ∈ lines, (13 : UInt8) ∉ line) →
    splitStr (headerBlock lines) crlf = [] :: lines := by
  intro lines
  induction lines with
  | nil => intro _; rfl
  | cons line lines ih =>
      intro h
      have hrest := ih (fun l hl => h l (List.mem_cons_of_mem _ hl))
      have hline := splitStr_plain (h line (List.mem_cons_self ..)) hrest
      rw [List.append_nil] at hline
      rw [headerBlock, List.flatMap_cons, List.append_assoc, splitStr_sep crlf_ne_nil]
      exact congrArg ([] :: ·) hline

/-- The header ends at the first blank line. -/
theorem splitStr_blank_line (rest : ByteString) : ∀ {lines : List ByteString},
    (∀ line ∈ lines, (13 : UInt8) ∉ line) → (∀ line ∈ lines, line.head? = some (byte 'C')) →
    splitStr (headerBlock lines ++ (crlf ++ crlf ++ rest)) (crlf ++ crlf)
      = headerBlock lines :: splitStr rest (crlf ++ crlf) := by
  intro lines
  induction lines with
  | nil => intro _ _; exact splitStr_sep crlf_blank_ne_nil rest
  | cons line lines ih =>
      intro hcr hhead
      have hrest := ih (fun l hl => hcr l (List.mem_cons_of_mem _ hl))
        (fun l hl => hhead l (List.mem_cons_of_mem _ hl))
      have hlf : (13 : UInt8) ∉ (10 : UInt8) :: line := fun h =>
        (List.mem_cons.mp h).elim (by decide) (hcr line (List.mem_cons_self ..))
      have hline := splitStr_plain hlf hrest
      have hstart : startsWith (13 :: ((10 :: line) ++ (headerBlock lines ++
          (crlf ++ crlf ++ rest)))) (crlf ++ crlf) = false := by
        obtain ⟨t, ht⟩ := List.head?_eq_some_iff.mp (hhead line (List.mem_cons_self ..))
        rw [ht]
        rfl
      have hstep := splitStr_step hstart hline
      rw [headerBlock, List.flatMap_cons, List.append_assoc, List.append_assoc]
      rw [List.cons_append, List.append_assoc] at hstep
      exact hstep

/-- The name of a rendered part is found. -/
theorem FormPart.name_found {boundary : ByteString} {p : FormPart} (h : p.WellFormed boundary) :
    ∃ name, extractHeaderValue (headerBlock p.headerLines) (ascii "name") = .ok name := by
  have hoccurs : containsStr p.disposition (ascii "name" ++ ascii "=\"") = true := by
    refine containsStr_of_part (s := dispositionParam (ascii "; name=") p.name) ?_ ?_
    · exact (List.infix_of_mem_flatten p.name_mem_params).trans
        ((List.suffix_append _ _).trans (List.suffix_append _ _)).isInfix
    · exact containsStr_append (ascii "; ") (ascii "name" ++ ascii "=\"") (p.name ++ [byte '"'])
  have hvalue : (dispositionValue (ascii "name") p.disposition).isSome = true := by
    rw [← indexOf_isSome] at hoccurs
    obtain ⟨idx, hidx⟩ := Option.isSome_iff_exists.mp hoccurs
    have hstart : startsWith p.disposition (ascii "Content-Disposition:") = true :=
      startsWith_append _ _
    rw [dispositionValue, if_pos hstart]
    dsimp only
    rw [hidx]
    rfl
  have hfind : ((splitStr (headerBlock p.headerLines) crlf).findSome?
      (dispositionValue (ascii "name"))).isSome = true := by
    rw [splitStr_headerBlock (FormPart.headerLines_cr h), List.findSome?_isSome_iff]
    exact ⟨p.disposition, List.mem_cons_of_mem _ p.disposition_mem, hvalue⟩
  obtain ⟨name, hname⟩ := Option.isSome_iff_exists.mp hfind
  exact ⟨name, by rw [extractHeaderValue, hname]⟩

/-- **THE LINE BREAK.**  The content of a part comes back with the line break in front of the next
    delimiter. -/
theorem FormPart.partItem_content {boundary : ByteString} {p : FormPart}
    (h : p.WellFormed boundary) :
    ∃ item, partItem (headerBlock p.headerLines ++ (crlf ++ crlf ++ (p.content ++ crlf)))
        = some item ∧ item.content = p.content ++ crlf := by
  obtain ⟨name, hname⟩ := FormPart.name_found h
  have hsplit := splitStr_blank_line (p.content ++ crlf) (FormPart.headerLines_cr h)
    FormPart.headerLines_head
  have hjoin := intercalate_splitStr crlf_blank_ne_nil (p.content ++ crlf)
  obtain ⟨first, rest, hpieces⟩ : ∃ first rest,
      splitStr (p.content ++ crlf) (crlf ++ crlf) = first :: rest :=
    List.exists_cons_of_ne_nil (splitFrom_ne_nil _ _ 0)
  have hskip : skippedPart
      (headerBlock p.headerLines ++ (crlf ++ crlf ++ (p.content ++ crlf))) = false := by
    obtain ⟨line, lines, hlines⟩ := List.exists_cons_of_ne_nil
      (List.ne_nil_of_mem p.disposition_mem)
    obtain ⟨t, ht⟩ := List.head?_eq_some_iff.mp
      (FormPart.headerLines_head line (hlines ▸ List.mem_cons_self ..))
    have htext : headerBlock p.headerLines ++ (crlf ++ crlf ++ (p.content ++ crlf))
        = crlf ++ byte 'C' :: (t ++ (headerBlock lines ++
          (crlf ++ crlf ++ (p.content ++ crlf)))) := by
      rw [hlines, ht]
      simp [headerBlock]
    obtain ⟨trimmed, htrim⟩ : ∃ trimmed, trimSpace (crlf ++ byte 'C' ::
        (t ++ (headerBlock lines ++ (crlf ++ crlf ++ (p.content ++ crlf))))) = byte 'C' :: trimmed :=
      trimSpace_head (by decide) (by decide)
    rw [skippedPart, htext, htrim]
    rfl
  rw [hpieces] at hsplit hjoin
  rw [partItem, if_neg (Bool.eq_false_iff.mp hskip), parsePart, hsplit]
  dsimp only
  rw [hname]
  exact ⟨_, rfl, hjoin⟩

/-- Free of the delimiter, the first part is cut out whole. -/
theorem FormPart.splitStr_render {boundary delimiter : ByteString} {p : FormPart}
    (d : DelimiterText boundary delimiter) (h : p.Free delimiter) (rest : ByteString) :
    splitStr (headerBlock p.headerLines ++ (crlf ++ crlf ++ (p.content ++ crlf))
        ++ (delimiter ++ rest)) delimiter
      = (headerBlock p.headerLines ++ (crlf ++ crlf ++ (p.content ++ crlf)))
        :: splitStr rest delimiter := by
  have hpiece : headerBlock p.headerLines ++ (crlf ++ crlf ++ (p.content ++ crlf))
      = headerBlock p.headerLines ++ (crlf ++ crlf ++ (p.content ++ [13])) ++ [10] := by
    simp [crlf]
  have hcontent : containsStr (p.content ++ [13]) delimiter = false := by
    rw [d.before_cr p.content rfl, h.content, Bool.false_or]
    exact not_containsStr_of_mem (b := byte '-') (d.eq ▸ List.mem_cons_self ..) (by decide)
  rw [hpiece]
  refine splitStr_first_sep d.lf d.ne_nil ?_ rest
  rw [d.headerBlock rfl (p.headerLines_free d h), d.label (by decide), hcontent]

/-- Only the empty form comes back. -/
theorem formReturns_cons {boundary : ByteString} (hquotable : Quotable boundary) {p : FormPart}
    (hp : p.WellFormed boundary) (quotes : Bool) (parts : List FormPart) (ending : ByteString) :
    ¬FormReturns boundary quotes (p :: parts) ending := by
  rintro ⟨parser, hparser, hparse⟩
  have hboundary : byte '"' ∉ boundary := fun hmem => (hquotable _ hmem).1 rfl
  rw [newMultipartParser_form hboundary] at hparser
  obtain rfl := Except.ok.inj (Option.some.inj hparser)
  have d := DelimiterText.of_quotable hquotable
  -- the first item was read off a piece, and a piece does not hold the delimiter
  have hmem : p.item ∈ MultipartParser.parse
      ⟨boundary, renderForm boundary (p :: parts) ending⟩ :=
    hparse ▸ List.mem_cons_self ..
  obtain ⟨part, htaken, hpart⟩ := parse_takenFrom hmem
  have hfree : p.Free (ascii "--" ++ boundary) := FormPart.free_of_item d htaken hpart
  -- so the first piece is the first part, with the line break behind its content
  obtain ⟨item, hitem, hcontent⟩ := FormPart.partItem_content hp
  obtain ⟨rest, hrest⟩ : ∃ rest, parts.flatMap (FormPart.render boundary)
      ++ (ascii "--" ++ boundary ++ (ascii "--" ++ ending)) = ascii "--" ++ boundary ++ rest := by
    cases parts with
    | nil => exact ⟨_, rfl⟩
    | cons second parts =>
        refine ⟨headerBlock second.headerLines ++ (crlf ++ crlf ++ (second.content ++ crlf))
          ++ (parts.flatMap (FormPart.render boundary)
            ++ (ascii "--" ++ boundary ++ (ascii "--" ++ ending))), ?_⟩
        simp only [List.flatMap_cons, FormPart.render, List.append_assoc]
  have hdata : renderForm boundary (p :: parts) ending = ascii "--" ++ boundary ++
      (headerBlock p.headerLines ++ (crlf ++ crlf ++ (p.content ++ crlf))
        ++ (ascii "--" ++ boundary ++ rest)) := by
    rw [renderForm, List.flatMap_cons, FormPart.render, List.append_assoc, List.append_assoc, hrest]
  rw [MultipartParser.parse, MultipartParser.delimiter, hdata, splitStr_sep d.ne_nil,
    FormPart.splitStr_render d hfree, List.filterMap_cons_none (by decide),
    List.filterMap_cons_some hitem, List.map_cons] at hparse
  have hlen := congrArg List.length (hcontent.symm.trans (congrArg (·.content)
    (List.cons.inj hparse).1))
  rw [List.length_append] at hlen
  exact absurd hlen (by rw [FormPart.item]; simp [crlf])

theorem formReturns_nil {boundary : ByteString} (hquotable : Quotable boundary)
    (hne : boundary ≠ []) (quotes : Bool) {ending : ByteString}
    (hending : ending = [] ∨ ending = crlf) : FormReturns boundary quotes [] ending := by
  have hboundary : byte '"' ∉ boundary := fun hmem => (hquotable _ hmem).1 rfl
  have d := DelimiterText.of_quotable hquotable
  refine ⟨_, newMultipartParser_form hboundary quotes _, ?_⟩
  have hdashes : containsStr (ascii "--") (ascii "--" ++ boundary) = false := by
    rw [Bool.eq_false_iff]
    intro hcontains
    have hlen := (containsStr_iff_within.mp hcontains).length_le
    rw [List.length_append] at hlen
    exact hne (List.eq_nil_of_length_eq_zero (by omega))
  have hfree : containsStr (ascii "--" ++ ending) (ascii "--" ++ boundary) = false := by
    rcases hending with rfl | rfl
    · rw [List.append_nil, hdashes]
    · rw [d.before_cr (ascii "--") rfl, hdashes, Bool.false_or]
      exact not_containsStr_of_mem (b := byte '-') (d.eq ▸ List.mem_cons_self ..) (by decide)
  show (splitStr (ascii "--" ++ boundary ++ (ascii "--" ++ ending))
    (ascii "--" ++ boundary)).filterMap partItem = []
  rw [splitStr_sep d.ne_nil, splitStr_free hfree]
  rcases hending with rfl | rfl <;> decide

/-- **THE ROUND TRIP.**  A form comes back from its parser exactly if it has no parts. -/
theorem formReturns_iff {boundary : ByteString} (hne : boundary ≠ []) (hquotable : Quotable boundary)
    (quotes : Bool) {parts : List FormPart} (hparts : ∀ p ∈ parts, p.WellFormed boundary)
    {ending : ByteString} (hending : ending = [] ∨ ending = crlf) :
    FormReturns boundary quotes parts ending ↔ parts = [] := by
  constructor
  · intro h
    cases parts with
    | nil => rfl
    | cons p parts =>
        exact absurd h (formReturns_cons hquotable (hparts p (List.mem_cons_self ..)) quotes parts
          ending)
  · rintro rfl
    exact formReturns_nil hquotable hne quotes hending

/-- A field `a` with the content `1`. -/
def fieldA : FormPart where
  name := ascii "a"
  filename := none
  contentType := none
  content := ascii "1"
  filenameFirst := false
  typeFirst := false

theorem fieldA_wellFormed : fieldA.WellFormed (ascii "X") where
  name := by unfold Quotable; decide
  filename := nofun
  contentType := nofun
  content := by decide

theorem formReturns_iff_fieldA : FormReturns (ascii "X") false [fieldA] crlf ↔ [fieldA] = [] :=
  formReturns_iff (by decide) (by unfold Quotable; decide) false
    (fun _ h => List.mem_singleton.mp h ▸ fieldA_wellFormed) (.inr rfl)

/-- The content `1` of a single field comes back as `1` and a line break. -/
theorem content_grows :
    FormPart.WellFormed (ascii "X") fieldA ∧
      MultipartParser.parse ⟨ascii "X", renderForm (ascii "X") [fieldA] crlf⟩
        = [{ fieldA.item with content := ascii "1\r\n" }] ∧
      ¬FormReturns (ascii "X") false [fieldA] crlf := by
  have hitems : MultipartParser.parse ⟨ascii "X", renderForm (ascii "X") [fieldA] crlf⟩
      = [{ fieldA.item with content := ascii "1\r\n" }] := by decide
  refine ⟨fieldA_wellFormed, hitems, ?_⟩
  rintro ⟨parser, hparser, hparse⟩
  rw [newMultipartParser_form (by decide)] at hparser
  obtain rfl := Except.ok.inj (Option.some.inj hparser)
  rw [hitems] at hparse
  exact absurd hparse (by decide)

end VHono
