import VHono.FileStreams
import VHono.MultipartRoundTrip
import VHono.ProviderSwitches

/-! # The file API

    The handlers of the file service for uploads, downloads and deletions over
    HTTP, and runs of them.  A call reaches the service as one of its calls at
    most, so a run of requests serves what a run of the service serves.  A file
    that is sent as a form comes back under its name and with a line break
    behind it, until it is deleted. -/

namespace VHono

open ByteString HttpGrammar MachineRuns

/-! ## The handlers -/

structure StorageApiResponse where
  success : Bool
  message : ByteString
  data    : ByteString

/-- What the JSON library makes of the answers. -/
structure ApiJson where
  error  : StorageErrorResponse → ByteString
  result : UploadResult → ByteString
  answer : StorageApiResponse → ByteString

/-- The fields of a form, as the loop over its items collects them. -/
structure UploadFields where
  fileData        : ByteString := []
  filename        : ByteString := []
  fileContentType : ByteString := ascii "application/octet-stream"
  bucket          : ByteString := []
  metadata        : ByteString := []

namespace UploadFields

def collect (fields : UploadFields) (item : MultipartItem) : UploadFields :=
  if item.name = ascii "file" then
    { fields with
      fileData := item.content
      filename := item.filename
      fileContentType :=
        if item.contentType ≠ [] then item.contentType else fields.fileContentType }
  else if item.name = ascii "bucket" then { fields with bucket := item.content }
  else if item.name = ascii "metadata" then { fields with metadata := item.content }
  else if item.name = ascii "content_type" then { fields with fileContentType := item.content }
  else fields

def params (fields : UploadFields) : UploadParams where
  bucket := fields.bucket
  filename := fields.filename
  contentType := fields.fileContentType
  metadata := fields.metadata

end UploadFields

namespace FileService

variable {π κ : Type} (json : ApiJson)

/-- What a form asks to be uploaded, or the error; `none` is a panic of the parser. -/
def readUpload (ctx : Context) : Option (Except ByteString (UploadParams × ByteString)) :=
  let contentType := (ctx.req.header.getCustom (ascii "Content-Type")).getD []
  if startsWith contentType (ascii "multipart/form-data") = false then
    some (.error (ascii "Content-Type must be multipart/form-data"))
  else
    (newMultipartParser contentType ctx.body).map (fun parser =>
      match parser with
      | .error err => .error (ascii "Failed to parse multipart data: " ++ err)
      | .ok parser =>
        let fields := parser.parse.foldl UploadFields.collect {}
        if fields.fileData.length = 0 ∨ fields.filename = [] then
          .error (ascii "Missing file data or filename")
        else .ok (fields.params, fields.fileData))

/-- The errors of the two queries and of the provider. -/
structure ServeIo where
  info     : Option ByteString := none
  download : DownloadIo := {}

def handleDownload (fs : FileService π κ) (io : ServeIo) (ctx : Context) :
    Option (Context × HttpResponse) :=
  match ctx.params.get? (ascii "file_uuid") with
  | none => some (ctx.fail json.error 400 (ascii "Missing file_uuid parameter"))
  | some fileUuid =>
    match fs.db.getFileByUuid io.info fileUuid with
    | .error err => some (ctx.fail json.error 404 (ascii "File not found: " ++ err))
    | .ok fileInfo =>
      let rangeHeader := (ctx.req.header.getCustom (ascii "Range")).getD []
      if rangeHeader ≠ [] then
        handleRangeDownload json.error (fs.downloadFile io.download) ctx fileInfo rangeHeader
      else
        match fs.downloadFile io.download fileUuid with
        | .error err => some (ctx.fail json.error 500 (ascii "Download failed: " ++ err))
        | .ok data =>
          let ctx := (ctx.setHeader (ascii "Content-Type") fileInfo.fileType).setHeader
            (ascii "Content-Length") (decimal data.length)
          let ctx := (ctx.setHeader (ascii "Content-Disposition")
            (ascii "attachment; filename=\"" ++ fileInfo.fileName ++ ascii "\"")).setHeader
              (ascii "Accept-Ranges") (ascii "bytes")
          let ctx := (ctx.setHeader (ascii "ETag")
            (ascii "\"" ++ fileInfo.fileHash ++ ascii "\"")).status 200
          some (ctx, { statusCode := 200
                       header := Header.addAll [] ctx.headers.entries
                       body := data })

variable [DecidableEq π] [DecidableEq κ]

def handleUpload (fs : FileService π κ) (io : UploadIo) (ctx : Context) :
    Option (FileService π κ × Context × HttpResponse) :=
  (readUpload ctx).map (fun request =>
    match request with
    | .error err => (fs, ctx.fail json.error 400 err)
    | .ok (params, data) =>
      let uploaded := fs.uploadFile io params data
      match uploaded.2 with
      | .error err => (uploaded.1, ctx.fail json.error 500 (ascii "Upload failed: " ++ err))
      | .ok result =>
        let ctx := ctx.status 201
        (uploaded.1, ctx, ctx.json (json.result result)))

def handleDelete (fs : FileService π κ) (io : DeleteIo) (ctx : Context) :
    FileService π κ × Context × HttpResponse :=
  match ctx.params.get? (ascii "file_uuid") with
  | none => (fs, ctx.fail json.error 400 (ascii "Missing file_uuid parameter"))
  | some fileUuid =>
    let deleted := fs.deleteFile io fileUuid
    match deleted.2 with
    | .error err => (deleted.1, ctx.fail json.error 500 (ascii "Delete failed: " ++ err))
    | .ok _ =>
      let ctx := ctx.status 200
      (deleted.1, ctx, ctx.json (json.answer
        { success := true, message := ascii "File deleted successfully", data := [] }))

end FileService

/-! ## The machine -/

/-- A request to one of the handlers, with what its handler meets. -/
inductive ApiCall
  | upload (io : FileService.UploadIo) (ctx : Context)
  | download (io : FileService.ServeIo) (ctx : Context)
  | delete (io : FileService.DeleteIo) (ctx : Context)

namespace FileService

variable {π κ : Type} [DecidableEq π] [DecidableEq κ] (json : ApiJson)

/-- The service after a request, and its answer. -/
def handle (fs : FileService π κ) (call : ApiCall) :
    Option (FileService π κ × Context × HttpResponse) :=
  match call with
  | .upload io ctx => fs.handleUpload json io ctx
  | .download io ctx => (fs.handleDownload json io ctx).map (fun answer => (fs, answer))
  | .delete io ctx => some (fs.handleDelete json io ctx)

end FileService

/-- The call of the service that a request comes to. -/
def ApiCall.fileCall : ApiCall → Option FileCall
  | .upload io ctx =>
    match FileService.readUpload ctx with
    | some (.ok (params, data)) => some (.upload io params data)
    | _ => none
  | .download _ _ => none
  | .delete io ctx => (ctx.params.get? (ascii "file_uuid")).map (.delete io)

namespace FileService

variable {π κ : Type} [DecidableEq π] [DecidableEq κ] (json : ApiJson)

/-- The ledger goes on as that of the service does. -/
def apiStep (s : Kept π κ) (call : ApiCall) : Kept π κ × Option (Context × HttpResponse) :=
  match s.1.handle json call with
  | none => (s, none)
  | some (fs, answer) =>
    let ledger := match call.fileCall with
      | some fileCall => note s.2 s.1.provider fileCall (s.1.step fileCall).2
      | none => s.2
    ((fs, ledger), some answer)

/-- **A REQUEST IS ONE CALL** of the service at most. -/
theorem apiStep_eq (s : Kept π κ) (call : ApiCall) : (apiStep json s call).1
    = match call.fileCall with
      | some fileCall => (ledgerStep s fileCall).1
      | none => s := by
  cases call with
  | upload io ctx =>
      rw [apiStep, handle, handleUpload, ApiCall.fileCall]
      cases hread : readUpload ctx with
      | none => rfl
      | some request =>
          cases request with
          | error err => rfl
          | ok request =>
              obtain ⟨params, data⟩ := request
              dsimp only [Option.map_some]
              cases hresult : (s.1.uploadFile io params data).2 with
              | error err => rfl
              | ok result => rfl
  | download io ctx =>
      rw [apiStep, handle, ApiCall.fileCall]
      cases s.1.handleDownload json io ctx with
      | none => rfl
      | some answer => rfl
  | delete io ctx =>
      rw [apiStep, handle, handleDelete, ApiCall.fileCall]
      cases hget : ctx.params.get? (ascii "file_uuid") with
      | none => rfl
      | some fileUuid =>
          dsimp only [Option.map_some]
          cases hresult : (s.1.deleteFile io fileUuid).2 with
          | error err => rfl
          | ok _ => rfl

end FileService

/-! ## A form as the parser reads it -/

/-- The search stops at the first place where the pattern can stand. -/
theorem indexOf_first {pat m : ByteString}
    (h : ∀ t ∈ m.tails, t ≠ [] → startsWith (t ++ pat) pat = false) (s : ByteString) :
    indexOf pat (m ++ (pat ++ s)) = some m.length := by
  induction m with
  | nil => exact indexOf_here (startsWith_append _ _)
  | cons b m ih =>
      have hstart : startsWith (b :: (m ++ (pat ++ s))) pat = false := by
        have hnow := h (b :: m) ((List.mem_tails _ _).mpr List.suffix_rfl) (List.cons_ne_nil _ _)
        rw [Bool.eq_false_iff] at hnow ⊢
        intro hstart
        have hlong : b :: m ++ pat <+: b :: (m ++ (pat ++ s)) := ⟨s, by simp⟩
        refine hnow (startsWith_iff.mpr
          (List.prefix_of_prefix_length_le (startsWith_iff.mp hstart) hlong ?_))
        rw [List.length_append]
        exact Nat.le_add_left _ _
      have hrest := ih (fun t ht => h t ((List.mem_tails _ _).mpr
        (((List.mem_tails _ _).mp ht).trans (List.suffix_cons b m))))
      rw [List.cons_append, indexOf_skip hstart, hrest]
      rfl

/-- A quoted value, behind the first place where its parameter can stand. -/
theorem dispositionValue_quoted {key before value line rest : ByteString}
    (hline : line = before ++ (key ++ ascii "=\"" ++ (value ++ byte '"' :: rest)))
    (hstart : startsWith line (ascii "Content-Disposition:") = true)
    (hfirst : ∀ t ∈ before.tails, t ≠ [] →
      startsWith (t ++ (key ++ ascii "=\"")) (key ++ ascii "=\"") = false)
    (hvalue : byte '"' ∉ value) : dispositionValue key line = some value := by
  have hindex : indexOf (key ++ ascii "=\"") line = some before.length := by
    rw [hline]
    exact indexOf_first hfirst _
  have hquote : indexFrom (ascii "\"") line (before.length + (key ++ ascii "=\"").length)
      = some (before.length + (key ++ ascii "=\"").length + value.length) := by
    have hfound : indexOf (ascii "\"") (value ++ byte '"' :: rest) = some value.length :=
      indexOf_found hvalue
    rw [hline, ← List.append_assoc, ← List.length_append, indexFrom_append, hfound, Option.map_some,
      Nat.add_comm]
  rw [dispositionValue, if_pos hstart]
  dsimp only
  rw [hindex]
  dsimp only
  rw [hquote, Option.getD_some]
  have hparts : line = before ++ (key ++ ascii "=\"") ++ (value ++ byte '"' :: rest) := by
    rw [hline, ← List.append_assoc]
  exact congrArg some (slice_eq hparts List.length_append.symm rfl)

namespace FormPart

variable {boundary : ByteString} {p : FormPart}

/-- A part from the end of its delimiter to the next. -/
def piece (p : FormPart) : ByteString :=
  headerBlock p.headerLines ++ (crlf ++ crlf ++ (p.content ++ crlf))

theorem disposition_name (h : p.WellFormed boundary) (hfirst : p.filenameFirst = false) :
    dispositionValue (ascii "name") p.disposition = some p.name := by
  have hline : ∃ rest, p.disposition = ascii "Content-Disposition: form-data; " ++
      (ascii "name" ++ ascii "=\"" ++ (p.name ++ byte '"' :: rest)) := by
    cases hf : p.filename with
    | none => exact ⟨[], by simp [disposition, params, hf, dispositionParam, ascii, byte]⟩
    | some f =>
        exact ⟨dispositionParam (ascii "; filename=") f,
          by simp [disposition, params, hf, hfirst, dispositionParam, ascii, byte]⟩
  obtain ⟨rest, hrest⟩ := hline
  exact dispositionValue_quoted hrest (startsWith_append _ _) (by decide)
    (fun hmem => (h.name _ hmem).1 rfl)

theorem disposition_filename (h : p.WellFormed boundary) (hfirst : p.filenameFirst = false)
    (hname : p.name = ascii "file") {f : ByteString} (hf : p.filename = some f) :
    dispositionValue (ascii "filename") p.disposition = some f := by
  have hline : p.disposition = ascii "Content-Disposition: form-data; name=\"file\"; " ++
      (ascii "filename" ++ ascii "=\"" ++ (f ++ byte '"' :: [])) := by
    simp [disposition, params, hf, hfirst, hname, dispositionParam, ascii, byte]
  exact dispositionValue_quoted hline (startsWith_append _ _) (by decide)
    (fun hmem => (h.filename f hf _ hmem).1 rfl)

/-- Of the lines of a header only that of the disposition is searched. -/
theorem extractHeaderValue_line (h : p.WellFormed boundary) {key value : ByteString}
    (hvalue : dispositionValue key p.disposition = some value) :
    extractHeaderValue (headerBlock p.headerLines) key = .ok value := by
  have hfind : ((splitStr (headerBlock p.headerLines) crlf).findSome?
      (dispositionValue key)) = some value := by
    have hsome : ((splitStr (headerBlock p.headerLines) crlf).findSome?
        (dispositionValue key)).isSome = true := by
      rw [splitStr_headerBlock (headerLines_cr h), List.findSome?_isSome_iff]
      exact ⟨p.disposition, List.mem_cons_of_mem _ p.disposition_mem, by rw [hvalue]; rfl⟩
    obtain ⟨found, hfound⟩ := Option.isSome_iff_exists.mp hsome
    obtain ⟨line, hline, hread⟩ := List.exists_of_findSome?_eq_some hfound
    rw [splitStr_headerBlock (headerLines_cr h)] at hline
    rcases List.mem_cons.mp hline with rfl | hline
    · cases hread
    · rcases mem_headerLines hline with rfl | ⟨t, -, rfl⟩
      · rw [hfound, ← hread, hvalue]
      · cases hread
  rw [extractHeaderValue, hfind]

end FormPart

/-- What an item has of the header of its part. -/
theorem partItem_header {part header : ByteString} {rest : List ByteString} {item : MultipartItem}
    (hsplit : splitStr part (crlf ++ crlf) = header :: rest) (h : partItem part = some item) :
    extractHeaderValue header (ascii "name") = .ok item.name ∧
      item.filename = headerValueOr header (ascii "filename") [] := by
  rw [partItem] at h
  split at h
  · cases h
  · rw [parsePart, hsplit] at h
    cases rest with
    | nil => cases h
    | cons first rest =>
        dsimp only at h
        cases hname : extractHeaderValue header (ascii "name") with
        | error err =>
            rw [hname] at h
            cases h
        | ok name =>
            rw [hname] at h
            obtain rfl := Option.some.inj h
            exact ⟨rfl, rfl⟩

/-- What comes back of a part: its name, its content and a line break; of a file its name too. -/
structure FormPart.ReadAs (p : FormPart) (item : MultipartItem) : Prop where
  name : item.name = p.name
  content : item.content = p.content ++ crlf
  filename : p.name = ascii "file" → ∀ f ∈ p.filename, item.filename = f

theorem FormPart.partItem_piece {boundary : ByteString} {p : FormPart} (h : p.WellFormed boundary)
    (hfirst : p.filenameFirst = false) : ∃ item, partItem p.piece = some item ∧ p.ReadAs item := by
  obtain ⟨item, hitem, hcontent⟩ := FormPart.partItem_content h
  obtain ⟨hname, hfilename⟩ := partItem_header (splitStr_blank_line (p.content ++ crlf)
    (FormPart.headerLines_cr h) FormPart.headerLines_head) hitem
  refine ⟨item, hitem, ?_, hcontent, ?_⟩
  · rw [FormPart.extractHeaderValue_line h (FormPart.disposition_name h hfirst)] at hname
    exact (Except.ok.inj hname).symm
  · intro hfile f hf
    rw [hfilename, headerValueOr, FormPart.extractHeaderValue_line h
      (FormPart.disposition_filename h hfirst hfile hf)]

section Forms

variable {boundary : ByteString}

/-- A part that is cut out whole and read by its name: its values keep off quotes, line breaks and
    the delimiter, and its name comes first. -/
structure FormPart.Readable (boundary : ByteString) (p : FormPart) : Prop where
  wellFormed : p.WellFormed boundary
  free : p.Free (ascii "--" ++ boundary)
  nameFirst : p.filenameFirst = false

theorem ending_free (d : DelimiterText boundary (ascii "--" ++ boundary)) (hne : boundary ≠ [])
    {ending : ByteString} (hending : ending = [] ∨ ending = crlf) :
    containsStr (ascii "--" ++ ending) (ascii "--" ++ boundary) = false := by
  have hdashes : containsStr (ascii "--") (ascii "--" ++ boundary) = false := by
    rw [Bool.eq_false_iff]
    intro hcontains
    have hlen := (containsStr_iff_within.mp hcontains).length_le
    rw [List.length_append] at hlen
    exact hne (List.eq_nil_of_length_eq_zero (by omega))
  rcases hending with rfl | rfl
  · rw [List.append_nil, hdashes]
  · rw [d.before_cr (ascii "--") rfl, hdashes, Bool.false_or]
    exact not_containsStr_of_mem (b := byte '-') (d.eq ▸ List.mem_cons_self ..) (by decide)

/-- Behind its first delimiter a form falls apart into its parts. -/
theorem splitStr_form (d : DelimiterText boundary (ascii "--" ++ boundary)) (hne : boundary ≠ [])
    {ending : ByteString} (hending : ending = [] ∨ ending = crlf) {parts : List FormPart}
    (hparts : ∀ p ∈ parts, p.Readable boundary) :
    ∃ rest, renderForm boundary parts ending = ascii "--" ++ boundary ++ rest ∧
      splitStr rest (ascii "--" ++ boundary)
        = parts.map FormPart.piece ++ [ascii "--" ++ ending] := by
  induction parts with
  | nil => exact ⟨_, rfl, splitStr_free (ending_free d hne hending)⟩
  | cons p parts ih =>
      obtain ⟨rest, hrest, hsplit⟩ := ih (fun q hq => hparts q (List.mem_cons_of_mem _ hq))
      have hcut := FormPart.splitStr_render d (hparts p (List.mem_cons_self ..)).free rest
      refine ⟨p.piece ++ (ascii "--" ++ boundary ++ rest), ?_, ?_⟩
      · rw [← hrest, renderForm, List.flatMap_cons, FormPart.render, List.append_assoc,
          List.append_assoc]
        rfl
      · rw [List.map_cons, List.cons_append, ← hsplit]
        exact hcut

/-- **A FORM COMES BACK PART BY PART.** -/
theorem parse_form (hquotable : Quotable boundary) (hne : boundary ≠ []) {ending : ByteString}
    (hending : ending = [] ∨ ending = crlf) {parts : List FormPart}
    (hparts : ∀ p ∈ parts, p.Readable boundary) :
    List.Forall₂ FormPart.ReadAs parts
      (MultipartParser.parse ⟨boundary, renderForm boundary parts ending⟩) := by
  have d := DelimiterText.of_quotable hquotable
  obtain ⟨rest, hrest, hsplit⟩ := splitStr_form d hne hending hparts
  have hend : partItem (ascii "--" ++ ending) = none := by
    rcases hending with rfl | rfl <;> decide
  rw [MultipartParser.parse, MultipartParser.delimiter, hrest, splitStr_sep d.ne_nil, hsplit,
    List.filterMap_cons_none (by decide), List.filterMap_append, List.filterMap_cons_none hend,
    List.filterMap_nil, List.append_nil]
  clear hrest hsplit
  induction parts with
  | nil => exact .nil
  | cons p parts ih =>
      have hp := hparts p (List.mem_cons_self ..)
      obtain ⟨item, hitem, hread⟩ := FormPart.partItem_piece hp.wellFormed hp.nameFirst
      rw [List.map_cons, List.filterMap_cons_some hitem]
      exact .cons hread (ih (fun q hq => hparts q (List.mem_cons_of_mem _ hq)))

end Forms

/-! ## What a form asks for -/

namespace UploadFields

theorem collect_other {item : MultipartItem} (h : item.name ≠ ascii "file")
    (fields : UploadFields) : (fields.collect item).fileData = fields.fileData ∧
      (fields.collect item).filename = fields.filename := by
  rw [collect, if_neg h]
  split_ifs <;> exact ⟨rfl, rfl⟩

theorem collect_others {parts : List FormPart} {items : List MultipartItem}
    (h : List.Forall₂ FormPart.ReadAs parts items) (hparts : ∀ p ∈ parts, p.name ≠ ascii "file") :
    ∀ fields : UploadFields, (items.foldl collect fields).fileData = fields.fileData ∧
      (items.foldl collect fields).filename = fields.filename := by
  induction h with
  | nil => exact fun _ => ⟨rfl, rfl⟩
  | cons hread _ ih =>
      intro fields
      have hname := hread.name ▸ hparts _ (List.mem_cons_self ..)
      obtain ⟨hdata, hfilename⟩ := ih (fun p hp => hparts p (List.mem_cons_of_mem _ hp)) _
      obtain ⟨hdata', hfilename'⟩ := collect_other hname fields
      exact ⟨hdata.trans hdata', hfilename.trans hfilename'⟩

/-- The last file of a form is the one that is uploaded. -/
theorem collect_file {before after : List FormPart} {file : FormPart} {filename : ByteString}
    (hname : file.name = ascii "file") (hfilename : file.filename = some filename)
    (hafter : ∀ p ∈ after, p.name ≠ ascii "file") :
    ∀ {items : List MultipartItem},
      List.Forall₂ FormPart.ReadAs (before ++ file :: after) items → ∀ fields : UploadFields,
      (items.foldl collect fields).fileData = file.content ++ crlf ∧
      (items.foldl collect fields).filename = filename := by
  induction before with
  | nil =>
      rintro _ (_ | ⟨hread, hrest⟩) fields
      obtain ⟨hdata, hlast⟩ := collect_others hrest hafter (fields.collect _)
      rw [List.foldl_cons, hdata, hlast, collect, if_pos (hread.name.trans hname)]
      exact ⟨hread.content, hread.filename hname filename hfilename⟩
  | cons p before ih =>
      rintro _ (_ | ⟨-, hrest⟩) fields
      exact ih hrest _

end UploadFields

/-- A form with a file among its fields. -/
structure FileForm where
  boundary : ByteString
  quotes   : Bool
  before   : List FormPart
  file     : FormPart
  filename : ByteString
  after    : List FormPart
  ending   : ByteString
  boundary_ne : boundary ≠ []
  boundary_quotable : Quotable boundary
  readable : ∀ p ∈ before ++ file :: after, p.Readable boundary
  file_name : file.name = ascii "file"
  file_filename : file.filename = some filename
  filename_ne : filename ≠ []
  last_file : ∀ p ∈ after, p.name ≠ ascii "file"
  closed : ending = [] ∨ ending = crlf

/-- The request carries the form. -/
structure FileForm.SentIn (form : FileForm) (ctx : Context) : Prop where
  contentType : ctx.req.header.getCustom (ascii "Content-Type")
    = some (formContentType form.boundary form.quotes)
  body : ctx.body
    = renderForm form.boundary (form.before ++ form.file :: form.after) form.ending

/-- What arrives of the file. -/
def FileForm.arrived (form : FileForm) : ByteString := form.file.content ++ crlf

theorem FileForm.readUpload (form : FileForm) {ctx : Context} (h : form.SentIn ctx) :
    ∃ params : UploadParams, params.filename = form.filename ∧
      FileService.readUpload ctx = some (.ok (params, form.arrived)) := by
  have hquote : byte '"' ∉ form.boundary := fun hmem => (form.boundary_quotable _ hmem).1 rfl
  have hitems := parse_form form.boundary_quotable form.boundary_ne form.closed form.readable
  obtain ⟨hdata, hname⟩ :=
    UploadFields.collect_file form.file_name form.file_filename form.last_file hitems {}
  have hform : startsWith (formContentType form.boundary form.quotes)
      (ascii "multipart/form-data") = true := startsWith_append _ _
  have hgiven : ¬ ((form.arrived).length = 0 ∨ form.filename = []) := by
    rintro (hlength | hnil)
    · rw [FileForm.arrived, List.length_append] at hlength
      exact absurd (Nat.le_add_left crlf.length _) (by rw [hlength]; decide)
    · exact form.filename_ne hnil
  refine ⟨UploadFields.params _, hname, ?_⟩
  rw [FileService.readUpload, h.contentType, h.body, Option.getD_some, hform]
  dsimp only
  rw [if_neg (by decide), newMultipartParser_form hquote, Option.map_some]
  dsimp only
  rw [hdata, hname]
  exact congrArg some (if_neg hgiven)

/-! ## Runs -/

namespace FileService

variable {π κ : Type}

theorem note_upload_refused {ledger : Ledger π} {provider : π} {io : UploadIo}
    {params : UploadParams} {content : ByteString} {out : Except ByteString UploadResult}
    (h : ∀ result, out ≠ .ok result) :
    note ledger provider (.upload io params content) (.uploaded out) = ledger := by
  cases out with
  | error err => rfl
  | ok result => exact absurd rfl (h result)

theorem note_delete_refused {ledger : Ledger π} {provider : π} {io : DeleteIo} {uuid : ByteString}
    {out : Except ByteString Unit} (h : out ≠ .ok ()) :
    note ledger provider (.delete io uuid) (.deleted out) = ledger := by
  cases out with
  | error err => rfl
  | ok _ => exact absurd rfl h

theorem switchProvider_db (fs : FileService π κ) (create : Option ByteString)
    (config : StorageConfig) : (fs.switchProvider create config).1.db = fs.db := by
  fun_cases switchProvider fs create config <;> rfl

/-- A file that is to be served, by its record and the ledger. -/
structure HoldsFile (s : Kept π κ) (fileUuid filename data : ByteString) : Prop where
  record : ∃ info, s.1.db.files.get? fileUuid = some info ∧ info.fileName = filename
  entry : ∃ h, s.2 fileUuid = some h ∧ h.data = data

variable {s : Kept π κ} {fileUuid filename data : ByteString}

theorem HoldsFile.congr {t : Kept π κ} (h : HoldsFile s fileUuid filename data)
    (hfiles : t.1.db.files.get? fileUuid = s.1.db.files.get? fileUuid)
    (hledger : t.2 fileUuid = s.2 fileUuid) : HoldsFile t fileUuid filename data where
  record := by
    rw [hfiles]
    exact h.record
  entry := by
    rw [hledger]
    exact h.entry

/-- A file that is held and served is downloaded under its name. -/
theorem HoldsFile.downloaded (json : ApiJson) (h : HoldsFile s fileUuid filename data)
    (hserves : Serves s) {ctx : Context}
    (huuid : ctx.params.get? (ascii "file_uuid") = some fileUuid)
    (hrange : ctx.req.header.getCustom (ascii "Range") = none) :
    ∃ answer, s.1.handleDownload json {} ctx = some answer ∧ answer.2.statusCode = 200 ∧
      answer.2.body = data ∧ answer.1.headers.get? (ascii "Content-Disposition")
        = some (ascii "attachment; filename=\"" ++ filename ++ ascii "\"") := by
  obtain ⟨⟨info, hget, rfl⟩, held, hheld, rfl⟩ := h
  have hdownload : s.1.downloadFile ({} : ServeIo).download fileUuid = .ok held.data :=
    hserves fileUuid held hheld
  rw [handleDownload, huuid]
  dsimp only
  rw [UploadTables.getFileByUuid_of_get hget]
  dsimp only
  rw [hrange, Option.getD_none, if_neg (not_not_intro rfl), hdownload]
  refine ⟨_, rfl, rfl, rfl, ?_⟩
  have haccept : ascii "Content-Disposition" ≠ ascii "Accept-Ranges" := by decide
  have hetag : ascii "Content-Disposition" ≠ ascii "ETag" := by decide
  show (((InsertionMap.insert _ _ _).insert _ _).insert _ _).get? _ = _
  rw [InsertionMap.get?_insert_ne _ _ hetag, InsertionMap.get?_insert_ne _ _ haccept,
    InsertionMap.get?_insert_self]

/-- A new service keeps nothing, so it keeps it well. -/
theorem sound_new (providers : Providers π κ) (md5 : ByteString → ByteString)
    (config : FileServiceConfig) (storage : StorageConfig) (objects : π → κ → Option ByteString) :
    Sound (new providers md5 config storage objects, (fun _ => none : Ledger π)) where
  linked := fun _ => rfl
  holds := fun _ _ hh => by cases hh
  serves := fun _ _ hh => by cases hh

variable [DecidableEq π] [DecidableEq κ] (json : ApiJson)

theorem holdsFile_upload {io : UploadIo} {params : UploadParams} {result : UploadResult}
    (h : (s.1.uploadFile io params data).2 = .ok result) :
    HoldsFile (ledgerStep s (.upload io params data)).1 result.fileUuid params.filename data := by
  obtain ⟨-, -, ⟨-, -, hno⟩ | ⟨-, -, ⟨-, hno⟩ |
    ⟨row, result', hok, hrow, huuid, -, -, -, hfiles⟩⟩⟩ := s.1.uploadFile_spec io params data
  · exact absurd h (hno result)
  · exact absurd h (hno result)
  · obtain rfl := Except.ok.inj (h.symm.trans hok)
    have hname : row.fileName = params.filename := by rw [hrow]; rfl
    refine ⟨⟨row, ?_, hname⟩, ?_⟩
    · show (s.1.uploadFile io params data).1.db.files.get? result.fileUuid = some row
      rw [hfiles, huuid, InsertionMap.get?_insert_self]
    · show ∃ h', note s.2 s.1.provider (.upload io params data)
        (.uploaded (s.1.uploadFile io params data).2) result.fileUuid = some h' ∧ h'.data = data
      rw [h, note, Function.update_self]
      exact ⟨_, rfl, rfl⟩

/-- Only its own deletion takes a file from the records and the ledger. -/
theorem HoldsFile.step (h : HoldsFile s fileUuid filename data) (call : FileCall)
    (hkept : ∀ io, call = .delete io fileUuid → (s.1.deleteFile io fileUuid).2 ≠ .ok ()) :
    HoldsFile (ledgerStep s call).1 fileUuid filename data := by
  cases call with
  | upload io params content =>
      obtain ⟨-, -, ⟨-, hsame, hno⟩ | ⟨-, -, ⟨hfiles, hno⟩ |
        ⟨row, result, hok, -, huuid, -, -, hfree, hfiles⟩⟩⟩ := s.1.uploadFile_spec io params content
      · exact h.congr (congrArg (fun fs => fs.db.files.get? fileUuid) hsame)
          (congrFun (note_upload_refused hno) fileUuid)
      · exact h.congr (congrArg (fun files => files.get? fileUuid) hfiles)
          (congrFun (note_upload_refused hno) fileUuid)
      · -- the record is entered under an id that is free
        have hne : fileUuid ≠ row.fileUuid := by
          rintro rfl
          obtain ⟨info, hget, -⟩ := h.record
          rw [hfree] at hget
          cases hget
        refine h.congr ?_ ?_
        · show (s.1.uploadFile io params content).1.db.files.get? fileUuid = _
          rw [hfiles, InsertionMap.get?_insert_ne _ _ hne]
        · show note s.2 s.1.provider (.upload io params content)
            (.uploaded (s.1.uploadFile io params content).2) fileUuid = _
          rw [hok, note, Function.update_of_ne (huuid ▸ hne)]
  | switch create config =>
      have hdb := switchProvider_db s.1 create config
      exact h.congr (congrArg (fun db => db.files.get? fileUuid) hdb) rfl
  | delete io uuid =>
      obtain ⟨-, -, ⟨-, hsame, hno⟩ | ⟨-, -, -, ⟨-, hfiles, hno⟩ | ⟨-, hfiles, hok⟩⟩⟩ :=
        s.1.deleteFile_spec io uuid
      · exact h.congr (congrArg (fun fs => fs.db.files.get? fileUuid) hsame)
          (congrFun (note_delete_refused hno) fileUuid)
      · exact h.congr (congrArg (fun files => files.get? fileUuid) hfiles)
          (congrFun (note_delete_refused hno) fileUuid)
      · have hne : fileUuid ≠ uuid := by
          rintro rfl
          exact hkept io rfl hok
        refine h.congr ?_ ?_
        · show (s.1.deleteFile io uuid).1.db.files.get? fileUuid = _
          rw [hfiles, InsertionMap.get?_erase, if_neg hne]
        · show note s.2 s.1.provider (.delete io uuid)
            (.deleted (s.1.deleteFile io uuid).2) fileUuid = _
          rw [hok, note, Function.update_of_ne hne]

/-- A request whose call of the service is safe. -/
def SafeRequest (s : Kept π κ) (request : ApiCall) : Prop :=
  ∀ call ∈ request.fileCall, SafeFileCall s call

/-- A request to delete the file, and an answer that it is deleted. -/
def Deletes (fileUuid : ByteString)
    (e : Event (Kept π κ) ApiCall (Option (Context × HttpResponse))) : Prop :=
  ∃ io ctx answer, e.input = .delete io ctx ∧
    ctx.params.get? (ascii "file_uuid") = some fileUuid ∧
    e.output = some answer ∧ answer.2.statusCode = 200

theorem Sound.apiStep (h : Sound s) {request : ApiCall} (hsafe : SafeRequest s request) :
    Sound (apiStep json s request).1 := by
  rw [apiStep_eq]
  cases hcall : request.fileCall with
  | none => exact h
  | some call =>
      obtain ⟨hiff, hnext⟩ := ledgerStep_spec h [] call
      exact hnext (hiff.mp (hsafe call hcall)).1

theorem handleDelete_ok {fs : FileService π κ} {io : DeleteIo} {ctx : Context}
    (huuid : ctx.params.get? (ascii "file_uuid") = some fileUuid)
    (hok : (fs.deleteFile io fileUuid).2 = .ok ()) :
    (fs.handleDelete json io ctx).2.2.statusCode = 200 := by
  rw [handleDelete, huuid]
  dsimp only
  rw [hok]
  rfl

theorem HoldsFile.apiStep (h : HoldsFile s fileUuid filename data) {request : ApiCall}
    (hkept : ¬ Deletes fileUuid ⟨[], s, request, (apiStep json s request).2⟩) :
    HoldsFile (apiStep json s request).1 fileUuid filename data := by
  rw [apiStep_eq]
  cases hcall : request.fileCall with
  | none => exact h
  | some call =>
      refine h.step call ?_
      rintro io rfl hok
      -- only a request to delete comes to a deletion, and it is answered with the status 200
      cases request with
      | upload io ctx =>
          rw [ApiCall.fileCall] at hcall
          split at hcall <;> cases hcall
      | download io ctx => cases hcall
      | delete io' ctx =>
          obtain ⟨uuid, huuid, heq⟩ := Option.map_eq_some_iff.mp hcall
          obtain ⟨rfl, rfl⟩ := FileCall.delete.inj heq
          exact hkept ⟨io', ctx, _, rfl, huuid, rfl, handleDelete_ok json huuid hok⟩

/-- An upload that is answered with the status 201. -/
theorem handleUpload_created {io : UploadIo} {ctx : Context} {params : UploadParams}
    (hread : readUpload ctx = some (.ok (params, data))) {answer : Context × HttpResponse}
    (hanswer : (apiStep json s (.upload io ctx)).2 = some answer)
    (hcreated : answer.2.statusCode = 201) :
    ∃ result, (s.1.uploadFile io params data).2 = .ok result ∧
      answer.2.body = json.result result := by
  rw [apiStep, handle, handleUpload, hread, Option.map_some] at hanswer
  dsimp only at hanswer
  cases hresult : (s.1.uploadFile io params data).2 with
  | error err =>
      rw [hresult] at hanswer
      rw [← Option.some.inj hanswer] at hcreated
      exact absurd hcreated (show ¬ (500 : Int) = 201 by decide)
  | ok result =>
      rw [hresult] at hanswer
      rw [← Option.some.inj hanswer]
      exact ⟨result, rfl, rfl⟩

/-- The file `a.txt` with the content `abc`. -/
def notesFile : FormPart where
  name := ascii "file"
  filename := some (ascii "a.txt")
  contentType := none
  content := ascii "abc"
  filenameFirst := false
  typeFirst := false

theorem notesFile_readable : notesFile.Readable (ascii "X") where
  wellFormed := {
    name := by unfold Quotable; decide
    filename := by unfold Quotable; decide
    contentType := by decide
    content := by decide }
  free := {
    name := by decide
    filename := by decide
    contentType := by decide
    content := by decide }
  nameFirst := rfl

theorem mem_notes {p : FormPart} (h : p ∈ [] ++ notesFile :: []) : p.Readable (ascii "X") :=
  List.mem_singleton.mp h ▸ notesFile_readable

theorem notes_boundary : ascii "X" ≠ [] := by decide

theorem notes_quotable : Quotable (ascii "X") := by
  unfold Quotable
  decide

theorem notes_filename : ascii "a.txt" ≠ [] := by decide

/-- The form with this file. -/
def notesForm : FileForm where
  boundary := ascii "X"
  quotes := false
  before := []
  file := notesFile
  filename := ascii "a.txt"
  after := []
  ending := crlf
  boundary_ne := notes_boundary
  boundary_quotable := notes_quotable
  readable := fun _ h => mem_notes h
  file_name := rfl
  file_filename := rfl
  filename_ne := notes_filename
  last_file := fun _ h => absurd h List.not_mem_nil
  closed := Or.inr rfl

/-- The request that carries the form. -/
def notesPost : Context where
  req :=
    { method := .post
      url := ascii "/upload"
      data := []
      header := [(ascii "Content-Type", formContentType (ascii "X") false)] }
  params := .empty
  query := .empty
  url := ascii "/upload"
  path := ascii "/upload"
  statusCode := 200
  headers := .empty
  body := renderForm (ascii "X") [notesFile] crlf
  store := .empty

/-- Answers without content. -/
def emptyJson : ApiJson where
  error := fun _ => []
  result := UploadResult.fileUuid
  answer := fun _ => []

end FileService

end VHono
