import VHono.PathSafety
import VHono.Responses

/-! # Static files

    A request whose path begins with the prefix of the options is answered with
    a file below their root.  What follows the prefix is validated and joined to
    the root; for a directory its index is taken. -/

namespace VHono

open ByteString PathSegments

structure StaticOptions where
  root         : ByteString := ascii "./public"
  path         : ByteString := ascii "/"
  index        : ByteString := ascii "index.html"
  dotfiles     : Bool := false
  etag         : Bool := true
  lastModified : Bool := true
  maxAge       : Int := 0
  headers      : InsertionMap ByteString ByteString := .empty

structure FileStat where
  size  : Nat
  mtime : Int

/-- What the file system answers about a path. -/
structure FileView where
  present  : ByteString → Bool
  isDir    : ByteString → Bool
  readFile : ByteString → Option ByteString
  stat     : ByteString → Option FileStat

/-- How a request is dealt with: handed on, refused, or answered by `serve_file` with a path. -/
inductive StaticAnswer
  | next (c : Context)
  | refused (c : Context) (response : HttpResponse)
  | file (path : ByteString) (c : Context) (response : HttpResponse)

/-! ## One file -/

/-- `get_safe_content_type` -/
def safeContentTypes : List (ByteString × ByteString) :=
  [(ascii ".html", ascii "text/html; charset=utf-8"),
    (ascii ".htm", ascii "text/html; charset=utf-8"),
    (ascii ".css", ascii "text/css; charset=utf-8"),
    (ascii ".js", ascii "application/javascript; charset=utf-8"),
    (ascii ".json", ascii "application/json; charset=utf-8"),
    (ascii ".xml", ascii "application/xml; charset=utf-8"),
    (ascii ".txt", ascii "text/plain; charset=utf-8"),
    (ascii ".md", ascii "text/markdown; charset=utf-8"), (ascii ".pdf", ascii "application/pdf"),
    (ascii ".png", ascii "image/png"), (ascii ".jpg", ascii "image/jpeg"),
    (ascii ".jpeg", ascii "image/jpeg"), (ascii ".gif", ascii "image/gif"),
    (ascii ".svg", ascii "image/svg+xml"), (ascii ".ico", ascii "image/x-icon"),
    (ascii ".woff", ascii "font/woff"), (ascii ".woff2", ascii "font/woff2"),
    (ascii ".ttf", ascii "font/ttf"), (ascii ".eot", ascii "application/vnd.ms-fontobject"),
    (ascii ".otf", ascii "font/otf"), (ascii ".mp4", ascii "video/mp4"),
    (ascii ".webm", ascii "video/webm"), (ascii ".mp3", ascii "audio/mpeg"),
    (ascii ".wav", ascii "audio/wav"), (ascii ".zip", ascii "application/zip"),
    (ascii ".tar", ascii "application/x-tar"), (ascii ".gz", ascii "application/gzip")]

def getSafeContentType (filePath : ByteString) : ByteString :=
  (safeContentTypes.lookup (toLower (fileExt filePath))).getD (ascii "application/octet-stream")

/-- `format_http_date` -/
def formatHttpDate (time : Int) : ByteString := intStr time

def generateEtag (content : ByteString) (modTime : Int) : ByteString :=
  ascii "\"" ++ decimal content.length ++ ascii "-" ++ intStr modTime ++ ascii "\""

/-- `c.status(code)` and `c.text(data)` -/
def Context.refuse (c : Context) (code : Int) (data : ByteString) : Context × HttpResponse :=
  (c.status code, (c.status code).text data)

def StaticOptions.cacheControl (options : StaticOptions) : ByteString :=
  if options.maxAge > 0 then ascii "public, max-age=" ++ intStr options.maxAge
  else ascii "no-cache"

def serveFile (fs : FileView) (c : Context) (filePath : ByteString) (options : StaticOptions) :
    Context × HttpResponse :=
  match fs.readFile filePath, fs.stat filePath with
  | some fileContent, some fileInfo =>
    let c := (c.status 200).setHeader (ascii "Content-Type") (getSafeContentType filePath)
    let c := c.setHeader (ascii "Content-Length") (decimal fileContent.length)
    let c := if options.lastModified
      then c.setHeader (ascii "Last-Modified") (formatHttpDate fileInfo.mtime) else c
    let etag := generateEtag fileContent fileInfo.mtime
    let c := if options.etag then c.setHeader (ascii "ETag") etag else c
    if options.etag = true ∧ (c.req.header.getCustom (ascii "If-None-Match")).getD [] = etag then
      let c := c.status 304
      (c, { statusCode := c.statusCode
            header := Header.addAll [] ((ascii "Connection", ascii "keep-alive")
              :: c.headers.entries)
            body := [] })
    else
      let c := c.setHeader (ascii "Cache-Control") options.cacheControl
      let c := options.headers.entries.foldl (fun c h => c.setHeader h.1 h.2) c
      let c := c.setHeader (ascii "Connection") (ascii "keep-alive")
      (c, { statusCode := c.statusCode
            header := Header.addAll [] c.headers.entries
            body := fileContent })
  | _, _ => c.refuse 500 (ascii "Internal Server Error")

/-! ## One request -/

def validationOptions (options : StaticOptions) : Security.PathValidationOptions where
  allowAbsolutePaths := false
  allowHiddenFiles := options.dotfiles
  checkFileExtension := false
  allowedBasePaths := []

/-- The path behind the prefix, without a slash in front; the index if that is all. -/
def StaticOptions.filePath (options : StaticOptions) (request : ByteString) : ByteString :=
  let rest := request.drop options.path.length
  let rest := if startsWith rest (ascii "/") then rest.drop 1 else rest
  if rest = [] then options.index else rest

def serveStatic (options : StaticOptions) (fs : FileView) (c : Context) : StaticAnswer :=
  if startsWith c.path options.path = false then .next c
  else
    let filePath := options.filePath c.path
    let refused := fun code data =>
      StaticAnswer.refused (c.refuse code data).1 (c.refuse code data).2
    let served := fun path =>
      StaticAnswer.file path (serveFile fs c path options).1 (serveFile fs c path options).2
    match Security.validateFilePath filePath (validationOptions options) with
    | .error err =>
      if containsStr err (ascii "Dangerous") then refused 403 (ascii "Forbidden") else .next c
    | .ok safeFilePath =>
      if options.dotfiles = false ∧ startsWith filePath (ascii ".") = true then
        refused 403 (ascii "Forbidden")
      else
        let fullPath := joinPath options.root [safeFilePath]
        if fs.present fullPath = false then .next c
        else if fs.isDir fullPath then
          let indexPath := joinPath fullPath [options.index]
          if fs.present indexPath then served indexPath else refused 404 (ascii "Not Found")
        else served fullPath

namespace StaticFiles

/-! ## What a request reaches -/

/-- The request passes the tests, and what it asks for below the root is `safe`. -/
structure Reaches (options : StaticOptions) (request safe : ByteString) : Prop where
  begins : startsWith request options.path = true
  valid  : Security.validateFilePath (options.filePath request) (validationOptions options)
    = .ok safe
  plain  : options.dotfiles = false → startsWith (options.filePath request) (ascii ".") = false

section
variable {options : StaticOptions} {fs : FileView} {c c' : Context} {path safe : ByteString}
  {response : HttpResponse}

/-- A file is served for a request that passes the tests, and it is the one asked for or the
    index of that. -/
theorem reaches_of_file (h : serveStatic options fs c = .file path c' response) :
    ∃ safe, Reaches options c.path safe ∧ (path = joinPath options.root [safe] ∨
      path = joinPath (joinPath options.root [safe]) [options.index]) := by
  rw [serveStatic] at h
  split at h
  · cases h
  rename_i hbegins
  dsimp only at h
  split at h
  · split at h
    · cases h
    · cases h
  rename_i safe hvalid
  split at h
  · cases h
  rename_i hplain
  refine ⟨safe, ⟨Bool.not_eq_false _ ▸ hbegins, hvalid, fun hdot => ?_⟩, ?_⟩
  · exact Bool.eq_false_iff.mpr (fun hstart => hplain ⟨hdot, hstart⟩)
  split at h
  · cases h
  split at h
  · split at h
    · injection h with hpath
      exact .inr hpath.symm
    · cases h
  · injection h with hpath
    exact .inl hpath.symm

/-- A file system in which everything is there. -/
def full (directories : Bool) : FileView where
  present := fun _ => true
  isDir := fun _ => directories
  readFile := fun _ => some []
  stat := fun _ => some { size := 0, mtime := 0 }

theorem file_of_reaches (h : Reaches options c.path safe) (directories : Bool) :
    ∃ c' response, serveStatic options (full directories) c = .file
      (if directories = true then joinPath (joinPath options.root [safe]) [options.index]
        else joinPath options.root [safe]) c' response := by
  have hplain : ¬(options.dotfiles = false ∧
      startsWith (options.filePath c.path) (ascii ".") = true) := by
    rintro ⟨hdot, hstart⟩
    exact absurd (h.plain hdot) (by rw [hstart]; decide)
  have hbegins : ¬startsWith c.path options.path = false := by rw [h.begins]; decide
  rw [serveStatic, if_neg hbegins]
  dsimp only
  rw [h.valid]
  dsimp only
  rw [if_neg hplain]
  cases directories with
  | false => exact ⟨_, _, rfl⟩
  | true => exact ⟨_, _, rfl⟩

/-- What passes the tests does not go up. -/
theorem Reaches.stays {request : ByteString} (h : Reaches options request safe) (dir : Path) :
    StaysBelow dir (partSegments [safe]) := by
  obtain ⟨hpasses, hsafe⟩ := Security.validateFilePath_ok_iff.mp h.valid
  refine staysBelow_of_noUp dir ?_
  by_cases hnil : safe = []
  · rw [hnil]
    exact List.not_mem_nil
  · have hsegments : partSegments [safe] = segments (slashed safe) := by
      rw [partSegments, List.filter_cons_of_pos (by simpa using hnil), List.filter_nil,
        List.flatMap_singleton]
    rw [hsegments, hsafe, slashed_eq_self (Security.normalizePath_spec _).1]
    exact hpasses.noUp

end

/-! ## The scope of the options -/

/-- The request is the prefix, or goes on behind it at a slash. -/
def OnBoundary (lead request : ByteString) : Prop :=
  request = lead ∨ ∃ rest, request = lead ++ rest ∧
    (lead.getLast? = some (byte '/') ∨ rest.head? = some (byte '/'))

/-- What a file may be served for, and from where. -/
structure InScope (options : StaticOptions) (cwd : Path) (request path : ByteString) : Prop where
  asked : OnBoundary options.path request
  below : resolveText cwd options.root <+: resolveText cwd path

/-- A context with nothing but a path. -/
def asking (path : ByteString) : Context where
  req := { method := .get, url := path, data := [], header := [] }
  params := .empty
  query := .empty
  url := path
  path := path
  statusCode := 200
  headers := .empty
  body := []
  store := .empty

/-- **THE SCOPE OF THE OPTIONS** is kept, whatever the file system holds, exactly if a request
    that passes the tests is on the boundary of the prefix and the index stays below the root. -/
theorem inScope_iff (options : StaticOptions) (cwd : Path) (request : ByteString) :
    (∀ (fs : FileView) (c c' : Context) (path : ByteString) (response : HttpResponse),
      c.path = request → serveStatic options fs c = .file path c' response →
        InScope options cwd request path) ↔
    ∀ safe, Reaches options request safe → OnBoundary options.path request ∧
      StaysBelow (resolveText cwd options.root) (partSegments [safe, options.index]) := by
  constructor
  · intro hscope safe hreaches
    obtain ⟨c', response, hfile⟩ := file_of_reaches (c := asking request) hreaches true
    have hin := hscope _ _ c' _ response rfl hfile
    have hstays := hreaches.stays (resolveText cwd options.root)
    exact ⟨hin.asked,
      (joinPath_twice_below_iff cwd options.root hstays [options.index]).mp hin.below⟩
  · rintro hcond fs c c' path response rfl hfile
    obtain ⟨safe, hreaches, hpath⟩ := reaches_of_file hfile
    obtain ⟨hasked, hindex⟩ := hcond safe hreaches
    refine ⟨hasked, ?_⟩
    have hstays := hreaches.stays (resolveText cwd options.root)
    rcases hpath with rfl | rfl
    · exact (joinPath_below_iff cwd options.root [safe]).mpr hstays
    · exact (joinPath_twice_below_iff cwd options.root hstays [options.index]).mpr hindex

/-- With the prefix `/static`, the path `/staticfoo.txt` is answered with the file `foo.txt`. -/
theorem served_off_boundary :
    ¬ ∀ (options : StaticOptions) (cwd : Path) (fs : FileView) (c c' : Context) (path : ByteString)
      (response : HttpResponse), serveStatic options fs c = .file path c' response →
        InScope options cwd c.path path := by
  intro hall
  have hreaches : Reaches { path := ascii "/static" } (asking (ascii "/staticfoo.txt")).path
      (ascii "foo.txt") :=
    ⟨by decide, by decide +kernel, fun _ => by decide +kernel⟩
  obtain ⟨c', response, hfile⟩ := file_of_reaches hreaches false
  rcases (hall _ [] _ _ c' _ response hfile).asked with hsame | ⟨rest, hrest, hend⟩
  · exact absurd hsame (by decide)
  · have hfoo : ascii "foo.txt" = rest := by
      have hdrop : (ascii "/static" ++ rest).drop 7 = rest := List.drop_left' rfl
      rw [← hdrop, ← hrest]
      rfl
    subst hfoo
    rcases hend with hlast | hhead
    · exact absurd hlast (by decide)
    · exact absurd hhead (by decide)

end StaticFiles

end VHono
