import VHono.ChunkManager
import VHono.NumberTexts
import VHono.StaticFiles

/-! # Files sent in ranges

    Two handlers answer a request for a range of bytes: the one of the context
    reads the range from a file, and the one of the file service cuts it out of
    the data of an object.  Each reads the header on its own, and each narrows
    the offsets to 32 bits before it uses them.  A slice or a length that is out
    of bounds is a panic, which is `none`. -/

namespace VHono

open ByteString NumberTexts
open ChunkManager (toInt)

/-! ## The context -/

structure FileOptions where
  contentType     : ByteString := []
  lastModified    : Bool := true
  etag            : Bool := true
  maxAge          : Int := 0
  noCache         : Bool := false
  headers         : InsertionMap ByteString ByteString := .empty
  streamThreshold : Nat := 50 * 1024 * 1024
  bufferSize      : Int := 8192
  enableRange     : Bool := true

structure RangeRequest where
  start : Nat
  stop  : Nat
  total : Nat
  deriving DecidableEq, Repr

/-- Both numbers and the size have 64 bits without a sign; for an empty file the last position
    is the largest of them. -/
def parseRangeHeader (rangeHeader : ByteString) (fileSize : Nat) : Option RangeRequest :=
  if startsWith rangeHeader (ascii "bytes=") = false then none
  else
    match splitStr (rangeHeader.drop 6) (ascii "-") with
    | [first, second] =>
      let startStr := trimSpace first
      let endStr := trimSpace second
      let last := (fileSize + maxU64) % 2 ^ 64
      let start := if startStr ≠ [] then u64 startStr else 0
      let stop := if endStr ≠ [] then if u64 endStr ≥ fileSize then last else u64 endStr else last
      if start > stop ∨ start ≥ fileSize then none
      else some { start := start, stop := stop, total := fileSize }
    | _ => none

/-- `c.build_headers_response(body)` -/
def Context.buildHeadersResponse (c : Context) (body : ByteString) : Context × HttpResponse :=
  (c, { statusCode := c.statusCode
        header := Header.addAll [] ((ascii "Connection", ascii "keep-alive") :: c.headers.entries)
        body := body })

def contentRange (start stop total : ByteString) : ByteString :=
  ascii "bytes " ++ start ++ ascii "-" ++ stop ++ ascii "/" ++ total

/-- The file is read from `int(start)` on into a buffer of `int(content_length)` bytes. -/
def Context.handleRangeRequest (c : Context) (fs : FileView) (filePath : ByteString)
    (rangeReq : RangeRequest) : Option (Context × HttpResponse) :=
  let contentLength := rangeReq.stop - rangeReq.start + 1
  let c := ((c.status 206).setHeader (ascii "Content-Length") (decimal contentLength)).setHeader
    (ascii "Content-Range")
    (contentRange (decimal rangeReq.start) (decimal rangeReq.stop) (decimal rangeReq.total))
  let c := c.setHeader (ascii "Accept-Ranges") (ascii "bytes")
  let failed := some (c.refuse 500 (ascii "Internal Server Error"))
  match fs.readFile filePath with
  | none => failed
  | some content =>
    if toInt rangeReq.start < 0 then failed
    else if toInt contentLength < 0 then none
    else
      let buffer := (content.drop (toInt rangeReq.start).toNat).take (toInt contentLength).toNat
      -- a read of no bytes is an error
      if buffer = [] ∨ (buffer.length : Int) ≠ toInt contentLength then failed
      else some (c.buildHeadersResponse buffer)

/-- The loop of `stream_large_file` over what is left of the file. -/
def readBuffers (bufferSize : Nat) : Nat → ByteString → ByteString
  | 0, _ => []
  | reads + 1, rest =>
    let buffer := rest.take bufferSize
    if buffer.length = 0 then []
    else if buffer.length < bufferSize then buffer
    else buffer ++ readBuffers bufferSize reads (rest.drop bufferSize)

def Context.streamLargeFile (c : Context) (fs : FileView) (filePath : ByteString) (fileSize : Nat)
    (options : FileOptions) : Option (Context × HttpResponse) :=
  match fs.readFile filePath with
  | none => some (c.refuse 500 (ascii "Internal Server Error"))
  | some content =>
    if toInt fileSize < 0 ∨ options.bufferSize < 0 then none
    else some (c.buildHeadersResponse
      (readBuffers options.bufferSize.toNat (content.length + 1) content))

/-- `is_safe_file_path` -/
def isSafeFilePath (path : ByteString) : Bool :=
  match Security.validateFilePath path {} with
  | .ok result => result.length > 0
  | .error _ => false

/-- `get_file_content_type`, with the table of `get_safe_content_type` -/
def getFileContentType (filePath : ByteString) : ByteString := getSafeContentType filePath

/-- The headers that every file is sent with. -/
def Context.describeFile (c : Context) (filePath : ByteString) (mtime : Int)
    (options : FileOptions) : Context :=
  let c := c.setHeader (ascii "Content-Type")
    (if options.contentType ≠ [] then options.contentType else getFileContentType filePath)
  let c := if options.lastModified then
      c.setHeader (ascii "Last-Modified") (formatHttpDate mtime)
    else c
  let c := if options.maxAge > 0 then
      c.setHeader (ascii "Cache-Control") (ascii "public, max-age=" ++ intStr options.maxAge)
    else if options.noCache then c.setHeader (ascii "Cache-Control") (ascii "no-cache")
    else c
  options.headers.entries.foldl (fun c h => c.setHeader h.1 h.2) c

/-- The whole file, if no range is asked for. -/
def Context.wholeFile (c : Context) (fs : FileView) (filePath : ByteString) (fileInfo : FileStat)
    (options : FileOptions) : Option (Context × HttpResponse) :=
  let c := (c.setHeader (ascii "Content-Length") (decimal fileInfo.size)).setHeader
    (ascii "Accept-Ranges") (ascii "bytes")
  if fileInfo.size ≤ options.streamThreshold then
    match fs.readFile filePath with
    | none => some (c.refuse 500 (ascii "Internal Server Error"))
    | some fileContent =>
      let etag := generateEtag fileContent fileInfo.mtime
      let c := if options.etag then c.setHeader (ascii "ETag") etag else c
      if options.etag = true ∧ (c.req.header.getCustom (ascii "If-None-Match")).getD [] = etag then
        some ((c.status 304).buildHeadersResponse [])
      else some ((c.status 200).buildHeadersResponse fileContent)
  else (c.status 200).streamLargeFile fs filePath fileInfo.size options

def Context.fileStreamWithOptions (c : Context) (fs : FileView) (filePath : ByteString)
    (options : FileOptions) : Option (Context × HttpResponse) :=
  if isSafeFilePath filePath = false then some (c.refuse 403 (ascii "Forbidden"))
  else if fs.present filePath = false then some (c.refuse 404 (ascii "File Not Found"))
  else if fs.isDir filePath then some (c.refuse 400 (ascii "Cannot serve directory"))
  else
    match fs.stat filePath with
    | none => some (c.refuse 500 (ascii "Internal Server Error"))
    | some fileInfo =>
      let rangeReq := if options.enableRange then
          (c.req.header.getCustom (ascii "Range")).bind (parseRangeHeader · fileInfo.size)
        else none
      let c := c.describeFile filePath fileInfo.mtime options
      match rangeReq with
      | some rangeRequest => c.handleRangeRequest fs filePath rangeRequest
      | none => c.wholeFile fs filePath fileInfo options

/-! ## The file service -/

structure StorageErrorResponse where
  success : Bool
  error   : ByteString
  code    : Int

section
variable (encode : StorageErrorResponse → ByteString)

/-- `ctx.status(code)` and `ctx.json(..)` of an error -/
def Context.fail (ctx : Context) (code : Int) (error : ByteString) : Context × HttpResponse :=
  let ctx := ctx.status code
  (ctx, ctx.json (encode { success := false, error := error, code := code }))

/-- `data[int(start)..int(end) + 1]` -/
def rangeData (data : ByteString) (start stop : Int) : Option ByteString :=
  let first := toInt start
  let behind := toInt (toInt stop + 1)
  if 0 ≤ first ∧ first ≤ behind ∧ behind ≤ data.length then
    some (slice data first.toNat behind.toNat)
  else none

/-- The answer once the header is read; the download of the service is an argument, and so is the
    encoder of the JSON library. -/
def answerRange (download : ByteString → Except ByteString ByteString) (ctx : Context)
    (fileInfo : FileInfo) (start stop : Int) : Option (Context × HttpResponse) :=
  let fileSize := fileInfo.fileSize
  if start < 0 ∨ start ≥ fileSize ∨ stop < start ∨ stop ≥ fileSize then
    let ctx := (ctx.status 416).setHeader (ascii "Content-Range")
      (ascii "bytes */" ++ intStr fileSize)
    some (ctx.fail encode 416 (ascii "Range not satisfiable"))
  else
    match download fileInfo.fileUuid with
    | .error err => some (ctx.fail encode 500 (ascii "Download failed: " ++ err))
    | .ok data =>
      (rangeData data start stop).map (fun range =>
        let ctx := (ctx.setHeader (ascii "Content-Type") fileInfo.fileType).setHeader
          (ascii "Content-Length") (intStr (stop - start + 1))
        let ctx := (ctx.setHeader (ascii "Content-Range")
          (contentRange (intStr start) (intStr stop) (intStr fileSize))).setHeader
            (ascii "Accept-Ranges") (ascii "bytes")
        let ctx := (ctx.setHeader (ascii "ETag")
          (ascii "\"" ++ fileInfo.fileHash ++ ascii "\"")).status 206
        (ctx, { statusCode := 206
                header := Header.addAll [] ctx.headers.entries
                body := range }))

def handleRangeDownload (download : ByteString → Except ByteString ByteString) (ctx : Context)
    (fileInfo : FileInfo) (rangeHeader : ByteString) : Option (Context × HttpResponse) :=
  if startsWith rangeHeader (ascii "bytes=") = false then
    some (ctx.fail encode 416 (ascii "Invalid Range header"))
  else
    match splitStr (rangeHeader.drop 6) (ascii "-") with
    | [first, second] =>
      answerRange encode download ctx fileInfo (if first ≠ [] then i64 first else 0)
        (if second ≠ [] then i64 second else fileInfo.fileSize - 1)
    | _ => some (ctx.fail encode 416 (ascii "Invalid Range format"))

end

/-- Buffers that are not empty read the whole file. -/
theorem readBuffers_eq {bufferSize : Nat} (hpos : 0 < bufferSize) (reads : Nat)
    {rest : ByteString} (h : rest.length < reads) : readBuffers bufferSize reads rest = rest := by
  induction reads generalizing rest with
  | zero => exact absurd h (Nat.not_lt_zero _)
  | succ reads ih =>
      simp only [readBuffers, List.length_take]
      by_cases hnil : min bufferSize rest.length = 0
      · rw [if_pos hnil]
        exact (List.length_eq_zero_iff.mp (by omega)).symm
      · rw [if_neg hnil]
        by_cases hshort : min bufferSize rest.length < bufferSize
        · rw [if_pos hshort]
          exact List.take_of_length_le (by omega)
        · rw [if_neg hshort, ih (by rw [List.length_drop]; omega), List.take_append_drop]

end VHono
