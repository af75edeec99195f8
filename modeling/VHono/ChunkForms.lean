import VHono.InsertionMap
import VHono.ResponseGrammar

/-! # Chunk requests

    What the upload handlers read of a request: the multipart form of a chunk,
    whose fields are taken in a fixed order and checked one by one, and the
    body of a merge request.  A request that passes the checks is a value; one
    that does not is the error its answer reports. -/

namespace VHono

open ByteString HttpGrammar

structure ChunkUploadConfig where
  maxFileSize           : Int := 1024 * 1024 * 1024
  maxChunkSize          : Int := 10 * 1024 * 1024
  tempDir               : ByteString := ascii "./uploads/chunks"
  uploadDir             : ByteString := ascii "./uploads/files"
  clearChunksOnComplete : Bool := false
  mergeBufferSize       : Nat := 8192
  useFileService        : Bool := false

/-- The error answers of the handlers, with what their texts name. -/
inductive UploadError
  | badRequest (message : ByteString)
  | missingParameter (name : ByteString)
  | invalidParameter (name reason : ByteString)
  | validation (message : ByteString) (details : List (ByteString × ByteString))
  | fileOperation (operation filename : ByteString)
  | resourceNotFound (resourceType resourceId : ByteString)
  deriving DecidableEq, Repr

/-! ## The checks -/

def isHexDigit (b : UInt8) : Bool :=
  isDigitByte b || (byte 'a' ≤ b && b ≤ byte 'f') || (byte 'A' ≤ b && b ≤ byte 'F')

/-- `s.int()` for a run of digits; the library stops at the largest `int`. -/
def digitsToInt (s : ByteString) : Nat := min ((readDecimal s).getD 0) (2 ^ 31 - 1)

def validateFileHash (hash : ByteString) : Except ByteString ByteString :=
  if hash.length = 0 then .error (ascii "File hash cannot be empty")
  else if hash.length ≠ 32 then
    .error (ascii "Invalid hash length: expected 32, got " ++ decimal hash.length)
  else
    match hash.find? (fun ch => !isHexDigit ch) with
    | some ch => .error (ascii "Invalid hash character: " ++ decimal ch.toNat)
    | none => .ok (toLower hash)

/-- Both number checks read a string of digits only. -/
def validateChunkIndex (indexStr : ByteString) (maxChunks : Nat) : Except ByteString Nat :=
  if indexStr.length = 0 then .error (ascii "Chunk index cannot be empty")
  else if indexStr.all isDigitByte = false then .error (ascii "Chunk index must be a number")
  else
    let index := digitsToInt indexStr
    if maxChunks > 0 ∧ index ≥ maxChunks then
      .error (ascii "Chunk index " ++ (decimal index ++ (ascii " exceeds maximum "
        ++ decimal maxChunks)))
    else .ok index

def validateFileSize (sizeStr : ByteString) (maxSize : Int) : Except ByteString Nat :=
  if sizeStr.length = 0 then .error (ascii "File size cannot be empty")
  else if sizeStr.all isDigitByte = false then .error (ascii "File size must be a number")
  else
    let size := digitsToInt sizeStr
    if size = 0 then .error (ascii "File size must be positive")
    else if (size : Int) > maxSize then
      .error (ascii "File size " ++ (decimal size ++ (ascii " exceeds maximum " ++ intStr maxSize)))
    else .ok size

def dangerousChars : ByteString := ascii "<>\"|?*" ++ [0, 13, 10]

def reservedNames : List ByteString :=
  [ascii "CON", ascii "PRN", ascii "AUX", ascii "NUL", ascii "COM1", ascii "COM2", ascii "COM3",
    ascii "COM4", ascii "COM5", ascii "COM6", ascii "COM7", ascii "COM8", ascii "COM9",
    ascii "LPT1", ascii "LPT2", ascii "LPT3", ascii "LPT4", ascii "LPT5", ascii "LPT6",
    ascii "LPT7", ascii "LPT8", ascii "LPT9"]

def upperByte (b : UInt8) : UInt8 := if byte 'a' ≤ b ∧ b ≤ byte 'z' then b - 32 else b

def validateFilename (filename : ByteString) : Except ByteString ByteString :=
  if filename.length = 0 then .error (ascii "Filename cannot be empty")
  else if filename.length > 255 then
    .error (ascii "Filename too long: " ++ (decimal filename.length ++ ascii " > 255"))
  else
    match dangerousChars.find? (fun ch => filename.contains ch) with
    | some ch => .error (ascii "Dangerous character in filename: " ++ [ch])
    | none =>
      let nameWithoutExt := ((splitStr filename (ascii ".")).headD []).map upperByte
      if reservedNames.contains nameWithoutExt = true then
        .error (ascii "Reserved filename not allowed: " ++ filename)
      else .ok filename

/-! ## Requests -/

/-- A chunk request that passed the checks. -/
structure ChunkRequest where
  fileHash   : ByteString
  filename   : ByteString
  fileSize   : Nat
  chunkSize  : Nat
  chunkIndex : Nat
  data       : ByteString
  deriving DecidableEq, Repr

abbrev Form := InsertionMap ByteString ByteString

def Form.field (form : Form) (name : ByteString) : Except UploadError ByteString :=
  match form.get? name with
  | some content => .ok content
  | none => .error (.missingParameter name)

def checked {α : Type} (name : ByteString) (r : Except ByteString α) : Except UploadError α :=
  match r with
  | .ok value => .ok value
  | .error reason => .error (.invalidParameter name reason)

/-- The head of the chunk handler: the form as the multipart parser delivers it, or the
    parser's error. -/
def readChunkRequest (config : ChunkUploadConfig) (form : Except ByteString Form) :
    Except UploadError ChunkRequest := do
  let formData ← match form with
    | .ok formData => .ok formData
    | .error err => .error (.badRequest (ascii "Invalid form data: " ++ err))
  let fileHashRaw ← formData.field (ascii "file_hash")
  let fileHash ← checked (ascii "file_hash") (validateFileHash fileHashRaw)
  let chunkIndexStr ← formData.field (ascii "chunk_index")
  let filenameRaw ← formData.field (ascii "filename")
  let filename ← checked (ascii "filename") (validateFilename filenameRaw)
  let fileSizeStr ← formData.field (ascii "file_size")
  let fileSize ← checked (ascii "file_size") (validateFileSize fileSizeStr config.maxFileSize)
  let chunkSizeStr ← formData.field (ascii "chunk_size")
  let chunkSize ← checked (ascii "chunk_size") (validateFileSize chunkSizeStr config.maxChunkSize)
  let chunkIndex ← checked (ascii "chunk_index") (validateChunkIndex chunkIndexStr 0)
  let fileData ← formData.field (ascii "chunk")
  if fileData.length > chunkSize then
    .error (.validation (ascii "Chunk data size exceeds declared chunk_size")
      [(ascii "actual_size", decimal fileData.length),
        (ascii "declared_size", decimal chunkSize)])
  else
    .ok ⟨fileHash, filename, fileSize, chunkSize, chunkIndex, fileData⟩

/-- The body of a merge request, as the JSON library decodes it. -/
structure MergeRequest where
  fileHash    : ByteString
  filename    : ByteString
  totalChunks : Int

def readMergeRequest (body : Except ByteString MergeRequest) : Except UploadError MergeRequest :=
  match body with
  | .ok request => .ok request
  | .error err => .error (.badRequest (ascii "Invalid request body: " ++ err))

/-- `get_file_extension`: the last dot and what follows it. -/
def getFileExtension (filename : ByteString) : ByteString :=
  let parts := splitStr filename (ascii ".")
  if parts.length > 1 then byte '.' :: parts.getLastD [] else []

end VHono
