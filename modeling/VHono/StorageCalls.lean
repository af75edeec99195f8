import VHono.BucketListing
import VHono.MachineRuns
import VHono.PathTexts

/-! # The calls that the local storage makes

    Every operation of the local storage as a program over the calls of the os
    module, with the paths as the texts that are passed there.  The answers of
    the operating system are left open. -/

namespace VHono

open ByteString PathSegments

/-- The calls of the os module that change something. -/
inductive OsEffect
  | mkdirAll (path : ByteString)
  | writeFileArray (path data : ByteString)
  | cp (src dst : ByteString)
  | rm (path : ByteString)
  | rmdir (path : ByteString)
  | rmdirAll (path : ByteString)

inductive OsCall
  | effect (e : OsEffect)
  | pathExists (path : ByteString)
  | isFile (path : ByteString)
  | isDir (path : ByteString)
  | fileSize (path : ByteString)
  | fileLastModUnix (path : ByteString)
  | readBytes (path : ByteString)
  | ls (path : ByteString)

def OsCall.Answer : OsCall → Type
  | effect _ => Except ByteString Unit
  | pathExists _ => Bool
  | isFile _ => Bool
  | isDir _ => Bool
  | fileSize _ => Int
  | fileLastModUnix _ => Int
  | readBytes _ => Except ByteString ByteString
  | ls _ => Except ByteString (List EntryName)

def OsEffect.paths : OsEffect → List ByteString
  | mkdirAll path => [path]
  | writeFileArray path _ => [path]
  | cp src dst => [src, dst]
  | rm path => [path]
  | rmdir path => [path]
  | rmdirAll path => [path]

/-- The paths that a call reads, writes or removes. -/
def OsCall.paths : OsCall → List ByteString
  | effect e => e.paths
  | pathExists path => [path]
  | isFile path => [path]
  | isDir path => [path]
  | fileSize path => [path]
  | fileLastModUnix path => [path]
  | readBytes path => [path]
  | ls path => [path]

abbrev OsProgram (ρ : Type) := CallProgram OsCall.Answer ρ

namespace OsProgram

variable {ρ : Type}

/-- `effect or { return .. }` -/
def attempt (e : OsEffect) (failed : ByteString → ρ) (rest : OsProgram ρ) : OsProgram ρ :=
  .ask (.effect e) fun (answer : Except ByteString Unit) =>
    match answer with
    | .error err => .done (failed err)
    | .ok () => rest

/-- `os.read_bytes(path) or { return .. }` -/
def readBytes (path : ByteString) (failed : ByteString → ρ) (rest : ByteString → OsProgram ρ) :
    OsProgram ρ :=
  .ask (.readBytes path) fun (answer : Except ByteString ByteString) =>
    match answer with
    | .error err => .done (failed err)
    | .ok data => rest data

/-- `if !os.exists(path) { return .. }` -/
def mustExist (path : ByteString) (missing : ρ) (rest : OsProgram ρ) : OsProgram ρ :=
  .ask (.pathExists path) fun (answer : Bool) => if answer = true then rest else .done missing

/-- The parent directory made, unless it is the working directory. -/
def ensureParent (path : ByteString) (failed : ByteString → ρ) (rest : OsProgram ρ) :
    OsProgram ρ :=
  let parentDir := dirOf path
  if parentDir ≠ [] ∧ parentDir ≠ ascii "." then attempt (.mkdirAll parentDir) failed rest else rest

end OsProgram

structure DiskConfig where
  basePath   : ByteString := ascii "./storage"
  urlPrefix  : ByteString := ascii "/files"
  createDirs : Bool := true

structure PresignOptions where
  method : ByteString := ascii "GET"

/-- The storage with its base path as a text, and the digest function of the crypto module.
    The upload ids in its table are those it has made, which are names. -/
structure DiskStorage where
  config           : DiskConfig
  md5              : ByteString → ByteString
  multipartUploads : InsertionMap ByteString MultipartUploadState
  namedIds : ∀ id state, multipartUploads.get? id = some state → ∃ name : EntryName, name.text = id

namespace DiskStorage

theorem not_backslash_mem_intStr (n : Int) : byte '\\' ∉ intStr n := by
  intro h
  rcases mem_intStr h with hdash | hdigit
  · exact absurd hdash (by decide)
  · exact absurd hdigit (by decide)

theorem not_backslash_hexDigit {n : Nat} (h : n < 16) :
    LocalStorage.hexDigit n ≠ byte '\\' := by
  interval_cases n <;> decide

theorem not_backslash_mem_hexStr (s : ByteString) : byte '\\' ∉ LocalStorage.hexStr s := by
  intro h
  obtain ⟨c, -, hb⟩ := List.mem_flatMap.mp h
  have hc : c.toNat < 256 := c.toNat_lt
  rcases List.mem_cons.mp hb with heq | hb
  · exact not_backslash_hexDigit (by omega) heq.symm
  · exact not_backslash_hexDigit (by omega) (List.mem_singleton.mp hb).symm

theorem not_backslash_mem_generateUploadId (now : Int) (random : Option ByteString) :
    byte '\\' ∉ LocalStorage.generateUploadId now random := by
  intro h
  rw [LocalStorage.generateUploadId, List.mem_append, List.mem_append] at h
  rcases h with (hnow | hdash) | hrandom
  · exact not_backslash_mem_intStr now hnow
  · exact absurd hdash (by decide)
  · exact not_backslash_mem_hexStr _ hrandom

def new (config : DiskConfig) (md5 : ByteString → ByteString) : DiskStorage where
  config := config
  md5 := md5
  multipartUploads := .empty
  namedIds := fun _ _ h => nomatch h

/-! ## Paths -/

def getFullPath (s : DiskStorage) (bucket key : ByteString) : ByteString :=
  joinPath s.config.basePath [bucket, key]

def getBucketPath (s : DiskStorage) (bucket : ByteString) : ByteString :=
  joinPath s.config.basePath [bucket]

/-- `temp_dir` of an upload -/
def tempDir (s : DiskStorage) (uploadId : ByteString) : ByteString :=
  joinPath s.config.basePath [ascii ".multipart", uploadId]

def partPath (s : DiskStorage) (uploadId : ByteString) (partNumber : Int) : ByteString :=
  joinPath (s.tempDir uploadId) [intStr partNumber]

def calculateEtag (s : DiskStorage) (data : ByteString) : ByteString :=
  ascii "\"" ++ LocalStorage.hexStr (s.md5 data) ++ ascii "\""

/-- A generated upload id names a directory entry. -/
def newUploadId (now : Int) (random : Option ByteString) : EntryName where
  text := LocalStorage.generateUploadId now random
  plain := LocalStorage.plain_generateUploadId now random
  noBackslash := not_backslash_mem_generateUploadId now random

/-! ## Objects -/

section

open OsProgram

/-- An error of this provider, with the error of the os module after the message. -/
def failure {α : Type} (kind : StorageErrorKind) (message operation : String) (err : ByteString) :
    Except ByteString α :=
  .error (LocalStorage.errorMsg kind (ascii message ++ err) operation)

def objectMissing {α : Type} (bucket key : ByteString) : Except ByteString α :=
  .error (newNotFoundError (ascii "local") bucket key).msg

def bucketMissing {α : Type} (bucket : ByteString) : Except ByteString α :=
  .error (newBucketNotFoundError (ascii "local") bucket).msg

variable (s : DiskStorage)

/-- The bucket directory made, if the configuration says so. -/
def ensureBucket {ρ : Type} (bucket : ByteString) (failed : ByteString → ρ) (rest : OsProgram ρ) :
    OsProgram ρ :=
  if s.config.createDirs = true then attempt (.mkdirAll (s.getBucketPath bucket)) failed rest
  else rest

/-- The content type is not used. -/
def upload (bucket key data : ByteString) : OsProgram (Except ByteString StorageResult) :=
  s.ensureBucket bucket (failure .invalidConfig "Failed to create bucket directory: " "upload") <|
  let fullPath := s.getFullPath bucket key
  ensureParent fullPath (failure .invalidConfig "Failed to create parent directory: " "upload") <|
  attempt (.writeFileArray fullPath data) (failure .unknown "Failed to write file: " "upload") <|
  .done (.ok ⟨key, s.calculateEtag data, data.length⟩)

/-- With the data that the reader gives until it is at its end or fails. -/
def uploadStream (bucket key data : ByteString) : OsProgram (Except ByteString StorageResult) :=
  s.ensureBucket bucket
    (failure .invalidConfig "Failed to create bucket directory: " "upload_stream") <|
  let fullPath := s.getFullPath bucket key
  ensureParent fullPath
    (failure .invalidConfig "Failed to create parent directory: " "upload_stream") <|
  attempt (.writeFileArray fullPath data)
    (failure .unknown "Failed to write file: " "upload_stream") <|
  .done (.ok ⟨key, s.calculateEtag data, data.length⟩)

def download (bucket key : ByteString) : OsProgram (Except ByteString ByteString) :=
  let fullPath := s.getFullPath bucket key
  mustExist fullPath (objectMissing bucket key) <|
  OsProgram.readBytes fullPath (failure .unknown "Failed to read file: " "download") fun data =>
  .done (.ok data)

/-- With what the writer makes of the data. -/
def downloadStream (write : ByteString → Except ByteString Int) (bucket key : ByteString) :
    OsProgram (Except ByteString Int) :=
  let fullPath := s.getFullPath bucket key
  mustExist fullPath (objectMissing bucket key) <|
  OsProgram.readBytes fullPath (failure .unknown "Failed to read file: " "download_stream") fun data =>
  .done (match write data with
    | .error err => failure .unknown "Failed to write to stream: " "download_stream" err
    | .ok written => .ok written)

def delete (bucket key : ByteString) : OsProgram (Except ByteString Unit) :=
  let fullPath := s.getFullPath bucket key
  mustExist fullPath (objectMissing bucket key) <|
  attempt (.rm fullPath) (failure .unknown "Failed to delete file: " "delete") <|
  .done (.ok ())

/-- `exists`, whose second test is only made if the first one holds. -/
def objectExists (bucket key : ByteString) : OsProgram (Except ByteString Bool) :=
  let fullPath := s.getFullPath bucket key
  .ask (.pathExists fullPath) fun (there : Bool) =>
    if there = true then .ask (.isFile fullPath) fun (file : Bool) => .done (.ok file)
    else .done (.ok false)

def head (bucket key : ByteString) : OsProgram (Except ByteString ObjectInfo) :=
  let fullPath := s.getFullPath bucket key
  mustExist fullPath (objectMissing bucket key) <|
  .ask (.fileSize fullPath) fun (fileSize : Int) =>
  .ask (.fileLastModUnix fullPath) fun (mtime : Int) =>
  OsProgram.readBytes fullPath (failure .unknown "Failed to read file for metadata: " "head")
    fun data =>
  .done (.ok ⟨key, fileSize, s.calculateEtag data, inferContentType key, mtime⟩)

def copy (srcBucket srcKey dstBucket dstKey : ByteString) :
    OsProgram (Except ByteString StorageResult) :=
  let srcPath := s.getFullPath srcBucket srcKey
  mustExist srcPath (objectMissing srcBucket srcKey) <|
  s.ensureBucket dstBucket
    (failure .invalidConfig "Failed to create destination bucket directory: " "copy") <|
  let dstPath := s.getFullPath dstBucket dstKey
  ensureParent dstPath
    (failure .invalidConfig "Failed to create destination parent directory: " "copy") <|
  attempt (.cp srcPath dstPath) (failure .unknown "Failed to copy file: " "copy") <|
  OsProgram.readBytes dstPath (failure .unknown "Failed to read copied file: " "copy") fun data =>
  .done (.ok ⟨dstKey, s.calculateEtag data, data.length⟩)

def presignUrl (bucket key : ByteString) (options : PresignOptions) :
    OsProgram (Except ByteString ByteString) :=
  let fullPath := s.getFullPath bucket key
  let url : OsProgram (Except ByteString ByteString) :=
    if s.config.urlPrefix ≠ [] then
      .done (.ok (s.config.urlPrefix ++ ascii "/" ++ bucket ++ ascii "/" ++ key))
    else .done (.ok fullPath)
  if options.method = ascii "GET" then mustExist fullPath (objectMissing bucket key) url else url

/-! ## Listing -/

/-- One entry of a directory; `walk` goes down into one. -/
def listEntry (basePath currentPath : ByteString) (options : ListOptions)
    (walk : ByteString → List ObjectInfo × List ByteString →
      OsProgram (List ObjectInfo × List ByteString))
    (acc : List ObjectInfo × List ByteString) (entry : EntryName) :
    OsProgram (List ObjectInfo × List ByteString) :=
  if (acc.1.length : Int) ≥ options.maxKeys then .done acc
  else
    let path := joinPath currentPath [entry.text]
    let key := relativeKey basePath path
    if options.skips key = true then .done acc
    else
      .ask (.isDir path) fun (directory : Bool) =>
        if directory = true then
          if options.delimiter ≠ [] then
            let prefixKey := key ++ ascii "/"
            .done (acc.1, if prefixKey ∈ acc.2 then acc.2 else acc.2 ++ [prefixKey])
          else walk path acc
        else
          .ask (.fileSize path) fun (fileSize : Int) =>
          .ask (.fileLastModUnix path) fun (mtime : Int) =>
          OsProgram.readBytes path (fun _ => acc) fun data =>
          .done (acc.1 ++ [⟨key, fileSize, s.calculateEtag data, inferContentType key, mtime⟩], acc.2)

/-- The walk, over directories that nest no deeper than the bound. -/
def listDirectoryRecursive (basePath : ByteString) (options : ListOptions) :
    Nat → ByteString → List ObjectInfo × List ByteString →
      OsProgram (List ObjectInfo × List ByteString)
  | 0, _, acc => .done acc
  | depth + 1, currentPath, acc =>
    if (acc.1.length : Int) ≥ options.maxKeys then .done acc
    else
      .ask (.ls currentPath) fun (answer : Except ByteString (List EntryName)) =>
        match answer with
        | .error _ => .done acc
        | .ok entries =>
          .fold (s.listEntry basePath currentPath options
            (listDirectoryRecursive basePath options depth)) acc entries

def list (depth : Nat) (bucket : ByteString) (options : ListOptions) :
    OsProgram (Except ByteString ListResult) :=
  let bucketPath := s.getBucketPath bucket
  mustExist bucketPath (bucketMissing bucket) <|
  (s.listDirectoryRecursive bucketPath options depth bucketPath ([], [])).andThen fun out =>
    let isTruncated := decide ((out.1.length : Int) ≥ options.maxKeys)
    .done (.ok
      { objects := out.1
        commonPrefixes := out.2
        isTruncated := isTruncated
        nextMarker := if isTruncated = true ∧ out.1.length > 0 then
            (out.1.getLast?.map (·.key)).getD [] else [] })

/-! ## Multipart uploads -/

/-- An upload entered into the table. -/
def track (uploadId : ByteString) (state : MultipartUploadState)
    (h : ∃ name : EntryName, name.text = uploadId) : DiskStorage :=
  { s with
    multipartUploads := s.multipartUploads.insert uploadId state
    namedIds := by
      intro id state' hget
      rw [InsertionMap.get?_insert] at hget
      split at hget
      · next hid => exact hid ▸ h
      · exact s.namedIds id state' hget }

/-- An upload taken from the table. -/
def untrack (uploadId : ByteString) : DiskStorage :=
  { s with
    multipartUploads := s.multipartUploads.erase uploadId
    namedIds := by
      intro id state hget
      rw [InsertionMap.get?_erase] at hget
      split at hget
      · exact nomatch hget
      · exact s.namedIds id state hget }

/-- With the clock, and eight random bytes if there are any. -/
def initMultipart (now : Int) (random : Option ByteString) (bucket key contentType : ByteString) :
    OsProgram (DiskStorage × Except ByteString ByteString) :=
  s.ensureBucket bucket (fun err =>
    (s, failure .invalidConfig "Failed to create bucket directory: " "init_multipart" err)) <|
  let uploadId := newUploadId now random
  attempt (.mkdirAll (s.tempDir uploadId.text)) (fun err =>
    (s, failure .unknown "Failed to create temp directory: " "init_multipart" err)) <|
  .done (s.track uploadId.text ⟨bucket, key, contentType, .empty⟩ ⟨uploadId, rfl⟩, .ok uploadId.text)

def uploadMissing {α : Type} (uploadId : ByteString) (operation : String) : Except ByteString α :=
  .error (LocalStorage.notFound uploadId operation)

/-- The bucket and the key are not used. -/
def uploadPart (uploadId : ByteString) (partNumber : Int) (data : ByteString) :
    OsProgram (DiskStorage × Except ByteString ByteString) :=
  match h : s.multipartUploads.get? uploadId with
  | none => .done (s, uploadMissing uploadId "upload_part")
  | some state =>
    attempt (.writeFileArray (s.partPath uploadId partNumber) data) (fun err =>
      (s, failure .unknown "Failed to write part: " "upload_part" err)) <|
    let etag := s.calculateEtag data
    let parts := state.parts.insert partNumber ⟨partNumber, etag, data.length⟩
    .done (s.track uploadId { state with parts := parts } (s.namedIds uploadId state h), .ok etag)

/-- The loop over the parts; it stops at the first that cannot be read. -/
def readParts {ρ : Type} (uploadId : ByteString) (missing : Int → ρ)
    (rest : ByteString → OsProgram ρ) : List PartInfo → ByteString → OsProgram ρ
  | [], finalData => rest finalData
  | part :: parts, finalData =>
    OsProgram.readBytes (s.partPath uploadId part.partNumber) (fun _ => missing part.partNumber)
      fun partData => readParts uploadId missing rest parts (finalData ++ partData)

def completeMultipart (bucket key uploadId : ByteString) (parts : List PartInfo) :
    OsProgram (DiskStorage × Except ByteString StorageResult) :=
  match s.multipartUploads.get? uploadId with
  | none => .done (s, uploadMissing uploadId "complete_multipart")
  | some _ =>
    s.readParts uploadId (fun n =>
        (s, failure .objectNotFound "Part not found: " "complete_multipart" (intStr n)))
      (fun finalData =>
        let fullPath := s.getFullPath bucket key
        ensureParent fullPath (fun err =>
          (s, failure .invalidConfig "Failed to create parent directory: " "complete_multipart" err)) <|
        attempt (.writeFileArray fullPath finalData) (fun err =>
          (s, failure .unknown "Failed to write final file: " "complete_multipart" err)) <|
        .ask (.effect (.rmdirAll (s.tempDir uploadId))) fun _ =>
        .done (s.untrack uploadId, .ok ⟨key, s.calculateEtag finalData, finalData.length⟩))
      parts []

/-- The bucket and the key are not used. -/
def abortMultipart (uploadId : ByteString) : OsProgram (DiskStorage × Except ByteString Unit) :=
  match s.multipartUploads.get? uploadId with
  | none => .done (s, uploadMissing uploadId "abort_multipart")
  | some _ =>
    .ask (.effect (.rmdirAll (s.tempDir uploadId))) fun _ =>
    .done (s.untrack uploadId, .ok ())

/-! ## Buckets -/

def createBucket (bucket : ByteString) : OsProgram (Except ByteString Unit) :=
  let bucketPath := s.getBucketPath bucket
  .ask (.pathExists bucketPath) fun (there : Bool) =>
    if there = true then .done (.ok ())
    else
      attempt (.mkdirAll bucketPath) (failure .unknown "Failed to create bucket: " "create_bucket") <|
      .done (.ok ())

def deleteBucket (bucket : ByteString) : OsProgram (Except ByteString Unit) :=
  let bucketPath := s.getBucketPath bucket
  mustExist bucketPath (bucketMissing bucket) <|
  .ask (.ls bucketPath) fun (answer : Except ByteString (List EntryName)) =>
    if (answer.toOption.getD []).length > 0 then
      .done (failure .accessDenied "Bucket is not empty" "delete_bucket" [])
    else
      attempt (.rmdir bucketPath) (failure .unknown "Failed to delete bucket: " "delete_bucket") <|
      .done (.ok ())

def bucketExists (bucket : ByteString) : OsProgram (Except ByteString Bool) :=
  let bucketPath := s.getBucketPath bucket
  .ask (.pathExists bucketPath) fun (there : Bool) =>
    if there = true then .ask (.isDir bucketPath) fun (directory : Bool) => .done (.ok directory)
    else .done (.ok false)

end

end DiskStorage

end VHono
