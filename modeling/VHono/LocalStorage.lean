import VHono.InsertionMap
import VHono.PathTexts
import VHono.PieceAssembly
import VHono.StorageErrors

/-! # Multipart uploads in the local storage

    An upload gets a directory of its own under `.multipart`, with one file for
    each part; completing it joins the files in the order the caller lists them,
    writes the object and removes the directory.  Directories are not modelled:
    whether a call of the operating system goes through, and with which error
    it fails, is an argument of the operation. -/

namespace VHono

open ByteString PathSegments PieceAssembly

structure LocalStorageConfig where
  /-- The directory that `base_path` denotes. -/
  basePath   : Path
  createDirs : Bool := true

structure PartInfo where
  partNumber : Int
  etag       : ByteString
  size       : Int
  deriving DecidableEq, Repr

structure MultipartUploadState where
  bucket      : ByteString
  key         : ByteString
  contentType : ByteString
  parts       : InsertionMap Int PartInfo

/-- The storage, with the digest function of the crypto module.  The upload ids in its table
    are those it has made. -/
structure LocalStorage where
  config           : LocalStorageConfig
  md5              : ByteString → ByteString
  multipartUploads : InsertionMap ByteString MultipartUploadState
  files            : Files
  plainIds         : ∀ id state, multipartUploads.get? id = some state → Plain id

structure StorageResult where
  objectKey : ByteString
  etag      : ByteString
  size      : Int
  deriving DecidableEq, Repr

namespace LocalStorage

def new (config : LocalStorageConfig) (md5 : ByteString → ByteString) (files : Files) :
    LocalStorage where
  config := config
  md5 := md5
  multipartUploads := .empty
  files := files
  plainIds := fun _ _ h => nomatch h

/-! ## Names -/

def hexDigit (n : Nat) : UInt8 := if n < 10 then (48 + n).toUInt8 else (87 + n).toUInt8

/-- `${b:02x}` -/
def hexByte (b : UInt8) : ByteString := [hexDigit (b.toNat / 16), hexDigit (b.toNat % 16)]

def hexStr (s : ByteString) : ByteString := s.flatMap hexByte

/-- The ETag of a content: its digest in quotes. -/
def calculateEtag (s : LocalStorage) (data : ByteString) : ByteString :=
  ascii "\"" ++ hexStr (s.md5 data) ++ ascii "\""

/-- `generate_upload_id` at a time, with eight random bytes if there are any. -/
def generateUploadId (now : Int) (random : Option ByteString) : ByteString :=
  intStr now ++ ascii "-" ++ hexStr (random.getD (List.replicate 8 0))

def getFullPath (s : LocalStorage) (bucket key : ByteString) : Path :=
  resolve s.config.basePath (partSegments [bucket, key])

def multipartDir (s : LocalStorage) : Path := s.config.basePath ++ [ascii ".multipart"]

/-- `temp_dir` of an upload -/
def tempDir (s : LocalStorage) (uploadId : ByteString) : Path :=
  resolve s.multipartDir (segments uploadId)

def partPath (s : LocalStorage) (uploadId : ByteString) (partNumber : Int) : Path :=
  resolve (s.tempDir uploadId) (segments (intStr partNumber))

theorem hexDigit_plain {n : Nat} (h : n < 16) : hexDigit n ≠ byte '/' ∧ hexDigit n ≠ byte '.' := by
  interval_cases n <;> decide

theorem hexStr_plain {s : ByteString} {b : UInt8} (h : b ∈ hexStr s) :
    b ≠ byte '/' ∧ b ≠ byte '.' := by
  obtain ⟨c, -, hb⟩ := List.mem_flatMap.mp h
  have hc : c.toNat < 256 := c.toNat_lt
  rcases List.mem_cons.mp hb with rfl | hb
  · exact hexDigit_plain (by omega)
  · rw [List.mem_singleton.mp hb]
    exact hexDigit_plain (by omega)

/-- A generated id names a directory entry. -/
theorem plain_generateUploadId (now : Int) (random : Option ByteString) :
    Plain (generateUploadId now random) := by
  refine plain_of_mem (b := byte '-') ?_ (by simp [generateUploadId, ascii, byte]) (by decide)
  intro hslash
  rw [generateUploadId, List.mem_append, List.mem_append] at hslash
  rcases hslash with (hnow | hdash) | hrandom
  · exact (not_slash_of_mem_intStr hnow).1 rfl
  · exact absurd hdash (by decide)
  · exact (hexStr_plain hrandom).1 rfl

theorem tempDir_eq (s : LocalStorage) {uploadId : ByteString} (h : Plain uploadId) :
    s.tempDir uploadId = s.config.basePath ++ [ascii ".multipart", uploadId] := by
  rw [tempDir, segments_plain h, resolve_plain (fun _ ht => List.mem_singleton.mp ht ▸ h),
    multipartDir, List.append_assoc]
  rfl

theorem partPath_eq (s : LocalStorage) {uploadId : ByteString} (h : Plain uploadId) (n : Int) :
    s.partPath uploadId n = s.config.basePath ++ [ascii ".multipart", uploadId, intStr n] := by
  rw [partPath, segments_plain (plain_intStr n),
    resolve_plain (fun _ ht => List.mem_singleton.mp ht ▸ plain_intStr n), tempDir_eq s h,
    List.append_assoc]
  rfl

/-- The file of a part is in the directory of the uploads. -/
theorem multipartDir_prefix_partPath (s : LocalStorage) {uploadId : ByteString}
    (h : Plain uploadId) (n : Int) : s.multipartDir <+: s.partPath uploadId n := by
  refine ⟨[uploadId, intStr n], ?_⟩
  rw [partPath_eq s h, multipartDir, List.append_assoc]
  rfl

theorem multipartDir_prefix_tempDir (s : LocalStorage) {uploadId : ByteString}
    (h : Plain uploadId) : s.multipartDir <+: s.tempDir uploadId := by
  refine ⟨[uploadId], ?_⟩
  rw [tempDir_eq s h, multipartDir, List.append_assoc]
  rfl

/-- The paths are made of the configuration. -/
theorem partPath_congr {s s' : LocalStorage} (h : s'.config = s.config) (uploadId : ByteString)
    (n : Int) : s'.partPath uploadId n = s.partPath uploadId n := by
  rw [partPath, partPath, tempDir, tempDir, multipartDir, multipartDir, h]

theorem getFullPath_congr {s s' : LocalStorage} (h : s'.config = s.config)
    (bucket key : ByteString) : s'.getFullPath bucket key = s.getFullPath bucket key := by
  rw [getFullPath, getFullPath, h]

/-- Different parts are kept in different files. -/
theorem partPath_injective {s : LocalStorage} {id id' : ByteString} {n n' : Int} (h : Plain id)
    (h' : Plain id') (heq : s.partPath id n = s.partPath id' n') : id = id' ∧ n = n' := by
  rw [partPath_eq s h, partPath_eq s h'] at heq
  have htail := List.append_cancel_left heq
  simp only [List.cons.injEq, and_true, true_and] at htail
  exact ⟨htail.1, intStr_injective htail.2⟩

/-! ## The operations -/

/-- An upload entered into the table. -/
def track (s : LocalStorage) (uploadId : ByteString) (state : MultipartUploadState)
    (h : Plain uploadId) : LocalStorage :=
  { s with
    multipartUploads := s.multipartUploads.insert uploadId state
    plainIds := by
      intro id state' hget
      rw [InsertionMap.get?_insert] at hget
      split at hget
      · rename_i hid
        rw [hid]
        exact h
      · exact s.plainIds id state' hget }

/-- An upload taken from the table. -/
def untrack (s : LocalStorage) (uploadId : ByteString) : LocalStorage :=
  { s with
    multipartUploads := s.multipartUploads.erase uploadId
    plainIds := by
      intro id state hget
      rw [InsertionMap.get?_erase] at hget
      split at hget
      · exact nomatch hget
      · exact s.plainIds id state hget }

def withFiles (s : LocalStorage) (files : Files) : LocalStorage := { s with files := files }

/-- The message of an error of this provider. -/
def errorMsg (kind : StorageErrorKind) (message : ByteString) (operation : String) : ByteString :=
  (newStorageError kind message (ascii "local") (ascii operation)).msg

/-- What `init_multipart` meets: the errors of its two `mkdir_all`, the clock and the random
    bytes. -/
structure InitIo where
  mkdirBucket : Option ByteString := none
  now         : Int := 0
  random      : Option ByteString := none
  mkdirTemp   : Option ByteString := none

def initMultipart (s : LocalStorage) (io : InitIo) (bucket key contentType : ByteString) :
    LocalStorage × Except ByteString ByteString :=
  match if s.config.createDirs = true then io.mkdirBucket else none with
  | some err => (s, .error (errorMsg .invalidConfig
      (ascii "Failed to create bucket directory: " ++ err) "init_multipart"))
  | none =>
    match io.mkdirTemp with
    | some err => (s, .error (errorMsg .unknown
        (ascii "Failed to create temp directory: " ++ err) "init_multipart"))
    | none =>
      (s.track (generateUploadId io.now io.random) ⟨bucket, key, contentType, .empty⟩
        (plain_generateUploadId io.now io.random), .ok (generateUploadId io.now io.random))

/-- What a write meets, and the text of its error. -/
structure WriteIo where
  outcome : WriteOutcome ByteString := .done
  error   : ByteString := []

/-- `write_file_array`: the file replaced, as far as the write goes. -/
def writeFile (s : LocalStorage) (io : WriteIo) (path : Path) (data : ByteString) : LocalStorage :=
  s.withFiles (s.files.set path (io.outcome.apply (s.files path) data))

def notFound (uploadId : ByteString) (operation : String) : ByteString :=
  errorMsg .objectNotFound (ascii "Multipart upload not found: " ++ uploadId) operation

/-- The bucket and the key are not used. -/
def uploadPart (s : LocalStorage) (io : WriteIo) (uploadId : ByteString) (partNumber : Int)
    (data : ByteString) : LocalStorage × Except ByteString ByteString :=
  match h : s.multipartUploads.get? uploadId with
  | none => (s, .error (notFound uploadId "upload_part"))
  | some state =>
    let written := s.writeFile io (s.partPath uploadId partNumber) data
    if io.outcome.ok = false then
      (written, .error (errorMsg .unknown (ascii "Failed to write part: " ++ io.error)
        "upload_part"))
    else
      let etag := s.calculateEtag data
      (written.track uploadId
        { state with parts := state.parts.insert partNumber ⟨partNumber, etag, data.length⟩ }
        (s.plainIds uploadId state h), .ok etag)

/-- What `complete_multipart` meets: the parts that can be read, the parent directory, the
    write of the object, and what the removal of the temporary directory leaves. -/
structure CompleteIo where
  reads       : Int → Bool := fun _ => true
  mkdirParent : Option ByteString := none
  write       : WriteIo := {}
  keeps       : Path → Bool := fun _ => false

/-- The loop over the parts; it stops at the first that cannot be read. -/
def readParts (s : LocalStorage) (io : CompleteIo) (uploadId : ByteString) :
    List PartInfo → ByteString → Except Int ByteString
  | [], finalData => .ok finalData
  | part :: parts, finalData =>
    match if io.reads part.partNumber = true then s.files (s.partPath uploadId part.partNumber)
      else none with
    | none => .error part.partNumber
    | some partData => readParts s io uploadId parts (finalData ++ partData)

def completeMultipart (s : LocalStorage) (io : CompleteIo) (bucket key uploadId : ByteString)
    (parts : List PartInfo) : LocalStorage × Except ByteString StorageResult :=
  match s.multipartUploads.get? uploadId with
  | none => (s, .error (notFound uploadId "complete_multipart"))
  | some _ =>
    match s.readParts io uploadId parts [] with
    | .error n => (s, .error (errorMsg .objectNotFound (ascii "Part not found: " ++ intStr n)
        "complete_multipart"))
    | .ok finalData =>
      match io.mkdirParent with
      | some err => (s, .error (errorMsg .invalidConfig
          (ascii "Failed to create parent directory: " ++ err) "complete_multipart"))
      | none =>
        let written := s.writeFile io.write (s.getFullPath bucket key) finalData
        if io.write.outcome.ok = false then
          (written, .error (errorMsg .unknown
            (ascii "Failed to write final file: " ++ io.write.error) "complete_multipart"))
        else
          let cleaned := written.withFiles (written.files.removeTree (s.tempDir uploadId) io.keeps)
          (cleaned.untrack uploadId, .ok ⟨key, s.calculateEtag finalData, finalData.length⟩)

def abortMultipart (s : LocalStorage) (keeps : Path → Bool) (uploadId : ByteString) :
    LocalStorage × Except ByteString Unit :=
  match s.multipartUploads.get? uploadId with
  | none => (s, .error (notFound uploadId "abort_multipart"))
  | some _ =>
    ((s.withFiles (s.files.removeTree (s.tempDir uploadId) keeps)).untrack uploadId, .ok ())

/-! ## What the operations do to the files -/

theorem initMultipart_spec (s : LocalStorage) (io : InitIo) (bucket key contentType : ByteString) :
    (s.initMultipart io bucket key contentType).1.config = s.config ∧
    (s.initMultipart io bucket key contentType).1.files = s.files ∧
    ∀ uploadId, (s.initMultipart io bucket key contentType).2 = .ok uploadId → Plain uploadId := by
  fun_cases initMultipart s io bucket key contentType with
  | case1 err hbucket => exact ⟨rfl, rfl, fun _ h => (by cases h)⟩
  | case2 hbucket err htemp => exact ⟨rfl, rfl, fun _ h => (by cases h)⟩
  | case3 hbucket htemp =>
      refine ⟨rfl, rfl, fun uploadId h => ?_⟩
      rw [← Except.ok.inj h]
      exact plain_generateUploadId io.now io.random

/-- **WHAT STORING A PART DOES.**  A part of an upload in the table is written to its file, and
    accepted if the write goes through. -/
theorem uploadPart_spec (s : LocalStorage) (io : WriteIo) (uploadId : ByteString) (n : Int)
    (data : ByteString) :
    (s.uploadPart io uploadId n data).1.config = s.config ∧
    ((s.multipartUploads.get? uploadId = none ∧ (s.uploadPart io uploadId n data).1.files = s.files ∧
        ∀ etag, (s.uploadPart io uploadId n data).2 ≠ .ok etag) ∨
      ((s.multipartUploads.get? uploadId).isSome = true ∧ Plain uploadId ∧
        (s.uploadPart io uploadId n data).1.files = s.files.set (s.partPath uploadId n)
          (io.outcome.apply (s.files (s.partPath uploadId n)) data) ∧
        ((∃ etag, (s.uploadPart io uploadId n data).2 = .ok etag) ↔ io.outcome = .done))) := by
  fun_cases uploadPart s io uploadId n data with
  | case1 hget => exact ⟨rfl, Or.inl ⟨hget, rfl, fun _ h => (by cases h)⟩⟩
  | case2 state hget written hfailed =>
      refine ⟨rfl, Or.inr ⟨?_, s.plainIds uploadId state hget, rfl, ?_, ?_⟩⟩
      · rw [hget]
        rfl
      · exact fun ⟨_, h⟩ => (by cases h)
      · intro hdone
        rw [hdone] at hfailed
        cases hfailed
  | case3 state hget written hok etag =>
      refine ⟨rfl, Or.inr ⟨?_, s.plainIds uploadId state hget, rfl, fun _ => ?_, fun _ => ⟨_, rfl⟩⟩⟩
      · rw [hget]
        rfl
      · cases houtcome : io.outcome with
        | done => rfl
        | failed torn =>
            rw [houtcome] at hok
            exact absurd rfl hok

/-- The loop joins the files of the parts. -/
theorem readParts_ok {s : LocalStorage} {io : CompleteIo} {uploadId : ByteString} :
    ∀ {parts : List PartInfo} {before after : ByteString},
      s.readParts io uploadId parts before = .ok after →
      ∃ content, assemble (fun n => s.files (s.partPath uploadId n)) (parts.map (·.partNumber))
        = some content ∧ after = before ++ content := by
  intro parts
  induction parts with
  | nil =>
      intro before after h
      exact ⟨[], rfl, by rw [← Except.ok.inj h, List.append_nil]⟩
  | cons part parts ih =>
      intro before after h
      rw [readParts] at h
      split at h
      · cases h
      · rename_i partData hread
        split at hread
        · obtain ⟨content, hcontent, rfl⟩ := ih h
          exact ⟨partData ++ content, assemble_cons_some hread hcontent,
            List.append_assoc ..⟩
        · cases hread

/-- **WHAT COMPLETING AN UPLOAD DOES.**  Only the object's file may get a new content.  If it
    succeeds, that is what the loop has read, and the directory of the upload is removed. -/
theorem completeMultipart_spec (s : LocalStorage) (io : CompleteIo) (bucket key uploadId : ByteString)
    (parts : List PartInfo) :
    (s.completeMultipart io bucket key uploadId parts).1.config = s.config ∧
    (∀ p content, p ≠ s.getFullPath bucket key →
      (s.completeMultipart io bucket key uploadId parts).1.files p = some content →
      s.files p = some content) ∧
    ∀ result, (s.completeMultipart io bucket key uploadId parts).2 = .ok result →
      Plain uploadId ∧ ∃ data, s.readParts io uploadId parts [] = .ok data ∧
        (s.completeMultipart io bucket key uploadId parts).1.files
          = (s.files.set (s.getFullPath bucket key) (some data)).removeTree (s.tempDir uploadId)
            io.keeps := by
  fun_cases completeMultipart s io bucket key uploadId parts with
  | case1 hget => exact ⟨rfl, fun _ _ _ h => h, fun _ h => (by cases h)⟩
  | case2 state hget n hread => exact ⟨rfl, fun _ _ _ h => h, fun _ h => (by cases h)⟩
  | case3 state hget data hread err hparent => exact ⟨rfl, fun _ _ _ h => h, fun _ h => (by cases h)⟩
  | case4 state hget data hread hparent written hfailed =>
      refine ⟨rfl, ?_, fun _ h => (by cases h)⟩
      intro p content hp h
      exact (Files.set_other s.files hp _).symm.trans h
  | case5 state hget data hread hparent written hok cleaned =>
      refine ⟨rfl, ?_, ?_⟩
      · intro p content hp h
        exact (Files.set_other s.files hp _).symm.trans (Files.of_removeTree h)
      · intro result _
        refine ⟨s.plainIds uploadId state hget, data, hread, ?_⟩
        cases houtcome : io.write.outcome with
        | done =>
            show (s.files.set _ (io.write.outcome.apply _ data)).removeTree _ _ = _
            rw [houtcome]
            rfl
        | failed torn =>
            rw [houtcome] at hok
            exact absurd rfl hok

theorem abortMultipart_spec (s : LocalStorage) (keeps : Path → Bool) (uploadId : ByteString) :
    (s.abortMultipart keeps uploadId).1.config = s.config ∧
    ∀ p content, (s.abortMultipart keeps uploadId).1.files p = some content →
      s.files p = some content := by
  fun_cases abortMultipart s keeps uploadId with
  | case1 hget => exact ⟨rfl, fun _ _ h => h⟩
  | case2 state hget => exact ⟨rfl, fun _ _ h => Files.of_removeTree h⟩

end LocalStorage

end VHono
