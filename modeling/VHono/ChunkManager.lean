import VHono.LocalStorage
import VHono.MachineRuns
import VHono.UploadTables

/-! # The multipart upload manager

    The operations of the chunk manager over the tables and the local storage.
    The table of uploads decides whether a call is allowed, the storage keeps
    the bodies, and a part is accepted once both have taken it. -/

namespace VHono

open ByteString PathSegments PieceAssembly MachineRuns

structure ChunkManagerConfig where
  defaultChunkSize : Int := 5 * 1024 * 1024
  maxChunkSize     : Int := 100 * 1024 * 1024
  minChunkSize     : Int := 1024 * 1024
  maxParts         : Int := 10000
  retryCount       : Int := 3

structure InitMultipartParams where
  bucket      : ByteString
  objectKey   : ByteString
  fileName    : ByteString
  fileSize    : Int
  contentType : ByteString
  chunkSize   : Int

structure ChunkUploadResult where
  uploadId   : ByteString
  partNumber : Int
  etag       : ByteString
  size       : Int
  success    : Bool
  errorMsg   : ByteString
  deriving DecidableEq, Repr

structure ChunkManager where
  config   : ChunkManagerConfig
  db       : UploadTables
  provider : LocalStorage

namespace ChunkManager

def new (config : ChunkManagerConfig) (provider : LocalStorage) : ChunkManager where
  config := config
  db := .empty
  provider := provider

/-! ## Starting an upload -/

def validateChunkSize (cm : ChunkManager) (size : Int) : Int :=
  if size < cm.config.minChunkSize then cm.config.minChunkSize
  else if size > cm.config.maxChunkSize then cm.config.maxChunkSize
  else size

/-- `int(n)`, cut to 32 bits. -/
def toInt (n : Int) : Int := n.bmod (2 ^ 32)

/-- The number of parts, unless the division by the chunk size panics. -/
def calculateTotalChunks (fileSize chunkSize : Int) : Option Int :=
  if chunkSize = 0 then none
  else
    let chunks := fileSize.tdiv chunkSize
    if fileSize.tmod chunkSize > 0 then some (toInt (toInt chunks + 1)) else some (toInt chunks)

inductive InitFailure
  | error (message : ByteString)
  | panic
  deriving DecidableEq, Repr

structure InitIo where
  storage : LocalStorage.InitIo := {}
  insert  : UploadTables.InsertIo := {}

def initMultipart (cm : ChunkManager) (io : InitIo) (params : InitMultipartParams) :
    ChunkManager × Except InitFailure MultipartUpload :=
  if params.bucket = [] then (cm, .error (.error (ascii "Bucket name is required")))
  else if params.objectKey = [] then (cm, .error (.error (ascii "Object key is required")))
  else if params.fileSize ≤ 0 then (cm, .error (.error (ascii "File size must be positive")))
  else
    let chunkSize := if params.chunkSize > 0 then cm.validateChunkSize params.chunkSize
      else cm.config.defaultChunkSize
    match calculateTotalChunks params.fileSize chunkSize with
    | none => (cm, .error .panic)
    | some totalChunks =>
      if totalChunks > cm.config.maxParts then
        (cm, .error (.error (ascii "File too large: would require " ++ intStr totalChunks ++
          ascii " parts, max is " ++ intStr cm.config.maxParts)))
      else
        let started := cm.provider.initMultipart io.storage params.bucket params.objectKey
          params.contentType
        match started.2 with
        | .error err => ({ cm with provider := started.1 }, .error (.error err))
        | .ok providerUploadId =>
          let created := cm.db.createMultipartUpload io.insert
            ⟨providerUploadId, [], params.fileName, params.fileSize, chunkSize, totalChunks,
              params.bucket, params.objectKey, params.contentType, .uploading⟩
          ({ cm with provider := started.1, db := created.1 },
            match created.2 with
            | .error err => .error (.error err)
            | .ok upload => .ok upload)

/-! ## Uploading a part -/

structure PartIo where
  find   : Option ByteString := none
  write  : LocalStorage.WriteIo := {}
  record : Option ByteString := none

def failedPart (uploadId : ByteString) (partNumber : Int) (errorMsg : ByteString) :
    ChunkUploadResult :=
  ⟨uploadId, partNumber, [], 0, false, errorMsg⟩

/-- The part stored by the provider and recorded in the table. -/
def storePart (cm : ChunkManager) (io : PartIo) (uploadId : ByteString) (partNumber : Int)
    (data : ByteString) : ChunkManager × ChunkUploadResult :=
  let stored := cm.provider.uploadPart io.write uploadId partNumber data
  match stored.2 with
  | .error err => ({ cm with provider := stored.1 },
      failedPart uploadId partNumber (ascii "Failed to upload part: " ++ err))
  | .ok etag =>
    let recorded := cm.db.recordUploadedPart io.record uploadId partNumber etag data.length
    ({ cm with provider := stored.1, db := recorded.1 },
      match recorded.2 with
      | .error err =>
        failedPart uploadId partNumber (ascii "Failed to record uploaded part: " ++ err)
      | .ok _ => ⟨uploadId, partNumber, etag, data.length, true, []⟩)

def uploadPart (cm : ChunkManager) (io : PartIo) (uploadId : ByteString) (partNumber : Int)
    (data : ByteString) : ChunkManager × ChunkUploadResult :=
  match cm.db.getMultipartUpload io.find uploadId with
  | .error _ => (cm, failedPart uploadId partNumber (ascii "Upload not found: " ++ uploadId))
  | .ok upload =>
    if upload.status ≠ .uploading then
      (cm, failedPart uploadId partNumber
        (ascii "Upload is not in uploading state: " ++ upload.status.str))
    else if partNumber < 1 ∨ partNumber > upload.totalChunks then
      (cm, failedPart uploadId partNumber (ascii "Invalid part number: " ++ intStr partNumber ++
        ascii ", expected 1-" ++ intStr upload.totalChunks))
    else cm.storePart io uploadId partNumber data

/-! ## Completing an upload -/

/-- The hash of the file record, made of the id and the declared size. -/
def calculateChunkFileHash (cm : ChunkManager) (uploadId : ByteString) (fileSize : Int) :
    ByteString :=
  LocalStorage.hexStr (cm.provider.md5 (uploadId ++ ascii "-" ++ intStr fileSize))

structure CompleteIo where
  find    : Option ByteString := none
  list    : Option ByteString := none
  storage : LocalStorage.CompleteIo := {}
  status  : Option ByteString := none
  insert  : UploadTables.InsertIo := {}

/-- The storage has the object: the upload is completed and the file recorded.  That the file
    is recorded already is no error. -/
def finishUpload (cm : ChunkManager) (io : CompleteIo) (uploadId : ByteString)
    (upload : MultipartUpload) (result : StorageResult) :
    ChunkManager × Except ByteString StorageResult :=
  let updated := cm.db.updateMultipartStatus io.status uploadId .completed
  match updated.2 with
  | .error err => ({ cm with db := updated.1 }, .error err)
  | .ok _ =>
    let inserted := updated.1.insertFile io.insert
      ⟨upload.fileUuid, cm.calculateChunkFileHash uploadId upload.fileSize, upload.fileName,
        upload.fileSize, upload.contentType, ascii "local", upload.bucket, upload.objectKey, []⟩
    ({ cm with db := inserted.1 }, .ok result)

def completeMultipart (cm : ChunkManager) (io : CompleteIo) (uploadId : ByteString) :
    ChunkManager × Except ByteString StorageResult :=
  match cm.db.getMultipartUpload io.find uploadId with
  | .error err => (cm, .error err)
  | .ok upload =>
    if upload.status ≠ .uploading then
      (cm, .error (ascii "Upload is not in uploading state: " ++ upload.status.str))
    else
      match cm.db.getUploadedParts io.list uploadId with
      | .error err => (cm, .error err)
      | .ok uploadedParts =>
        if (uploadedParts.length : Int) ≠ upload.totalChunks then
          (cm, .error (ascii "Not all parts uploaded: " ++ decimal uploadedParts.length ++
            ascii "/" ++ intStr upload.totalChunks))
        else
          let parts := UploadTables.sortByPart (·.partNumber)
            (uploadedParts.map (fun part => PartInfo.mk part.partNumber part.etag part.size))
          let completed := cm.provider.completeMultipart io.storage upload.bucket
            upload.objectKey uploadId parts
          let cm := { cm with provider := completed.1 }
          match completed.2 with
          | .error err => (cm, .error err)
          | .ok result => cm.finishUpload io uploadId upload result

/-! ## Aborting an upload -/

structure AbortIo where
  find         : Option ByteString := none
  keeps        : Path → Bool := fun _ => false
  status       : Option ByteString := none
  deleteParts  : Option ByteString := none
  deleteUpload : Option ByteString := none

def abortMultipart (cm : ChunkManager) (io : AbortIo) (uploadId : ByteString) :
    ChunkManager × Except ByteString Unit :=
  match cm.db.getMultipartUpload io.find uploadId with
  | .error _ => (cm, .error (ascii "Upload not found: " ++ uploadId))
  | .ok _ =>
    -- an error of the provider is ignored
    let cm := { cm with provider := (cm.provider.abortMultipart io.keeps uploadId).1 }
    let updated := cm.db.updateMultipartStatus io.status uploadId .aborted
    match updated.2 with
    | .error err => ({ cm with db := updated.1 }, .error err)
    | .ok _ =>
      let deleted := updated.1.deleteMultipartUpload io.deleteParts io.deleteUpload uploadId
      ({ cm with db := deleted.1 }, deleted.2)

end ChunkManager

/-! ## The machine -/

inductive MultipartCall
  | init (io : ChunkManager.InitIo) (params : InitMultipartParams)
  | uploadPart (io : ChunkManager.PartIo) (uploadId : ByteString) (partNumber : Int)
      (data : ByteString)
  | complete (io : ChunkManager.CompleteIo) (uploadId : ByteString)
  | abort (io : ChunkManager.AbortIo) (uploadId : ByteString)

inductive MultipartOutput
  | started (result : Except ChunkManager.InitFailure MultipartUpload)
  | part (result : ChunkUploadResult)
  | completed (result : Except ByteString StorageResult)
  | aborted (result : Except ByteString Unit)

namespace ChunkManager

def step (cm : ChunkManager) (call : MultipartCall) : ChunkManager × MultipartOutput :=
  match call with
  | .init io params =>
    let out := cm.initMultipart io params
    (out.1, .started out.2)
  | .uploadPart io uploadId partNumber data =>
    let out := cm.uploadPart io uploadId partNumber data
    (out.1, .part out.2)
  | .complete io uploadId =>
    let out := cm.completeMultipart io uploadId
    (out.1, .completed out.2)
  | .abort io uploadId =>
    let out := cm.abortMultipart io uploadId
    (out.1, .aborted out.2)

/-! ## What a call does -/

/-- **WHAT STARTING AN UPLOAD DOES.**  No file and no part changes, and an upload that is
    started has an id of its own and is declared as the parameters say. -/
theorem initMultipart_spec (cm : ChunkManager) (io : InitIo) (params : InitMultipartParams) :
    (cm.initMultipart io params).1.provider.config = cm.provider.config ∧
    (cm.initMultipart io params).1.provider.files = cm.provider.files ∧
    (cm.initMultipart io params).1.db.parts = cm.db.parts ∧
    (((cm.initMultipart io params).1.db = cm.db ∧
        ∀ upload, (cm.initMultipart io params).2 ≠ .ok upload) ∨
      ∃ upload, (cm.initMultipart io params).2 = .ok upload ∧ Plain upload.uploadId ∧
        upload.bucket = params.bucket ∧ upload.objectKey = params.objectKey ∧
        upload.fileSize = params.fileSize ∧ cm.db.declared upload.uploadId = none ∧
        ∀ id, (cm.initMultipart io params).1.db.declared id
          = if id = upload.uploadId then some upload else cm.db.declared id) := by
  fun_cases initMultipart cm io params with
  | case1 hbucket => exact ⟨rfl, rfl, rfl, Or.inl ⟨rfl, fun _ h => (by cases h)⟩⟩
  | case2 hbucket hkey => exact ⟨rfl, rfl, rfl, Or.inl ⟨rfl, fun _ h => (by cases h)⟩⟩
  | case3 hbucket hkey hsize => exact ⟨rfl, rfl, rfl, Or.inl ⟨rfl, fun _ h => (by cases h)⟩⟩
  | case4 hbucket hkey hsize chunkSize htotal =>
      exact ⟨rfl, rfl, rfl, Or.inl ⟨rfl, fun _ h => (by cases h)⟩⟩
  | case5 hbucket hkey hsize chunkSize total htotal hmax =>
      exact ⟨rfl, rfl, rfl, Or.inl ⟨rfl, fun _ h => (by cases h)⟩⟩
  | case6 hbucket hkey hsize chunkSize total htotal hmax started err hstarted =>
      obtain ⟨hconfig, hfiles, -⟩ := LocalStorage.initMultipart_spec cm.provider io.storage
        params.bucket params.objectKey params.contentType
      exact ⟨hconfig, hfiles, rfl, Or.inl ⟨rfl, fun _ h => (by cases h)⟩⟩
  | case7 hbucket hkey hsize chunkSize total htotal hmax started id hstarted created =>
      obtain ⟨hconfig, hfiles, hplain⟩ := LocalStorage.initMultipart_spec cm.provider io.storage
        params.bucket params.objectKey params.contentType
      obtain ⟨hparts, hcreated⟩ := UploadTables.createMultipartUpload_spec cm.db io.insert
        ⟨id, [], params.fileName, params.fileSize, chunkSize, total, params.bucket,
          params.objectKey, params.contentType, .uploading⟩
      refine ⟨hconfig, hfiles, hparts, ?_⟩
      rcases hcreated with ⟨hsame, herror⟩ | ⟨hok, hfresh, hdeclared⟩
      · refine Or.inl ⟨hsame, ?_⟩
        intro upload
        cases hresult : created.2 with
        | error err => exact fun h => (by cases h)
        | ok row => exact absurd hresult (herror row)
      · have hid : Plain id := hplain id hstarted
        refine Or.inr ⟨_, ?_, ?_, rfl, rfl, rfl, hfresh, hdeclared⟩
        · show (match created.2 with | .error err => _ | .ok upload => _) = _
          rw [show created.2 = _ from hok]
        · rw [UploadTables.newUpload]
          dsimp only
          rw [if_pos hid.nonempty]
          exact hid

/-- The call passes the checks of the manager and of the storage. -/
def Reaches (cm : ChunkManager) (io : PartIo) (uploadId : ByteString) (n : Int) : Prop :=
  ∃ upload, cm.db.getMultipartUpload io.find uploadId = .ok upload ∧ upload.status = .uploading ∧
    1 ≤ n ∧ n ≤ upload.totalChunks ∧ (cm.provider.multipartUploads.get? uploadId).isSome = true

/-- What the storing of a part changes. -/
theorem storePart_spec (cm : ChunkManager) (io : PartIo) (uploadId : ByteString) (n : Int)
    (data : ByteString) :
    (cm.storePart io uploadId n data).1.provider = (cm.provider.uploadPart io.write uploadId n data).1 ∧
    (cm.storePart io uploadId n data).1.db.uploads = cm.db.uploads ∧
    (((cm.storePart io uploadId n data).2.success = false ∧
        (cm.storePart io uploadId n data).1.db.parts = cm.db.parts ∧
        ((∃ etag, (cm.provider.uploadPart io.write uploadId n data).2 = .ok etag) →
          io.record ≠ none)) ∨
      ((cm.storePart io uploadId n data).2.success = true ∧ io.record = none ∧
        ∃ etag, (cm.provider.uploadPart io.write uploadId n data).2 = .ok etag ∧
          (cm.storePart io uploadId n data).1.db.parts
            = cm.db.parts.insert (uploadId, n) (etag, data.length))) := by
  fun_cases storePart cm io uploadId n data with
  | case1 stored err hstored =>
      refine ⟨rfl, rfl, Or.inl ⟨rfl, rfl, ?_⟩⟩
      rintro ⟨etag, hok⟩
      exact nomatch hstored.symm.trans hok
  | case2 stored etag hstored recorded =>
      cases hrecord : io.record with
      | some err =>
          have hrecorded : recorded = (cm.db, .error (ascii "Failed to record uploaded part: " ++ err)) := by
            show cm.db.recordUploadedPart io.record uploadId n etag data.length = _
            rw [hrecord]
            rfl
          rw [hrecorded]
          exact ⟨rfl, rfl, Or.inl ⟨rfl, rfl, fun _ h => (by cases h)⟩⟩
      | none =>
          have hrecorded : recorded = ({ cm.db with
              parts := cm.db.parts.insert (uploadId, n) (etag, data.length) },
              .ok ⟨uploadId, n, etag, data.length⟩) := by
            show cm.db.recordUploadedPart io.record uploadId n etag data.length = _
            rw [hrecord]
            rfl
          rw [hrecorded]
          exact ⟨rfl, rfl, Or.inr ⟨rfl, rfl, etag, hstored, rfl⟩⟩

/-- **WHAT UPLOADING A PART DOES.**  A call that does not reach the storage changes nothing.  One
    that does writes the part's file, and the part is accepted and recorded if both the write
    and the record go through. -/
theorem uploadPart_spec (cm : ChunkManager) (io : PartIo) (uploadId : ByteString) (n : Int)
    (data : ByteString) :
    (cm.uploadPart io uploadId n data).1.provider.config = cm.provider.config ∧
    (cm.uploadPart io uploadId n data).1.db.uploads = cm.db.uploads ∧
    (((cm.uploadPart io uploadId n data).2.success = false ∧
        (cm.uploadPart io uploadId n data).1.provider.files = cm.provider.files ∧
        (cm.uploadPart io uploadId n data).1.db.parts = cm.db.parts) ∨
      (cm.Reaches io uploadId n ∧ Plain uploadId ∧
        (cm.uploadPart io uploadId n data).1.provider.files
          = cm.provider.files.set (cm.provider.partPath uploadId n)
            (io.write.outcome.apply (cm.provider.files (cm.provider.partPath uploadId n)) data) ∧
        (((cm.uploadPart io uploadId n data).2.success = false ∧
            (cm.uploadPart io uploadId n data).1.db.parts = cm.db.parts ∧
            ¬ (io.write.outcome = .done ∧ io.record = none)) ∨
          ((cm.uploadPart io uploadId n data).2.success = true ∧ io.write.outcome = .done ∧
            io.record = none ∧ ∃ etag, (cm.uploadPart io uploadId n data).1.db.parts
              = cm.db.parts.insert (uploadId, n) (etag, data.length))))) := by
  fun_cases uploadPart cm io uploadId n data with
  | case1 err hfind => exact ⟨rfl, rfl, Or.inl ⟨rfl, rfl, rfl⟩⟩
  | case2 upload hfind hstatus => exact ⟨rfl, rfl, Or.inl ⟨rfl, rfl, rfl⟩⟩
  | case3 upload hfind hstatus hrange => exact ⟨rfl, rfl, Or.inl ⟨rfl, rfl, rfl⟩⟩
  | case4 upload hfind hstatus hrange =>
      obtain ⟨hprovider, huploads, hstored⟩ := storePart_spec cm io uploadId n data
      obtain ⟨hconfig, hfiles⟩ := LocalStorage.uploadPart_spec cm.provider io.write uploadId n data
      rw [hprovider]
      refine ⟨hconfig, huploads, ?_⟩
      rcases hfiles with ⟨hnone, hsame, hrefused⟩ | ⟨hknown, hplain, hwritten, hwrite⟩
      · -- the storage does not know the upload
        rcases hstored with ⟨hfailed, hparts, -⟩ | ⟨-, -, etag, hok, -⟩
        · exact Or.inl ⟨hfailed, hsame, hparts⟩
        · exact absurd hok (hrefused etag)
      · rw [not_or, Int.not_lt, Int.not_lt] at hrange
        refine Or.inr ⟨⟨upload, hfind, not_not.mp hstatus, hrange.1, hrange.2, hknown⟩, hplain,
          hwritten, ?_⟩
        rcases hstored with ⟨hfailed, hparts, hrecord⟩ | ⟨haccepted, hrecord, etag, hok, hparts⟩
        · exact Or.inl ⟨hfailed, hparts, fun ⟨hdone, hnone⟩ => hrecord (hwrite.mpr hdone) hnone⟩
        · exact Or.inr ⟨haccepted, hwrite.mp ⟨etag, hok⟩, hrecord, etag, hparts⟩

theorem finishUpload_spec (cm : ChunkManager) (io : CompleteIo) (uploadId : ByteString)
    (upload : MultipartUpload) (result : StorageResult) :
    (cm.finishUpload io uploadId upload result).1.provider = cm.provider ∧
    (cm.finishUpload io uploadId upload result).1.db.parts = cm.db.parts ∧
    (cm.finishUpload io uploadId upload result).1.db.declared = cm.db.declared := by
  obtain ⟨hparts, hdeclared⟩ :=
    UploadTables.updateMultipartStatus_spec cm.db io.status uploadId .completed
  fun_cases finishUpload cm io uploadId upload result with
  | case1 updated err hupdated => exact ⟨rfl, hparts, hdeclared⟩
  | case2 updated ok hupdated inserted =>
      obtain ⟨hparts', hdeclared'⟩ := UploadTables.insertFile_spec updated.1 io.insert
        ⟨upload.fileUuid, cm.calculateChunkFileHash uploadId upload.fileSize, upload.fileName,
          upload.fileSize, upload.contentType, ascii "local", upload.bucket, upload.objectKey, []⟩
      exact ⟨rfl, hparts'.trans hparts, hdeclared'.trans hdeclared⟩

/-- The parts handed to the storage are the rows, by number. -/
theorem sortByPart_rows (t : UploadTables) (uploadId : ByteString) :
    (UploadTables.sortByPart (·.partNumber)
        ((UploadTables.sortByPart (·.partNumber) (t.partRows uploadId)).map
          (fun part => PartInfo.mk part.partNumber part.etag part.size))).map (·.partNumber)
      = (UploadTables.sortByPart (·.partNumber) (t.partRows uploadId)).map (·.partNumber) := by
  have hsorted := UploadTables.pairwise_sortByPart (UploadTables.nodup_partRows t uploadId)
  rw [UploadTables.sortByPart_sorted]
  · rw [List.map_map]
    rfl
  · rw [List.map_map]
    exact hsorted

/-- **WHAT COMPLETING AN UPLOAD DOES.**  The rows stay, up to the status, and only the object's
    file may get a new content.  If it succeeds, there are as many rows as parts, and the
    object joins the files of the rows by number. -/
theorem completeMultipart_spec (cm : ChunkManager) (io : CompleteIo) (uploadId : ByteString) :
    (cm.completeMultipart io uploadId).1.provider.config = cm.provider.config ∧
    (cm.completeMultipart io uploadId).1.db.parts = cm.db.parts ∧
    (cm.completeMultipart io uploadId).1.db.declared = cm.db.declared ∧
    (∀ p content, (cm.completeMultipart io uploadId).1.provider.files p = some content →
      cm.provider.files p = some content ∨ ∃ upload, cm.db.declared uploadId = some upload ∧
        p = cm.provider.getFullPath upload.bucket upload.objectKey) ∧
    ∀ result, (cm.completeMultipart io uploadId).2 = .ok result →
      ∃ upload, cm.db.declared uploadId = some upload ∧ Plain uploadId ∧
        ((cm.db.partRows uploadId).length : Int) = upload.totalChunks ∧
        ∃ content, assemble (fun n => cm.provider.files (cm.provider.partPath uploadId n))
          ((UploadTables.sortByPart (·.partNumber) (cm.db.partRows uploadId)).map (·.partNumber))
            = some content ∧
          (cm.completeMultipart io uploadId).1.provider.files
            = (cm.provider.files.set (cm.provider.getFullPath upload.bucket upload.objectKey)
                (some content)).removeTree (cm.provider.tempDir uploadId) io.storage.keeps := by
  fun_cases completeMultipart cm io uploadId with
  | case1 err hfind => exact ⟨rfl, rfl, rfl, fun _ _ h => Or.inl h, fun _ h => (by cases h)⟩
  | case2 upload hfind hstatus => exact ⟨rfl, rfl, rfl, fun _ _ h => Or.inl h, fun _ h => (by cases h)⟩
  | case3 upload hfind hstatus err hlist =>
      exact ⟨rfl, rfl, rfl, fun _ _ h => Or.inl h, fun _ h => (by cases h)⟩
  | case4 upload hfind hstatus rows hlist hcount =>
      exact ⟨rfl, rfl, rfl, fun _ _ h => Or.inl h, fun _ h => (by cases h)⟩
  | case5 upload hfind hstatus rows hlist hcount parts completed cm' err hcompleted =>
      obtain ⟨hconfig, hothers, -⟩ := LocalStorage.completeMultipart_spec cm.provider io.storage
        upload.bucket upload.objectKey uploadId parts
      have hdeclared := UploadTables.declared_of_get (UploadTables.getMultipartUpload_ok hfind)
      refine ⟨hconfig, rfl, rfl, ?_, fun _ h => (by cases h)⟩
      intro p content h
      by_cases hp : p = cm.provider.getFullPath upload.bucket upload.objectKey
      · exact Or.inr ⟨_, hdeclared, hp⟩
      · exact Or.inl (hothers p content hp h)
  | case6 upload hfind hstatus rows hlist hcount parts completed cm' result hcompleted =>
      obtain ⟨hconfig, hothers, hok⟩ := LocalStorage.completeMultipart_spec cm.provider io.storage
        upload.bucket upload.objectKey uploadId parts
      obtain ⟨hprovider, hparts, hkept⟩ := finishUpload_spec cm' io uploadId upload result
      have hdeclared := UploadTables.declared_of_get (UploadTables.getMultipartUpload_ok hfind)
      rw [hprovider]
      refine ⟨hconfig, hparts, hkept, ?_, ?_⟩
      · intro p content h
        by_cases hp : p = cm.provider.getFullPath upload.bucket upload.objectKey
        · exact Or.inr ⟨_, hdeclared, hp⟩
        · exact Or.inl (hothers p content hp h)
      · intro _ _
        obtain ⟨hplain, data, hread, hfiles⟩ := hok result hcompleted
        obtain ⟨content, hcontent, hdata⟩ := LocalStorage.readParts_ok hread
        have hrows := UploadTables.getUploadedParts_ok hlist
        refine ⟨_, hdeclared, hplain, ?_, data, ?_, hfiles⟩
        · rw [hrows, (UploadTables.perm_sortByPart _ _).length_eq] at hcount
          exact not_not.mp hcount
        · rw [← sortByPart_rows, ← hrows, hdata]
          exact hcontent

theorem abortMultipart_spec (cm : ChunkManager) (io : AbortIo) (uploadId : ByteString)
    (hconsistent : cm.db.Consistent) :
    (cm.abortMultipart io uploadId).1.provider.config = cm.provider.config ∧
    (cm.abortMultipart io uploadId).1.db.Consistent ∧
    (∀ p content, (cm.abortMultipart io uploadId).1.provider.files p = some content →
      cm.provider.files p = some content) ∧
    (∀ id row, (cm.abortMultipart io uploadId).1.db.declared id = some row →
      cm.db.declared id = some row) ∧
    ∀ key row, (cm.abortMultipart io uploadId).1.db.parts.get? key = some row →
      cm.db.parts.get? key = some row := by
  obtain ⟨hconfig, hfiles⟩ :=
    LocalStorage.abortMultipart_spec cm.provider io.keeps uploadId
  obtain ⟨hparts, hdeclared⟩ :=
    UploadTables.updateMultipartStatus_spec cm.db io.status uploadId .aborted
  fun_cases abortMultipart cm io uploadId with
  | case1 err hfind => exact ⟨rfl, hconsistent, fun _ _ h => h, fun _ _ h => h, fun _ _ h => h⟩
  | case2 upload hfind cm' updated err hupdated =>
      refine ⟨hconfig, hconsistent.congr hdeclared hparts, hfiles, ?_, ?_⟩
      · intro id row h
        rw [← hdeclared]
        exact h
      · intro key row h
        rw [← hparts]
        exact h
  | case3 upload hfind cm' updated ok hupdated deleted =>
      obtain ⟨hconsistent', hdeclared', hparts'⟩ := UploadTables.deleteMultipartUpload_spec updated.1
        io.deleteParts io.deleteUpload uploadId (hconsistent.congr hdeclared hparts)
      refine ⟨hconfig, hconsistent', hfiles, ?_, ?_⟩
      · intro id row h
        rw [← hdeclared]
        exact hdeclared' id row h
      · intro key row h
        rw [← hparts]
        exact hparts' key row h

end ChunkManager

end VHono
