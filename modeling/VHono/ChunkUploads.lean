import VHono.ChunkStore
import VHono.MachineRuns

/-! # The chunk upload manager

    The two handlers over the stored chunks and the status table, which is
    kept in memory under the hash alone.  A chunk request stores its chunk,
    enters the index into the table and adds the length to the size record of
    its chunk size; when the record reaches the declared file size it merges as
    many chunks as the table has indices.  A merge request merges when the
    table has as many indices as the request says. -/

namespace VHono

open ByteString HttpGrammar PieceAssembly MachineRuns

structure FileUploadStatus where
  fileHash       : ByteString
  filename       : ByteString
  fileSize       : Nat
  chunkSize      : Nat
  uploadedChunks : List Nat
  status         : ByteString

structure ChunkUploadManager where
  config      : ChunkUploadConfig
  fileService : Bool
  uploads     : InsertionMap ByteString FileUploadStatus
  disk        : ChunkDisk

/-- What the operating system does to one request. -/
structure UploadIo where
  mkdir      : Bool := true
  writeChunk : WriteOutcome ByteString := .done
  record     : RecordIo := {}
  merge      : MergeIo := {}
  service    : ServiceIo := {}
  /-- The id of the database row, if it could be written. -/
  fileUuid   : Option ByteString := none
  cleanup    : CleanupIo := {}

inductive UploadReply
  | error (e : UploadError)
  /-- `"all_chunk_uploaded": false` -/
  | chunkUploaded (chunkIndex : Nat)
  /-- The file is complete, under a path of the upload directory. -/
  | fileMerged (filePath fileUuid : ByteString)
  /-- The file is complete, as an object of the file service. -/
  | fileStored (fileUuid storageType : ByteString)
  deriving DecidableEq, Repr

/-- A merge that was started or skipped, with the chunks it found. -/
structure MergeRun where
  hash      : ByteString
  ext       : ByteString
  chunkSize : Nat
  total     : Nat
  chunk     : Nat → Option ByteString
  result    : MergeResult

/-- What a request returns, and the merge it made. -/
structure UploadOutput where
  reply : UploadReply
  merge : Option MergeRun

namespace ChunkUploadManager

def new (config : ChunkUploadConfig) (fileService : Bool) : ChunkUploadManager where
  config := config
  fileService := fileService
  uploads := .empty
  disk := .empty

def updateUploadStatus (m : ChunkUploadManager) (fileHash filename : ByteString)
    (chunkIndex fileSize chunkSize : Nat) : ChunkUploadManager :=
  let status := (m.uploads.get? fileHash).getD
    ⟨fileHash, filename, fileSize, chunkSize, [], ascii "uploading"⟩
  let uploaded :=
    if chunkIndex ∈ status.uploadedChunks then status.uploadedChunks
    else status.uploadedChunks ++ [chunkIndex]
  { m with uploads := m.uploads.insert fileHash { status with uploadedChunks := uploaded } }

/-- `manager.uploads[file_hash].uploaded_chunks` -/
def uploadedChunks (m : ChunkUploadManager) (fileHash : ByteString) : List Nat :=
  ((m.uploads.get? fileHash).map (·.uploadedChunks)).getD []

/-- `manager.uploads[file_hash].status = 'completed'` -/
def markCompleted (m : ChunkUploadManager) (fileHash : ByteString) : ChunkUploadManager :=
  match m.uploads.get? fileHash with
  | some status =>
    { m with uploads := m.uploads.insert fileHash { status with status := ascii "completed" } }
  | none => m

def usesFileService (m : ChunkUploadManager) : Bool := m.fileService && m.config.useFileService

def chunkDir (m : ChunkUploadManager) (fileHash : ByteString) (chunkSize : Nat) : ByteString :=
  m.config.tempDir ++ byte '/' :: (fileHash ++ byte '/' :: decimal chunkSize)

def finalPath (m : ChunkUploadManager) (hash ext : ByteString) : ByteString :=
  m.config.uploadDir ++ byte '/' :: (hash ++ ext)

/-- The path in a reply, read back from its JSON form. -/
def cleanFilePath (m : ChunkUploadManager) (hash ext : ByteString) : ByteString :=
  trimSpace (replaceStr (replaceStr (m.finalPath hash ext) [10] []) [13] [])

/-! ## What follows a merge -/

/-- Both handlers: the upload is completed, and its chunks may be cleared. -/
def finish (m : ChunkUploadManager) (io : UploadIo) (fileHash : ByteString) (chunkSize : Nat)
    (clear : Bool) : ChunkUploadManager :=
  let m := m.markCompleted fileHash
  if clear = true then { m with disk := cleanupChunks m.disk io.cleanup fileHash chunkSize }
  else m

/-- Both handlers, after a merge into a file. -/
def conclude (m : ChunkUploadManager) (io : UploadIo) (run : MergeRun) (clear : Bool)
    (disk : ChunkDisk) : ChunkUploadManager × UploadOutput :=
  let m := { m with disk := disk }
  match run.result with
  | .failed _ _ =>
    (m, ⟨.error (.fileOperation (ascii "merge_chunks") (m.finalPath run.hash run.ext)), some run⟩)
  | _ =>
    (m.finish io run.hash run.chunkSize clear,
      ⟨.fileMerged (m.cleanFilePath run.hash run.ext) (io.fileUuid.getD []), some run⟩)

/-- Both handlers, after a merge into the file service. -/
def concludeService (m : ChunkUploadManager) (io : UploadIo) (run : MergeRun) (clear : Bool)
    (disk : ChunkDisk) (answer : Option (ByteString × ByteString)) :
    ChunkUploadManager × UploadOutput :=
  let m := { m with disk := disk }
  match answer with
  | some (uuid, storageType) =>
    (m.finish io run.hash run.chunkSize clear, ⟨.fileStored uuid storageType, some run⟩)
  | none => (m, ⟨.error (.fileOperation (ascii "merge_and_store") run.hash), some run⟩)

/-- What both handlers do once they have decided to merge: into the file service, or into the
    final file.  One of them first looks for the file itself. -/
def runMerge (m : ChunkUploadManager) (io : UploadIo) (hash ext : ByteString)
    (chunkSize total : Nat) (looksFirst clear : Bool) : ChunkUploadManager × UploadOutput :=
  let run := MergeRun.mk hash ext chunkSize total (m.disk.chunks hash chunkSize)
  if m.usesFileService = true then
    let stored :=
      mergeAndStoreToFileService m.config m.disk io.merge io.service hash total chunkSize
    m.concludeService io (run stored.2.1) clear stored.1 stored.2.2
  else
    let merged : ChunkDisk × MergeResult :=
      if looksFirst = true ∧ (m.disk.files hash ext).isSome = true then (m.disk, .kept)
      else mergeChunks m.config m.disk io.merge hash total ext chunkSize
    m.conclude io (run merged.2) clear merged.1

/-! ## The chunk handler -/

/-- A chunk stored, entered into the table and added to its record. -/
def receiveChunk (m : ChunkUploadManager) (io : UploadIo) (q : ChunkRequest) :
    ChunkUploadManager :=
  let stored := { m with
    disk := m.disk.setChunk q.fileHash q.chunkSize q.chunkIndex (some q.data) }
  let entered :=
    stored.updateUploadStatus q.fileHash q.filename q.chunkIndex q.fileSize q.chunkSize
  { entered with
    disk := updateChunkSizeRecord entered.disk io.record q.fileHash q.chunkSize q.data.length }

/-- The completion branch, entered when the record has reached the file size: as many chunks
    are merged as the table has indices. -/
def completeUpload (m : ChunkUploadManager) (io : UploadIo) (q : ChunkRequest) :
    ChunkUploadManager × UploadOutput :=
  let actualTotalChunks := (m.uploadedChunks q.fileHash).length
  m.runMerge io q.fileHash (getFileExtension q.filename) q.chunkSize actualTotalChunks true
    m.config.clearChunksOnComplete

/-- The handler after its checks. -/
def uploadChunk (m : ChunkUploadManager) (io : UploadIo) (q : ChunkRequest) :
    ChunkUploadManager × UploadOutput :=
  let dir := m.chunkDir q.fileHash q.chunkSize
  if io.mkdir = false then
    (m, ⟨.error (.fileOperation (ascii "create_directory") dir), none⟩)
  else if io.writeChunk.ok = false then
    let old := m.disk.chunks q.fileHash q.chunkSize q.chunkIndex
    ({ m with disk :=
        m.disk.setChunk q.fileHash q.chunkSize q.chunkIndex (io.writeChunk.apply old q.data) },
      ⟨.error (.fileOperation (ascii "save_chunk")
        (dir ++ (ascii "/chunk_" ++ (decimal q.chunkIndex ++ ascii ".part")))), none⟩)
  else
    let m := m.receiveChunk io q
    let totalChunkSize := getChunkSizeRecord m.disk io.record q.fileHash q.chunkSize
    if totalChunkSize ≥ q.fileSize then m.completeUpload io q
    else (m, ⟨.chunkUploaded q.chunkIndex, none⟩)

def handleChunkUpload (m : ChunkUploadManager) (io : UploadIo) (form : Except ByteString Form) :
    ChunkUploadManager × UploadOutput :=
  match readChunkRequest m.config form with
  | .error e => (m, ⟨.error e, none⟩)
  | .ok q => m.uploadChunk io q

/-! ## The merge handler -/

/-- The handler after its checks, for the upload it found in the table. -/
def mergeUpload (m : ChunkUploadManager) (io : UploadIo) (r : MergeRequest)
    (status : FileUploadStatus) : ChunkUploadManager × UploadOutput :=
  m.runMerge io r.fileHash (getFileExtension r.filename) status.chunkSize r.totalChunks.toNat
    false true

/-- The request's number of chunks has to be that of the table. -/
def handleChunkMerge (m : ChunkUploadManager) (io : UploadIo)
    (body : Except ByteString MergeRequest) : ChunkUploadManager × UploadOutput :=
  match readMergeRequest body with
  | .error e => (m, ⟨.error e, none⟩)
  | .ok r =>
    match m.uploads.get? r.fileHash with
    | none => (m, ⟨.error (.resourceNotFound (ascii "upload") r.fileHash), none⟩)
    | some status =>
      if (status.uploadedChunks.length : Int) ≠ r.totalChunks then
        (m, ⟨.error (.validation (ascii "Not all chunks uploaded")
          [(ascii "uploaded", decimal status.uploadedChunks.length),
            (ascii "total", intStr r.totalChunks)]), none⟩)
      else m.mergeUpload io r status

end ChunkUploadManager

/-! ## The machine -/

inductive UploadCall
  | chunkUpload (io : UploadIo) (form : Except ByteString Form)
  | chunkMerge (io : UploadIo) (body : Except ByteString MergeRequest)

namespace ChunkUploadManager

def step (m : ChunkUploadManager) (call : UploadCall) : ChunkUploadManager × UploadOutput :=
  match call with
  | .chunkUpload io form => m.handleChunkUpload io form
  | .chunkMerge io body => m.handleChunkMerge io body

/-! ## What the operations leave alone -/

@[simp] theorem markCompleted_disk (m : ChunkUploadManager) (fileHash : ByteString) :
    (m.markCompleted fileHash).disk = m.disk := by
  rw [markCompleted]
  split
  · rfl
  · rfl

@[simp] theorem markCompleted_config (m : ChunkUploadManager) (fileHash : ByteString) :
    (m.markCompleted fileHash).config = m.config := by
  rw [markCompleted]
  split
  · rfl
  · rfl

@[simp] theorem markCompleted_fileService (m : ChunkUploadManager) (fileHash : ByteString) :
    (m.markCompleted fileHash).fileService = m.fileService := by
  rw [markCompleted]
  split
  · rfl
  · rfl

/-- Clearing the chunks keeps the files and the objects. -/
theorem finish_spec (m : ChunkUploadManager) (io : UploadIo) (fileHash : ByteString)
    (chunkSize : Nat) (clear : Bool) :
    (m.finish io fileHash chunkSize clear).config = m.config ∧
    (m.finish io fileHash chunkSize clear).fileService = m.fileService ∧
    (m.finish io fileHash chunkSize clear).disk.files = m.disk.files ∧
    (m.finish io fileHash chunkSize clear).disk.objects = m.disk.objects := by
  rw [finish]
  split
  · refine ⟨markCompleted_config m fileHash, markCompleted_fileService m fileHash, ?_, ?_⟩
    · rw [cleanupChunks_files, markCompleted_disk]
    · rw [cleanupChunks_objects, markCompleted_disk]
  · refine ⟨markCompleted_config m fileHash, markCompleted_fileService m fileHash, ?_, ?_⟩
    · rw [markCompleted_disk]
    · rw [markCompleted_disk]

@[simp] theorem updateChunkSizeRecord_files (d : ChunkDisk) (io : RecordIo) (hash : ByteString)
    (chunkSize size : Nat) : (updateChunkSizeRecord d io hash chunkSize size).files = d.files := by
  rw [updateChunkSizeRecord]
  split
  · rfl
  · rfl

@[simp] theorem updateChunkSizeRecord_chunks (d : ChunkDisk) (io : RecordIo) (hash : ByteString)
    (chunkSize size : Nat) :
    (updateChunkSizeRecord d io hash chunkSize size).chunks = d.chunks := by
  rw [updateChunkSizeRecord]
  split
  · rfl
  · rfl

/-- **WHAT RECEIVING A CHUNK DOES.**  The chunk is stored, nothing else of the files changes,
    and the record grows. -/
theorem receiveChunk_spec (m : ChunkUploadManager) (io : UploadIo) (q : ChunkRequest) :
    (m.receiveChunk io q).config = m.config ∧
    (m.receiveChunk io q).fileService = m.fileService ∧
    (m.receiveChunk io q).disk.files = m.disk.files ∧
    (m.receiveChunk io q).disk.chunks
      = (m.disk.setChunk q.fileHash q.chunkSize q.chunkIndex (some q.data)).chunks ∧
    (m.receiveChunk io q).disk.sizeRecords
      = (updateChunkSizeRecord m.disk io.record q.fileHash q.chunkSize q.data.length).sizeRecords :=
  by
  refine ⟨rfl, rfl, ?_, ?_, ?_⟩
  · exact updateChunkSizeRecord_files ..
  · exact updateChunkSizeRecord_chunks ..
  · show (updateChunkSizeRecord _ _ _ _ _).sizeRecords = _
    rw [updateChunkSizeRecord, updateChunkSizeRecord]
    split
    · rfl
    · rfl

/-! ## A chunk received, told from the state before -/

/-- The chunks of a request's upload, its own included. -/
def storedChunks (m : ChunkUploadManager) (q : ChunkRequest) : Nat → Option ByteString :=
  fun i => if i = q.chunkIndex then some q.data else m.disk.chunks q.fileHash q.chunkSize i

/-- The indices in the table once the chunk is entered. -/
def countAfter (m : ChunkUploadManager) (q : ChunkRequest) : Nat :=
  if q.chunkIndex ∈ m.uploadedChunks q.fileHash then (m.uploadedChunks q.fileHash).length
  else (m.uploadedChunks q.fileHash).length + 1

/-- The size record as it is read once the chunk is added. -/
def recordAfter (m : ChunkUploadManager) (io : UploadIo) (q : ChunkRequest) : Nat :=
  getChunkSizeRecord
    (updateChunkSizeRecord m.disk io.record q.fileHash q.chunkSize q.data.length)
    io.record q.fileHash q.chunkSize

theorem storedChunks_eq (m : ChunkUploadManager) (io : UploadIo) (q : ChunkRequest) :
    (m.receiveChunk io q).disk.chunks q.fileHash q.chunkSize = m.storedChunks q := by
  rw [(receiveChunk_spec m io q).2.2.2.1]
  funext i
  show (if q.fileHash = q.fileHash ∧ q.chunkSize = q.chunkSize ∧ i = q.chunkIndex then _ else _) = _
  rw [storedChunks]
  simp only [true_and]

/-- The index is entered into the table, unless it is there. -/
theorem uploadedChunks_receive (m : ChunkUploadManager) (io : UploadIo) (q : ChunkRequest) :
    (m.receiveChunk io q).uploadedChunks q.fileHash
      = if q.chunkIndex ∈ m.uploadedChunks q.fileHash then m.uploadedChunks q.fileHash
        else m.uploadedChunks q.fileHash ++ [q.chunkIndex] := by
  rw [uploadedChunks, uploadedChunks]
  show (((m.uploads.insert q.fileHash _).get? q.fileHash).map _).getD [] = _
  rw [InsertionMap.get?_insert_self]
  cases m.uploads.get? q.fileHash with
  | none => rfl
  | some status => rfl

theorem countAfter_eq (m : ChunkUploadManager) (io : UploadIo) (q : ChunkRequest) :
    ((m.receiveChunk io q).uploadedChunks q.fileHash).length = m.countAfter q := by
  rw [uploadedChunks_receive, countAfter]
  split
  · rfl
  · rw [List.length_append]
    rfl

theorem recordAfter_eq (m : ChunkUploadManager) (io : UploadIo) (q : ChunkRequest) :
    getChunkSizeRecord (m.receiveChunk io q).disk io.record q.fileHash q.chunkSize
      = m.recordAfter io q := by
  rw [getChunkSizeRecord, (receiveChunk_spec m io q).2.2.2.2]
  rfl

/-! ## What a request does -/

/-- The merge a request starts. -/
structure MergeStart where
  io         : UploadIo
  hash       : ByteString
  ext        : ByteString
  chunkSize  : Nat
  total      : Nat
  chunk      : Nat → Option ByteString
  looksFirst : Bool

/-- A chunk request merges if its chunk makes the record reach the file size. -/
def mergeOfUpload (m : ChunkUploadManager) (io : UploadIo) (q : ChunkRequest) :
    Option MergeStart :=
  if io.mkdir = true ∧ io.writeChunk.ok = true ∧ q.fileSize ≤ m.recordAfter io q then
    some ⟨io, q.fileHash, getFileExtension q.filename, q.chunkSize, m.countAfter q,
      m.storedChunks q, true⟩
  else none

/-- A merge request merges if it names the number of indices in the table. -/
def mergeOfStatus (m : ChunkUploadManager) (io : UploadIo) (r : MergeRequest)
    (status : FileUploadStatus) : Option MergeStart :=
  if (status.uploadedChunks.length : Int) = r.totalChunks then
    some ⟨io, r.fileHash, getFileExtension r.filename, status.chunkSize,
      status.uploadedChunks.length, m.disk.chunks r.fileHash status.chunkSize, false⟩
  else none

/-- The reply says that the file is complete. -/
def reportsComplete (reply : UploadReply) : Bool :=
  match reply with
  | .fileMerged _ _ => true
  | .fileStored _ _ => true
  | _ => false

/-- The outcome of a request that starts this merge, or none. -/
def Outcome (m : ChunkUploadManager) (start : Option MergeStart)
    (out : ChunkUploadManager × UploadOutput) : Prop :=
  match start with
  | none => out.2.merge = none ∧ reportsComplete out.2.reply = false ∧ out.1.config = m.config ∧
      out.1.fileService = m.fileService ∧ out.1.disk.files = m.disk.files
  | some s => ∃ (m₁ : ChunkUploadManager) (clear : Bool), m₁.config = m.config ∧ m₁.fileService = m.fileService ∧
      m₁.disk.files = m.disk.files ∧ m₁.disk.chunks s.hash s.chunkSize = s.chunk ∧
      out = m₁.runMerge s.io s.hash s.ext s.chunkSize s.total s.looksFirst clear

/-- **WHAT A CHUNK REQUEST DOES.** -/
theorem uploadChunk_outcome (m : ChunkUploadManager) (io : UploadIo) (q : ChunkRequest) :
    m.Outcome (m.mergeOfUpload io q) (m.uploadChunk io q) := by
  obtain ⟨hconfig, hservice, hfiles, -⟩ := receiveChunk_spec m io q
  rw [mergeOfUpload, uploadChunk]
  by_cases hmkdir : io.mkdir = false
  · rw [if_pos hmkdir, if_neg (fun h => by simp [hmkdir] at h)]
    exact ⟨rfl, rfl, rfl, rfl, rfl⟩
  · rw [if_neg hmkdir]
    by_cases hwrite : io.writeChunk.ok = false
    · rw [if_pos hwrite, if_neg (fun h => by simp [hwrite] at h)]
      exact ⟨rfl, rfl, rfl, rfl, rfl⟩
    · rw [if_neg hwrite]
      dsimp only
      rw [recordAfter_eq]
      by_cases hrecord : q.fileSize ≤ m.recordAfter io q
      -- the merge starts from the state with the chunk received
      · rw [if_pos hrecord, if_pos ⟨by simpa using hmkdir, by simpa using hwrite, hrecord⟩]
        refine ⟨m.receiveChunk io q, (m.receiveChunk io q).config.clearChunksOnComplete, hconfig,
          hservice, hfiles, storedChunks_eq m io q, ?_⟩
        rw [completeUpload, countAfter_eq]
      · rw [if_neg hrecord, if_neg (fun h => hrecord h.2.2)]
        exact ⟨rfl, rfl, hconfig, hservice, hfiles⟩

/-- **WHAT A MERGE REQUEST DOES.** -/
theorem handleChunkMerge_outcome {m : ChunkUploadManager} {io : UploadIo}
    {body : Except ByteString MergeRequest} {r : MergeRequest} {status : FileUploadStatus}
    (hread : readMergeRequest body = .ok r) (hstatus : m.uploads.get? r.fileHash = some status) :
    m.Outcome (m.mergeOfStatus io r status) (m.handleChunkMerge io body) := by
  rw [mergeOfStatus, handleChunkMerge, hread]
  dsimp only
  rw [hstatus]
  dsimp only
  by_cases hcount : (status.uploadedChunks.length : Int) = r.totalChunks
  · rw [if_pos hcount, if_neg (not_not_intro hcount)]
    refine ⟨m, true, rfl, rfl, rfl, rfl, ?_⟩
    have htotal : r.totalChunks.toNat = status.uploadedChunks.length := by omega
    rw [mergeUpload, htotal]
  · rw [if_neg hcount, if_pos hcount]
    exact ⟨rfl, rfl, rfl, rfl, rfl⟩

/-- The merge a request starts, told from the state before. -/
def mergeOf (m : ChunkUploadManager) (call : UploadCall) : Option MergeStart :=
  match call with
  | .chunkUpload io form =>
    match readChunkRequest m.config form with
    | .error _ => none
    | .ok q => m.mergeOfUpload io q
  | .chunkMerge io body =>
    match readMergeRequest body with
    | .error _ => none
    | .ok r =>
      match m.uploads.get? r.fileHash with
      | none => none
      | some status => m.mergeOfStatus io r status

/-- **WHAT A REQUEST DOES.** -/
theorem step_outcome (m : ChunkUploadManager) (call : UploadCall) :
    m.Outcome (m.mergeOf call) (m.step call) := by
  cases call with
  | chunkUpload io form =>
      rw [mergeOf, step, handleChunkUpload]
      cases readChunkRequest m.config form with
      | error e => exact ⟨rfl, rfl, rfl, rfl, rfl⟩
      | ok q => exact uploadChunk_outcome m io q
  | chunkMerge io body =>
      rw [mergeOf, step]
      cases hread : readMergeRequest body with
      | error e =>
          rw [handleChunkMerge, hread]
          exact ⟨rfl, rfl, rfl, rfl, rfl⟩
      | ok r =>
          dsimp only
          cases hstatus : m.uploads.get? r.fileHash with
          | none =>
              rw [handleChunkMerge, hread]
              dsimp only
              rw [hstatus]
              exact ⟨rfl, rfl, rfl, rfl, rfl⟩
          | some status => exact handleChunkMerge_outcome hread hstatus

/-- A chunk of the file `a.txt`, which is cut into chunks of four bytes. -/
def sendChunk (io : UploadIo) (fileSize index chunk : String) : UploadCall :=
  .chunkUpload io (.ok ((((((InsertionMap.empty.insert (ascii "file_hash")
    (ascii "0123456789abcdef0123456789abcdef")).insert (ascii "filename")
    (ascii "a.txt")).insert (ascii "file_size") (ascii fileSize)).insert (ascii "chunk_size")
    (ascii "4")).insert (ascii "chunk_index") (ascii index)).insert (ascii "chunk")
    (ascii chunk)))

end ChunkUploadManager

end VHono
