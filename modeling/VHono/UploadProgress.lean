import VHono.ByteScan
import VHono.ChunkManager
import VHono.MultipartCompleteness

/-! # Progress and retries of a multipart upload

    What the chunk manager reports of an upload, computed from the rows of its
    parts, and the loop that sends a part again after an error that may pass.
    The percentage and the times of the report are left out, and so is the
    delay between two attempts. -/

namespace VHono

open ByteString PieceAssembly

structure UploadProgress where
  uploadId       : ByteString
  fileUuid       : ByteString
  fileName       : ByteString
  fileSize       : Int
  chunkSize      : Int
  totalChunks    : Int
  uploadedChunks : Nat
  uploadedBytes  : Int
  status         : MultipartStatus
  pendingParts   : List Int
  deriving DecidableEq, Repr

namespace ChunkManager

/-! ## Progress -/

/-- The errors of the two queries of a report. -/
structure QueryIo where
  find : Option ByteString := none
  list : Option ByteString := none

/-- `for i in 1 .. total_chunks + 1`, the numbers that are not uploaded. -/
def pendingParts (totalChunks : Int) (uploadedPartNumbers : List Int) : List Int :=
  (numbers (toInt (totalChunks + 1) - 1).toNat).filter (fun i => decide (i ∉ uploadedPartNumbers))

def getUploadProgress (cm : ChunkManager) (io : QueryIo) (uploadId : ByteString) :
    Except ByteString UploadProgress :=
  match cm.db.getMultipartUpload io.find uploadId with
  | .error err => .error err
  | .ok upload =>
    match cm.db.getUploadedParts io.list uploadId with
    | .error err => .error err
    | .ok uploadedParts => .ok
      { uploadId := uploadId
        fileUuid := upload.fileUuid
        fileName := upload.fileName
        fileSize := upload.fileSize
        chunkSize := upload.chunkSize
        totalChunks := upload.totalChunks
        uploadedChunks := uploadedParts.length
        uploadedBytes := (uploadedParts.map (·.size)).sum
        status := upload.status
        pendingParts := pendingParts upload.totalChunks (uploadedParts.map (·.partNumber)) }

def canComplete (cm : ChunkManager) (io : QueryIo) (uploadId : ByteString) : Bool :=
  match cm.getUploadProgress io uploadId with
  | .error _ => false
  | .ok progress => decide (progress.pendingParts.length = 0 ∧ progress.status = .uploading)

/-- The checks with which `complete_multipart` begins. -/
def completeChecks (cm : ChunkManager) (io : QueryIo) (uploadId : ByteString) :
    Except ByteString (MultipartUpload × List UploadedPart) :=
  match cm.db.getMultipartUpload io.find uploadId with
  | .error err => .error err
  | .ok upload =>
    if upload.status ≠ .uploading then
      .error (ascii "Upload is not in uploading state: " ++ upload.status.str)
    else
      match cm.db.getUploadedParts io.list uploadId with
      | .error err => .error err
      | .ok uploadedParts =>
        if (uploadedParts.length : Int) ≠ upload.totalChunks then
          .error (ascii "Not all parts uploaded: " ++ decimal uploadedParts.length ++
            ascii "/" ++ intStr upload.totalChunks)
        else .ok (upload, uploadedParts)

/-- A completion is refused by its own checks, or it goes on to the storage. -/
theorem completeMultipart_eq (cm : ChunkManager) (io : CompleteIo) (uploadId : ByteString) :
    cm.completeMultipart io uploadId
      = match cm.completeChecks ⟨io.find, io.list⟩ uploadId with
        | .error err => (cm, .error err)
        | .ok (upload, uploadedParts) =>
          let completed := cm.provider.completeMultipart io.storage upload.bucket upload.objectKey
            uploadId (UploadTables.sortByPart (·.partNumber)
              (uploadedParts.map (fun part => PartInfo.mk part.partNumber part.etag part.size)))
          match completed.2 with
          | .error err => ({ cm with provider := completed.1 }, .error err)
          | .ok result =>
            { cm with provider := completed.1 }.finishUpload io uploadId upload result := by
  rw [completeMultipart, completeChecks]
  cases cm.db.getMultipartUpload io.find uploadId with
  | error err => rfl
  | ok upload =>
      dsimp only
      split
      · rfl
      · cases cm.db.getUploadedParts io.list uploadId with
        | error err => rfl
        | ok rows =>
            dsimp only
            split <;> rfl

/-! ## Retries -/

def retryableKeywords : List ByteString :=
  ["timeout", "connection", "network", "unavailable", "rate limit", "temporary"].map ascii

def isRetryableError (errorMsg : ByteString) : Bool :=
  retryableKeywords.any (containsStr (toLower errorMsg))

/-- The loop of `retry_upload_part`, with the number of attempts left; attempt number `k` meets
    `ios k`. -/
def retryFrom (ios : Nat → PartIo) (uploadId : ByteString) (partNumber : Int) (data : ByteString) :
    Nat → Nat → ByteString → ChunkManager → ChunkManager × ChunkUploadResult
  | 0, _, lastError, cm => (cm, failedPart uploadId partNumber
      (ascii "All retry attempts failed: " ++ lastError))
  | left + 1, attempt, _, cm =>
    let out := cm.uploadPart (ios attempt) uploadId partNumber data
    if out.2.success = true then out
    else if isRetryableError out.2.errorMsg = false then out
    else retryFrom ios uploadId partNumber data left (attempt + 1) out.2.errorMsg out.1

/-- `for attempt in 0 .. retry_count + 1` -/
def retryUploadPart (cm : ChunkManager) (ios : Nat → PartIo) (uploadId : ByteString)
    (partNumber : Int) (data : ByteString) : ChunkManager × ChunkUploadResult :=
  retryFrom ios uploadId partNumber data (toInt (cm.config.retryCount + 1)).toNat 0 [] cm

/-- **RETRIES ARE UPLOADS.**  What every upload of the part keeps, the retries keep. -/
theorem retryUploadPart_keeps (Inv : ChunkManager → Prop) {ios : Nat → PartIo}
    {uploadId : ByteString} {n : Int} {data : ByteString}
    (hstep : ∀ cm io, Inv cm → Inv (cm.uploadPart io uploadId n data).1) {cm : ChunkManager}
    (h : Inv cm) : Inv (cm.retryUploadPart ios uploadId n data).1 := by
  have hloop : ∀ (left attempt : Nat) (lastError : ByteString) (cm : ChunkManager), Inv cm →
      Inv (retryFrom ios uploadId n data left attempt lastError cm).1 := by
    intro left
    induction left with
    | zero => intro attempt lastError cm h; exact h
    | succ left ih =>
        intro attempt lastError cm h
        rw [retryFrom]
        split
        · exact hstep cm (ios attempt) h
        · split
          · exact hstep cm (ios attempt) h
          · exact ih _ _ _ (hstep cm (ios attempt) h)
  exact hloop _ _ _ cm h

end ChunkManager

/-! ## The machine with retries -/

inductive ProgressCall
  | call (c : MultipartCall)
  | retry (ios : Nat → ChunkManager.PartIo) (uploadId : ByteString) (partNumber : Int)
      (data : ByteString)

namespace ChunkManager

def progressStep (cm : ChunkManager) (call : ProgressCall) : ChunkManager × MultipartOutput :=
  match call with
  | .call c => cm.step c
  | .retry ios uploadId partNumber data =>
    let out := cm.retryUploadPart ios uploadId partNumber data
    (out.1, .part out.2)

end ChunkManager

end VHono

/-! ## The progress of an upload is exact

    The parts recorded for an upload are counted by a completion and searched
    for gaps by the report.  The two agree as long as the number of parts is a
    count at all: it is cut to 32 bits when an upload is started, so that of a
    huge file it can be negative, or so large that the loop of the report, which
    runs to one more, does not start. -/

namespace VHono

open ByteString PieceAssembly MachineRuns

namespace ChunkManager

/-! ## What the property says -/

/-- The report of an upload says what is recorded and what is missing. -/
structure ExactProgress (cm : ChunkManager) (uploadId : ByteString) (upload : MultipartUpload) :
    Prop where
  distinct : ((cm.db.partRows uploadId).map (·.partNumber)).Nodup
  inRange  : ∀ n ∈ (cm.db.partRows uploadId).map (·.partNumber), 1 ≤ n ∧ n ≤ upload.totalChunks
  report   : ∃ progress, cm.getUploadProgress {} uploadId = .ok progress ∧
    progress.pendingParts.Pairwise (· < ·) ∧
    (∀ n, n ∈ progress.pendingParts ↔
      (1 ≤ n ∧ n ≤ upload.totalChunks) ∧ n ∉ (cm.db.partRows uploadId).map (·.partNumber)) ∧
    (progress.uploadedChunks : Int) + progress.pendingParts.length = upload.totalChunks

/-- Every upload has an exact report, and `can_complete` is what a completion checks. -/
def ProgressHolds (cm : ChunkManager) : Prop :=
  (∀ uploadId upload, cm.db.uploads.get? uploadId = some upload →
    ExactProgress cm uploadId upload) ∧
  ∀ io uploadId, cm.canComplete io uploadId = true ↔ ∃ out, cm.completeChecks io uploadId = .ok out

/-- The number of parts that an upload with these parameters is declared to have. -/
def partCount (cm : ChunkManager) (params : InitMultipartParams) : Option Int :=
  calculateTotalChunks params.fileSize
    (if params.chunkSize > 0 then cm.validateChunkSize params.chunkSize
      else cm.config.defaultChunkSize)

/-- A number of parts that is a count, and that can be counted to. -/
def Countable (total : Int) : Prop := 0 ≤ total ∧ total < 2 ^ 31 - 1

/-- An upload is started. -/
def StartsUpload (params : InitMultipartParams) (e : Event ChunkManager ProgressCall MultipartOutput) :
    Prop :=
  ∃ io upload, e.input = .call (.init io params) ∧ e.output = .started (.ok upload)

/-! ## The report over the tables -/

theorem toInt_bounds (n : Int) : -2 ^ 31 ≤ toInt n ∧ toInt n < 2 ^ 31 := by
  have hlow : -((2 ^ 32 : Nat) / 2 : Int) ≤ n.bmod (2 ^ 32) := Int.le_bmod (by decide)
  have hhigh : n.bmod (2 ^ 32) < (((2 ^ 32 : Nat) : Int) + 1) / 2 := Int.bmod_lt (by decide)
  rw [toInt]
  constructor
  · exact le_trans (by decide) hlow
  · exact lt_of_lt_of_le hhigh (by decide)

theorem toInt_of_bounds {n : Int} (hlow : -2 ^ 31 ≤ n) (hhigh : n < 2 ^ 31) : toInt n = n :=
  Int.bmod_eq_of_le_mul_two (by omega) (by omega)

theorem pendingParts_countable {total : Int} (h : Countable total) (recorded : List Int) :
    pendingParts total recorded
      = (numbers total.toNat).filter (fun i => decide (i ∉ recorded)) := by
  rw [pendingParts, toInt_of_bounds (by have := h.1; omega) (by have := h.2; omega),
    Int.add_sub_cancel]

variable {cm : ChunkManager}

/-- The report of an upload that is in the table. -/
theorem getUploadProgress_ok {uploadId : ByteString} {upload : MultipartUpload}
    (h : cm.db.uploads.get? uploadId = some upload) :
    ∃ progress, cm.getUploadProgress {} uploadId = .ok progress ∧
      progress.status = upload.status ∧
      progress.uploadedChunks = (cm.db.partRows uploadId).length ∧
      progress.pendingParts = pendingParts upload.totalChunks
        ((UploadTables.sortByPart (·.partNumber) (cm.db.partRows uploadId)).map (·.partNumber)) := by
  have hfind : cm.db.getMultipartUpload none uploadId = .ok upload := by
    rw [UploadTables.getMultipartUpload, h]
  rw [getUploadProgress, hfind]
  exact ⟨_, rfl, rfl, (UploadTables.perm_sortByPart _ _).length_eq, rfl⟩

/-- What the table must say for every upload to have an exact report. -/
structure Countably (cm : ChunkManager) : Prop where
  consistent : cm.db.Consistent
  total      : ∀ uploadId u, cm.db.declared uploadId = some u → Countable u.totalChunks
  range      : ∀ uploadId u n row, cm.db.declared uploadId = some u →
    cm.db.parts.get? (uploadId, n) = some row → 1 ≤ n ∧ n ≤ u.totalChunks

/-- The numbers of the rows, as the queries list them. -/
theorem mem_recorded {uploadId : ByteString} {n : Int} :
    n ∈ (UploadTables.sortByPart (·.partNumber) (cm.db.partRows uploadId)).map (·.partNumber) ↔
      n ∈ (cm.db.partRows uploadId).map (·.partNumber) :=
  ((UploadTables.perm_sortByPart _ _).map _).mem_iff

theorem Countably.recorded_range (h : Countably cm) {uploadId : ByteString}
    {upload : MultipartUpload} (hget : cm.db.uploads.get? uploadId = some upload) {n : Int}
    (hn : n ∈ (cm.db.partRows uploadId).map (·.partNumber)) : 1 ≤ n ∧ n ≤ upload.totalChunks := by
  obtain ⟨row, hrow, rfl⟩ := List.mem_map.mp hn
  obtain ⟨-, hpart⟩ := UploadTables.mem_partRows.mp hrow
  have hdeclared := UploadTables.declared_of_get hget
  have hbounds := h.range uploadId _ _ _ hdeclared hpart
  exact hbounds

/-- **EXACT REPORTS.**  Where parts are in range and countable, the recorded and the missing
    numbers make up all numbers. -/
theorem Countably.exact (h : Countably cm) {uploadId : ByteString} {upload : MultipartUpload}
    (hget : cm.db.uploads.get? uploadId = some upload) : ExactProgress cm uploadId upload := by
  have hdeclared := UploadTables.declared_of_get hget
  have hcountable := h.total uploadId _ hdeclared
  have htotal : Countable upload.totalChunks := hcountable
  have hrange : ∀ n ∈ (cm.db.partRows uploadId).map (·.partNumber),
      1 ≤ n ∧ n ≤ upload.totalChunks := fun n hn => h.recorded_range hget hn
  have hnat : (upload.totalChunks.toNat : Int) = upload.totalChunks := Int.toNat_of_nonneg htotal.1
  have hsorted := UploadTables.perm_sortByPart (·.partNumber) (cm.db.partRows uploadId)
  obtain ⟨progress, hprogress, -, huploaded, hpending⟩ := getUploadProgress_ok hget
  rw [pendingParts_countable htotal] at hpending
  refine ⟨UploadTables.nodup_partRows cm.db uploadId, hrange, progress, hprogress, ?_, ?_, ?_⟩
  · rw [hpending]
    exact (pairwise_numbers _).filter _
  · intro n
    rw [hpending, List.mem_filter, mem_numbers, decide_eq_true_eq, mem_recorded, hnat]
  · have hmissing := length_add_missing (n := upload.totalChunks.toNat)
      ((hsorted.map (·.partNumber)).nodup_iff.mpr (UploadTables.nodup_partRows cm.db uploadId))
      (fun k hk => by rw [hnat]; exact hrange k (mem_recorded.mp hk))
    rw [← hpending, List.length_map, hsorted.length_eq, ← huploaded] at hmissing
    omega

/-- **COUNTING IS SEARCHING.**  As many rows as parts, or no gap: the two checks agree. -/
theorem Countably.canComplete_iff (h : Countably cm) (io : QueryIo) (uploadId : ByteString) :
    cm.canComplete io uploadId = true ↔ ∃ out, cm.completeChecks io uploadId = .ok out := by
  rw [canComplete, getUploadProgress, completeChecks]
  cases hfind : cm.db.getMultipartUpload io.find uploadId with
  | error err =>
      constructor
      · intro h
        cases h
      · rintro ⟨out, hout⟩
        cases hout
  | ok upload =>
      have hget := UploadTables.getMultipartUpload_ok hfind
      cases hlist : cm.db.getUploadedParts io.list uploadId with
      | error err =>
          dsimp only
          constructor
          · intro h
            cases h
          · rintro ⟨out, hout⟩
            split at hout
            · cases hout
            · cases hout
      | ok rows =>
          -- the report of the same rows
          obtain ⟨-, -, progress, hprogress, -, -, hcount⟩ := h.exact hget
          obtain ⟨progress', hprogress', -, huploaded, hpending⟩ := getUploadProgress_ok hget
          obtain rfl : progress = progress' := Except.ok.inj (hprogress.symm.trans hprogress')
          have hrows := UploadTables.getUploadedParts_ok hlist
          have hlength : rows.length = progress.uploadedChunks := by
            rw [hrows, (UploadTables.perm_sortByPart _ _).length_eq, huploaded]
          rw [← hrows] at hpending
          dsimp only
          rw [decide_eq_true_eq, ← hpending]
          constructor
          · rintro ⟨hnone, hstatus⟩
            rw [if_neg (not_not.mpr hstatus), if_neg (by omega)]
            exact ⟨_, rfl⟩
          · rintro ⟨out, hout⟩
            split at hout
            · cases hout
            · rename_i hstatus
              split at hout
              · cases hout
              · rename_i hall
                exact ⟨by omega, not_not.mp hstatus⟩

theorem Countably.holds (h : Countably cm) : ProgressHolds cm :=
  ⟨fun _ _ hget => h.exact hget, h.canComplete_iff⟩

/-! ## Runs -/

/-- A part that is recorded is one of the upload's, and recording keeps the table countable. -/
theorem countably_uploadPart (h : Countably cm) (io : PartIo) (id : ByteString) (n : Int)
    (data : ByteString) : Countably (cm.uploadPart io id n data).1 := by
  obtain ⟨-, huploads, hcases⟩ := uploadPart_spec cm io id n data
  have hdeclared : (cm.uploadPart io id n data).1.db.declared = cm.db.declared := by
    funext k
    rw [UploadTables.declared, huploads]
    rfl
  refine ⟨consistent_step h.consistent (.uploadPart io id n data), ?_, ?_⟩
  · intro uploadId u hu
    rw [hdeclared] at hu
    exact h.total uploadId u hu
  · intro uploadId u k row hu hrow
    rw [hdeclared] at hu
    rcases hcases with ⟨-, -, hparts⟩ | ⟨⟨v, hfind, -, hlow, hhigh, -⟩, -, -, hresult⟩
    · rw [hparts] at hrow
      exact h.range uploadId u k row hu hrow
    · rcases hresult with ⟨-, hparts, -⟩ | ⟨-, -, -, etag, hparts⟩
      · rw [hparts] at hrow
        exact h.range uploadId u k row hu hrow
      · rw [hparts, InsertionMap.get?_insert] at hrow
        split at hrow
        · -- the part just recorded, of the upload the call has found
          rename_i hkey
          obtain ⟨rfl, rfl⟩ := Prod.mk.inj hkey
          rw [UploadTables.declared_of_get (UploadTables.getMultipartUpload_ok hfind)] at hu
          obtain rfl := Option.some.inj hu
          exact ⟨hlow, hhigh⟩
        · exact h.range uploadId u k row hu hrow

/-- The number of parts is computed from the parameters. -/
theorem initMultipart_partCount (cm : ChunkManager) (io : InitIo) (params : InitMultipartParams) :
    ∀ upload, (cm.initMultipart io params).2 = .ok upload →
      cm.partCount params = some upload.totalChunks := by
  fun_cases initMultipart cm io params with
  | case1 hbucket => rintro _ ⟨⟩
  | case2 hbucket hkey => rintro _ ⟨⟩
  | case3 hbucket hkey hsize => rintro _ ⟨⟩
  | case4 hbucket hkey hsize chunkSize htotal => rintro _ ⟨⟩
  | case5 hbucket hkey hsize chunkSize total htotal hmax => rintro _ ⟨⟩
  | case6 hbucket hkey hsize chunkSize total htotal hmax started err hstarted =>
      rintro _ ⟨⟩
  | case7 hbucket hkey hsize chunkSize total htotal hmax started id hstarted created =>
      intro upload hok
      obtain ⟨-, hcreated⟩ := UploadTables.createMultipartUpload_spec cm.db io.insert
        ⟨id, [], params.fileName, params.fileSize, chunkSize, total, params.bucket,
          params.objectKey, params.contentType, .uploading⟩
      have hrow : created.2 = .ok upload := by
        cases hresult : created.2 with
        | error err =>
            rw [hresult] at hok
            cases hok
        | ok row =>
            rw [hresult] at hok
            exact congrArg Except.ok (Except.ok.inj hok)
      rcases hcreated with ⟨-, herror⟩ | ⟨hnew, -⟩
      · exact absurd hrow (herror upload)
      · rw [Except.ok.inj (hrow.symm.trans hnew)]
        exact htotal

/-- An upload that is started is declared, and has no parts yet. -/
theorem countably_init (h : Countably cm) {io : InitIo} {params : InitMultipartParams}
    (hcount : ∀ total, (∃ upload, (cm.initMultipart io params).2 = .ok upload) →
      cm.partCount params = some total → Countable total) :
    Countably (cm.initMultipart io params).1 := by
  obtain ⟨-, -, hparts, hrows⟩ := initMultipart_spec cm io params
  refine ⟨consistent_step h.consistent (.init io params), ?_, ?_⟩
  · intro uploadId u hu
    rcases hrows with ⟨hsame, -⟩ | ⟨v, hok, -, -, -, -, -, hdeclared⟩
    · rw [hsame] at hu
      exact h.total uploadId u hu
    · rw [hdeclared] at hu
      split at hu
      · obtain rfl := Option.some.inj hu
        exact hcount _ ⟨v, hok⟩ (initMultipart_partCount cm io params v hok)
      · exact h.total uploadId u hu
  · intro uploadId u n row hu hrow
    rw [hparts] at hrow
    rcases hrows with ⟨hsame, -⟩ | ⟨v, -, -, -, -, -, hfresh, hdeclared⟩
    · rw [hsame] at hu
      exact h.range uploadId u n row hu hrow
    · rw [hdeclared] at hu
      split at hu
      · rename_i hid
        have hexists := h.consistent uploadId n row hrow
        rw [hid, hfresh] at hexists
        cases hexists
      · exact h.range uploadId u n row hu hrow

theorem countably_step (h : Countably cm) {call : MultipartCall}
    (hcount : ∀ io params total, call = .init io params →
      (∃ upload, (cm.initMultipart io params).2 = .ok upload) →
      cm.partCount params = some total → Countable total) : Countably (cm.step call).1 := by
  cases call with
  | init io params => exact countably_init h (fun total => hcount io params total rfl)
  | uploadPart io id n data => exact countably_uploadPart h io id n data
  | complete io id =>
      obtain ⟨-, hparts, hdeclared, -⟩ := completeMultipart_spec cm io id
      refine ⟨consistent_step h.consistent (.complete io id), ?_, ?_⟩
      · intro uploadId u hu
        exact h.total uploadId u (hdeclared ▸ hu)
      · intro uploadId u n row hu hrow
        exact h.range uploadId u n row (hdeclared ▸ hu) (hparts ▸ hrow)
  | abort io id =>
      obtain ⟨-, hconsistent, -, hdeclared, hparts⟩ := abortMultipart_spec cm io id h.consistent
      refine ⟨hconsistent, ?_, ?_⟩
      · intro uploadId u hu
        exact h.total uploadId u (hdeclared uploadId u hu)
      · intro uploadId u n row hu hrow
        exact h.range uploadId u n row (hdeclared uploadId u hu) (hparts _ row hrow)

/-- **THE STEP LEMMA.**  A call that starts no upload with an uncountable number of parts keeps
    the table countable. -/
theorem countably_progressStep (h : Countably cm) {call : ProgressCall}
    (hcount : ∀ io params total, call = .call (.init io params) →
      (∃ upload, (cm.initMultipart io params).2 = .ok upload) →
      cm.partCount params = some total → Countable total) :
    Countably (cm.progressStep call).1 := by
  cases call with
  | call c =>
      refine countably_step h ?_
      rintro io params total rfl
      exact hcount io params total rfl
  | retry ios id n data =>
      exact retryUploadPart_keeps Countably (fun cm io h => countably_uploadPart h io id n data) h

theorem consistent_progressStep (h : cm.db.Consistent) (call : ProgressCall) :
    (cm.progressStep call).1.db.Consistent := by
  cases call with
  | call c => exact consistent_step h c
  | retry ios id n data =>
      exact retryUploadPart_keeps (fun cm => cm.db.Consistent)
        (fun cm io h => consistent_step h (.uploadPart io id n data)) h

theorem calculateTotalChunks_lt {fileSize chunkSize total : Int}
    (h : calculateTotalChunks fileSize chunkSize = some total) : total < 2 ^ 31 := by
  rw [calculateTotalChunks] at h
  split at h
  · cases h
  · dsimp only at h
    split at h
    · rw [← Option.some.inj h]
      exact (toInt_bounds _).2
    · rw [← Option.some.inj h]
      exact (toInt_bounds _).2

/-- The row of an upload that has just been started, without parts. -/
theorem started_upload (h : cm.db.Consistent) {io : InitIo} {params : InitMultipartParams}
    {upload : MultipartUpload} (hok : (cm.initMultipart io params).2 = .ok upload) :
    ∃ u, (cm.initMultipart io params).1.db.uploads.get? upload.uploadId = some u ∧
      (cm.initMultipart io params).1.db.partRows upload.uploadId = [] ∧
      u.totalChunks = upload.totalChunks := by
  obtain ⟨-, -, hparts, hrows⟩ := initMultipart_spec cm io params
  rcases hrows with ⟨-, herror⟩ | ⟨v, hv, -, -, -, -, hfresh, hdeclared⟩
  · exact absurd hok (herror upload)
  · obtain rfl : v = upload := Except.ok.inj (hv.symm.trans hok)
    have hrow : (cm.initMultipart io params).1.db.declared v.uploadId = some v := by
      rw [hdeclared, if_pos rfl]
    obtain ⟨u, hget, hu⟩ := Option.map_eq_some_iff.mp hrow
    refine ⟨u, hget, ?_, by rw [← hu]⟩
    refine List.eq_nil_iff_forall_not_mem.mpr ?_
    intro row hmem
    obtain ⟨-, hpart⟩ := UploadTables.mem_partRows.mp hmem
    rw [hparts] at hpart
    have hexists := h v.uploadId row.partNumber _ hpart
    rw [hfresh] at hexists
    cases hexists

/-- An upload without parts has an exact report only if its parts can be counted. -/
theorem countable_of_exact {uploadId : ByteString} {upload : MultipartUpload}
    (hget : cm.db.uploads.get? uploadId = some upload) (hrows : cm.db.partRows uploadId = [])
    (hbound : upload.totalChunks < 2 ^ 31) (h : ExactProgress cm uploadId upload) :
    Countable upload.totalChunks := by
  obtain ⟨progress, hprogress, -, -, hcount⟩ := h.report
  obtain ⟨progress', hprogress', -, huploaded, hpending⟩ := getUploadProgress_ok hget
  obtain rfl : progress = progress' := Except.ok.inj (hprogress.symm.trans hprogress')
  rw [huploaded, hrows, List.length_nil] at hcount
  refine ⟨by omega, ?_⟩
  by_contra hlarge
  -- the loop runs to one more than the largest number
  have htotal : upload.totalChunks = 2 ^ 31 - 1 := by omega
  have hnone : progress.pendingParts = [] := by
    rw [hpending, htotal]
    rfl
  rw [hnone, htotal] at hcount
  exact absurd hcount (by decide)

/-- A file of ten petabytes. -/
def hugeParams : InitMultipartParams :=
  ⟨ascii "docs", ascii "a.bin", ascii "a.bin", 2 ^ 31 * 5242880, ascii "application/zip", 0⟩

end ChunkManager

end VHono
