import VHono.ChunkUploads
import VHono.Trimming

/-! # Clearing the table of uploads

    `cleanup_invalid_status` drops the uploads that it takes for dead.  It looks
    for the finished file under the name that the client gave, where a merge
    writes it under the hash, and for the chunks it looks no further than the
    first one. -/

namespace VHono

open ByteString

namespace ChunkUploadManager

/-- `os.exists(os.join_path(upload_dir, name))`: a file of the manager, whose hash has 32 digits,
    or what else is found there. -/
def fileExists (m : ChunkUploadManager) (present : ByteString → Bool) (name : ByteString) : Bool :=
  (m.disk.files (name.take 32) (name.drop 32)).isSome || present name

/-- `os.exists` of the path of a chunk -/
def chunkExists (m : ChunkUploadManager) (fileHash : ByteString) (chunkSize i : Nat) : Bool :=
  (m.disk.chunks fileHash chunkSize i).isSome

/-- The status is deleted. -/
def isInvalid (m : ChunkUploadManager) (present : ByteString → Bool) (fileHash : ByteString)
    (uploadStatus : FileUploadStatus) : Bool :=
  if m.fileExists present (trimSpace uploadStatus.filename) then false
  else
    -- the loop over the chunks ends in its first round, whatever it finds
    !m.chunkExists (trimSpace fileHash) uploadStatus.chunkSize 0

def cleanupInvalidStatus (m : ChunkUploadManager) (present : ByteString → Bool) :
    ChunkUploadManager :=
  let toDelete := (m.uploads.entries.filter (fun entry => m.isInvalid present entry.1 entry.2)).map
    Prod.fst
  { m with uploads := toDelete.foldl InsertionMap.erase m.uploads }

def cleanupUploadStatus (m : ChunkUploadManager) (fileHash : ByteString) : ChunkUploadManager :=
  { m with uploads := m.uploads.erase fileHash }

/-! ## What should be deleted -/

/-- The file of the upload is finished, or a chunk of it is stored. -/
def Alive (m : ChunkUploadManager) (present : ByteString → Bool) (fileHash : ByteString)
    (uploadStatus : FileUploadStatus) : Prop :=
  m.fileExists present (fileHash ++ getFileExtension uploadStatus.filename) = true
    ∨ ∃ i, m.chunkExists fileHash uploadStatus.chunkSize i = true

/-- The live uploads are kept as they are, and the others are dropped; nothing else changes. -/
structure CleanupRight (m : ChunkUploadManager) (present : ByteString → Bool) : Prop where
  config      : (m.cleanupInvalidStatus present).config = m.config
  fileService : (m.cleanupInvalidStatus present).fileService = m.fileService
  disk        : (m.cleanupInvalidStatus present).disk = m.disk
  absent      : ∀ fileHash, m.uploads.get? fileHash = none →
    (m.cleanupInvalidStatus present).uploads.get? fileHash = none
  kept        : ∀ fileHash uploadStatus, m.uploads.get? fileHash = some uploadStatus →
    m.Alive present fileHash uploadStatus →
      (m.cleanupInvalidStatus present).uploads.get? fileHash = some uploadStatus
  dropped     : ∀ fileHash uploadStatus, m.uploads.get? fileHash = some uploadStatus →
    ¬ m.Alive present fileHash uploadStatus →
      (m.cleanupInvalidStatus present).uploads.get? fileHash = none

/-- The first chunk is stored; or there is a file under the client's name exactly if there is one
    under the hash, or a later chunk. -/
def ToldApart (m : ChunkUploadManager) (present : ByteString → Bool) (fileHash : ByteString)
    (uploadStatus : FileUploadStatus) : Prop :=
  m.chunkExists fileHash uploadStatus.chunkSize 0 = true ∨
    (m.fileExists present (trimSpace uploadStatus.filename) = true ↔
      m.fileExists present (fileHash ++ getFileExtension uploadStatus.filename) = true ∨
        ∃ i, 0 < i ∧ m.chunkExists fileHash uploadStatus.chunkSize i = true)

end ChunkUploadManager

/-- The states that the calls reach, with clearings between them. -/
inductive UploadRun (config : ChunkUploadConfig) (fileService : Bool) :
    ChunkUploadManager → Prop
  | start : UploadRun config fileService (ChunkUploadManager.new config fileService)
  | step {m : ChunkUploadManager} (call : UploadCall) (run : UploadRun config fileService m) :
      UploadRun config fileService (m.step call).1
  | cleanup {m : ChunkUploadManager} (present : ByteString → Bool)
      (run : UploadRun config fileService m) :
      UploadRun config fileService (m.cleanupInvalidStatus present)
  | forget {m : ChunkUploadManager} (fileHash : ByteString)
      (run : UploadRun config fileService m) :
      UploadRun config fileService (m.cleanupUploadStatus fileHash)

/-! ## The hashes of the table -/

theorem isSpace_lower_hex : ∀ n : Fin 256, isHexDigit (UInt8.ofNat n.val) = true →
    isSpace (lowerByte (UInt8.ofNat n.val)) = false := by
  decide +kernel

/-- A checked hash has no blanks around it. -/
theorem trimSpace_validated {raw fileHash : ByteString} (h : validateFileHash raw = .ok fileHash) :
    trimSpace fileHash = fileHash := by
  have hdigits : ∀ b ∈ fileHash, isSpace b = false := by
    rw [validateFileHash] at h
    split at h
    · cases h
    · split at h
      · cases h
      · split at h
        · cases h
        · rename_i hnone
          cases h
          intro b hb
          obtain ⟨c, hc, rfl⟩ := List.mem_map.mp hb
          have hhex : isHexDigit c = true := by
            have := List.find?_eq_none.mp hnone c hc
            simpa using this
          have hlower := isSpace_lower_hex ⟨c.toNat, c.toNat_lt⟩
          rw [UInt8.ofNat_toNat] at hlower
          exact hlower hhex
  exact trimSpace_eq_self_iff.mpr ⟨fun b hb => hdigits b (List.mem_of_mem_head? hb),
    fun b hb => hdigits b (List.mem_of_getLast? hb)⟩

theorem ok_of_bind {ε α β : Type} {x : Except ε α} {f : α → Except ε β} {b : β}
    (h : x >>= f = .ok b) : ∃ a, x = .ok a ∧ f a = .ok b := by
  cases x with
  | error e => cases h
  | ok a => exact ⟨a, rfl, h⟩

theorem ok_of_checked {α : Type} {name : ByteString} {r : Except ByteString α} {a : α}
    (h : checked name r = .ok a) : r = .ok a := by
  rw [checked.eq_def] at h
  split at h
  · cases h
    rfl
  · cases h

theorem trimSpace_request {config : ChunkUploadConfig} {form : Except ByteString Form}
    {q : ChunkRequest} (h : readChunkRequest config form = .ok q) :
    trimSpace q.fileHash = q.fileHash := by
  rw [readChunkRequest.eq_def] at h
  cases form with
  | error err => cases h
  | ok form =>
      dsimp only at h
      obtain ⟨formData, -, h⟩ := ok_of_bind h
      obtain ⟨fileHashRaw, -, h⟩ := ok_of_bind h
      obtain ⟨fileHash, hhash, h⟩ := ok_of_bind h
      obtain ⟨chunkIndexStr, -, h⟩ := ok_of_bind h
      obtain ⟨filenameRaw, -, h⟩ := ok_of_bind h
      obtain ⟨filename, -, h⟩ := ok_of_bind h
      obtain ⟨fileSizeStr, -, h⟩ := ok_of_bind h
      obtain ⟨fileSize, -, h⟩ := ok_of_bind h
      obtain ⟨chunkSizeStr, -, h⟩ := ok_of_bind h
      obtain ⟨chunkSize, -, h⟩ := ok_of_bind h
      obtain ⟨chunkIndex, -, h⟩ := ok_of_bind h
      obtain ⟨fileData, -, h⟩ := ok_of_bind h
      split at h
      · cases h
      · cases h
        exact trimSpace_validated (ok_of_checked hhash)

namespace ChunkUploadManager

variable {m : ChunkUploadManager}

/-- The hashes of the table have no blanks around them. -/
def HashesTrimmed (m : ChunkUploadManager) : Prop :=
  ∀ fileHash, (m.uploads.get? fileHash).isSome = true → trimSpace fileHash = fileHash

/-- Where the table has no new hash. -/
theorem HashesTrimmed.of_subset {m' : ChunkUploadManager} (h : m.HashesTrimmed)
    (hsub : ∀ fileHash, (m'.uploads.get? fileHash).isSome = true →
      (m.uploads.get? fileHash).isSome = true) : m'.HashesTrimmed :=
  fun fileHash hsome => h fileHash (hsub fileHash hsome)

theorem isSome_markCompleted (fileHash key : ByteString) :
    (((m.markCompleted fileHash).uploads.get? key).isSome = true) =
      ((m.uploads.get? key).isSome = true) := by
  rw [markCompleted]
  split
  · rename_i status hstatus
    rw [InsertionMap.get?_insert]
    split
    · rename_i heq
      rw [heq, hstatus]
      rfl
    · rfl
  · rfl

theorem isSome_finish (io : UploadIo) (hash : ByteString) (chunkSize : Nat) (clear : Bool)
    (disk : ChunkDisk) (key : ByteString) :
    (((({ m with disk := disk } : ChunkUploadManager).finish io hash chunkSize clear).uploads.get?
      key).isSome = true) = ((m.uploads.get? key).isSome = true) := by
  rw [← isSome_markCompleted (m := { m with disk := disk }) hash key]
  cases clear with
  | false => rfl
  | true => rfl

theorem isSome_runMerge (io : UploadIo) (hash ext : ByteString) (chunkSize total : Nat)
    (looksFirst clear : Bool) (key : ByteString) :
    (((m.runMerge io hash ext chunkSize total looksFirst clear).1.uploads.get? key).isSome = true) =
      ((m.uploads.get? key).isSome = true) := by
  rw [runMerge]
  dsimp only
  split
  · rw [concludeService.eq_def]
    dsimp only
    split
    · exact isSome_finish io _ _ _ _ _
    · rfl
  · rw [conclude.eq_def]
    dsimp only
    split
    · rfl
    · exact isSome_finish io _ _ _ _ _

/-- A chunk request adds its own hash only. -/
theorem HashesTrimmed.receiveChunk (h : m.HashesTrimmed) (io : UploadIo) {q : ChunkRequest}
    (hq : trimSpace q.fileHash = q.fileHash) : (m.receiveChunk io q).HashesTrimmed := by
  intro fileHash hsome
  have huploads : (m.receiveChunk io q).uploads
      = (m.updateUploadStatus q.fileHash q.filename q.chunkIndex q.fileSize q.chunkSize).uploads :=
    rfl
  rw [huploads, updateUploadStatus] at hsome
  dsimp only at hsome
  rw [InsertionMap.get?_insert] at hsome
  split at hsome
  · rename_i heq
    rw [heq]
    exact hq
  · exact h fileHash hsome

theorem HashesTrimmed.uploadChunk (h : m.HashesTrimmed) (io : UploadIo) {q : ChunkRequest}
    (hq : trimSpace q.fileHash = q.fileHash) : (m.uploadChunk io q).1.HashesTrimmed := by
  rw [ChunkUploadManager.uploadChunk]
  dsimp only
  split
  · exact h
  · split
    · exact h
    · split
      · exact (h.receiveChunk io hq).of_subset fun key hsome =>
          (isSome_runMerge io _ _ _ _ _ _ key).mp hsome
      · exact h.receiveChunk io hq

theorem HashesTrimmed.step (h : m.HashesTrimmed) (call : UploadCall) :
    (m.step call).1.HashesTrimmed := by
  cases call with
  | chunkUpload io form =>
      show (m.handleChunkUpload io form).1.HashesTrimmed
      rw [handleChunkUpload]
      split
      · exact h
      · rename_i q hread
        exact h.uploadChunk io (trimSpace_request hread)
  | chunkMerge io body =>
      show (m.handleChunkMerge io body).1.HashesTrimmed
      rw [handleChunkMerge]
      split
      · exact h
      · split
        · exact h
        · split
          · exact h
          · exact h.of_subset fun key hsome => (isSome_runMerge io _ _ _ _ _ _ key).mp hsome

/-! ## The clearing -/

theorem get?_foldl_erase (hashes : List ByteString) :
    ∀ (uploads : InsertionMap ByteString FileUploadStatus) (key : ByteString),
      (hashes.foldl InsertionMap.erase uploads).get? key
        = if key ∈ hashes then none else uploads.get? key := by
  induction hashes with
  | nil => exact fun _ _ => (if_neg List.not_mem_nil).symm
  | cons hash hashes ih =>
      intro uploads key
      rw [List.foldl_cons, ih, InsertionMap.get?_erase]
      by_cases hmem : key ∈ hashes
      · rw [if_pos hmem, if_pos (List.mem_cons_of_mem _ hmem)]
      · rw [if_neg hmem]
        by_cases heq : key = hash
        · rw [if_pos heq, if_pos (heq ▸ List.mem_cons_self)]
        · rw [if_neg heq, if_neg (fun h => (List.mem_cons.mp h).elim heq hmem)]

/-- What the clearing leaves under a hash. -/
theorem get?_cleanupInvalidStatus (present : ByteString → Bool) (fileHash : ByteString) :
    (m.cleanupInvalidStatus present).uploads.get? fileHash
      = (m.uploads.get? fileHash).filter (fun status => !m.isInvalid present fileHash status) := by
  have hmem : fileHash ∈ (m.uploads.entries.filter (fun entry =>
        m.isInvalid present entry.1 entry.2)).map Prod.fst
      ↔ ∃ status, m.uploads.get? fileHash = some status
        ∧ m.isInvalid present fileHash status = true := by
    constructor
    · intro h
      obtain ⟨entry, hentry, rfl⟩ := List.mem_map.mp h
      obtain ⟨hin, hinvalid⟩ := List.mem_filter.mp hentry
      exact ⟨entry.2, InsertionMap.get?_of_mem_entries hin, hinvalid⟩
    · rintro ⟨status, hget, hinvalid⟩
      exact List.mem_map.mpr ⟨(fileHash, status),
        List.mem_filter.mpr ⟨InsertionMap.mem_entries_of_get? hget, hinvalid⟩, rfl⟩
  show (List.foldl InsertionMap.erase m.uploads _).get? fileHash = _
  rw [get?_foldl_erase]
  cases hget : m.uploads.get? fileHash with
  | none => exact ite_self none
  | some status =>
      rw [hget] at hmem
      by_cases hinvalid : m.isInvalid present fileHash status = true
      · rw [if_pos (hmem.mpr ⟨status, rfl, hinvalid⟩), Option.filter_some, hinvalid]
        rfl
      · rw [if_neg (fun h => hinvalid ?_), Option.filter_some, Bool.eq_false_iff.mpr hinvalid]
        · rfl
        · obtain ⟨status', heq, hstatus'⟩ := hmem.mp h
          cases heq
          exact hstatus'

end ChunkUploadManager

open ChunkUploadManager

/-- In every state that is reached the hashes of the table have no blanks around them. -/
theorem UploadRun.hashesTrimmed {config : ChunkUploadConfig} {fileService : Bool}
    {m : ChunkUploadManager} (h : UploadRun config fileService m) : m.HashesTrimmed := by
  induction h with
  | start => exact fun _ hsome => absurd hsome Bool.false_ne_true
  | step call _ ih => exact ih.step call
  | cleanup present _ ih =>
      refine ih.of_subset fun key hsome => ?_
      rw [get?_cleanupInvalidStatus] at hsome
      exact Option.isSome_of_isSome_filter _ _ hsome
  | forget fileHash _ ih =>
      refine ih.of_subset fun key hsome => ?_
      rw [cleanupUploadStatus, InsertionMap.get?_erase] at hsome
      split at hsome
      · cases hsome
      · exact hsome

namespace ChunkUploadManager

variable {m : ChunkUploadManager} {present : ByteString → Bool} {fileHash : ByteString}
  {status : FileUploadStatus}

theorem isInvalid_iff (hhash : trimSpace fileHash = fileHash) :
    m.isInvalid present fileHash status = true
      ↔ ¬ m.fileExists present (trimSpace status.filename) = true
        ∧ ¬ m.chunkExists fileHash status.chunkSize 0 = true := by
  rw [isInvalid, hhash]
  cases m.fileExists present (trimSpace status.filename) with
  | true => exact iff_of_false Bool.false_ne_true (fun h => h.1 rfl)
  | false =>
      cases m.chunkExists fileHash status.chunkSize 0 with
      | true => exact iff_of_false Bool.false_ne_true (fun h => h.2 rfl)
      | false => exact iff_of_true rfl ⟨Bool.false_ne_true, Bool.false_ne_true⟩

/-- The chunks of an upload are the first one and the later ones. -/
theorem alive_iff : m.Alive present fileHash status
    ↔ m.chunkExists fileHash status.chunkSize 0 = true ∨
      (m.fileExists present (fileHash ++ getFileExtension status.filename) = true ∨
        ∃ i, 0 < i ∧ m.chunkExists fileHash status.chunkSize i = true) := by
  constructor
  · rintro (hfile | ⟨i, hi⟩)
    · exact Or.inr (Or.inl hfile)
    · rcases Nat.eq_zero_or_pos i with rfl | hpos
      · exact Or.inl hi
      · exact Or.inr (Or.inr ⟨i, hpos, hi⟩)
  · rintro (hfirst | hfile | ⟨i, -, hi⟩)
    · exact Or.inr ⟨0, hfirst⟩
    · exact Or.inl hfile
    · exact Or.inr ⟨i, hi⟩

/-- An upload is taken for dead exactly if it is, where the two can be told apart. -/
theorem toldApart_iff (hhash : trimSpace fileHash = fileHash) :
    m.ToldApart present fileHash status
      ↔ (m.isInvalid present fileHash status = true ↔ ¬ m.Alive present fileHash status) := by
  rw [isInvalid_iff hhash, alive_iff, ToldApart]
  by_cases hfirst : m.chunkExists fileHash status.chunkSize 0 = true
  · exact iff_of_true (Or.inl hfirst)
      (iff_of_false (fun h => h.2 hfirst) (fun h => h (Or.inl hfirst)))
  · rw [or_iff_right hfirst, or_iff_right hfirst, and_iff_left hfirst]
    exact not_iff_not.symm

/-- The clearing is right exactly if the live uploads of the table can be told from the dead. -/
theorem cleanupRight_iff_of_trimmed (h : m.HashesTrimmed) :
    m.CleanupRight present ↔ ∀ fileHash status, m.uploads.get? fileHash = some status →
      m.ToldApart present fileHash status := by
  have htrimmed : ∀ {fileHash : ByteString} {status : FileUploadStatus},
      m.uploads.get? fileHash = some status → trimSpace fileHash = fileHash :=
    fun hget => h _ (by rw [hget]; rfl)
  have hafter : ∀ {fileHash : ByteString} {status : FileUploadStatus},
      m.uploads.get? fileHash = some status →
        (m.cleanupInvalidStatus present).uploads.get? fileHash
          = if m.isInvalid present fileHash status = true then none else some status := by
    intro fileHash status hget
    rw [get?_cleanupInvalidStatus, hget, Option.filter_some]
    cases m.isInvalid present fileHash status with
    | true => rfl
    | false => rfl
  constructor
  · intro hright fileHash status hget
    refine (toldApart_iff (htrimmed hget)).mpr ⟨fun hinvalid halive => ?_, fun hdead => ?_⟩
    · have hkept := hright.kept fileHash status hget halive
      rw [hafter hget, if_pos hinvalid] at hkept
      cases hkept
    · have hdropped := hright.dropped fileHash status hget hdead
      by_contra hvalid
      rw [hafter hget, if_neg hvalid] at hdropped
      cases hdropped
  · intro htold
    refine ⟨rfl, rfl, rfl, fun fileHash hget => ?_, fun fileHash status hget halive => ?_,
      fun fileHash status hget hdead => ?_⟩
    · rw [get?_cleanupInvalidStatus, hget]
      rfl
    · have hexact := (toldApart_iff (htrimmed hget)).mp (htold fileHash status hget)
      rw [hafter hget, if_neg (fun hinvalid => hexact.mp hinvalid halive)]
    · have hexact := (toldApart_iff (htrimmed hget)).mp (htold fileHash status hget)
      rw [hafter hget, if_pos (hexact.mpr hdead)]

end ChunkUploadManager

/-- In every state that is reached, and whatever else is in the upload directory. -/
theorem cleanupRight_iff {config : ChunkUploadConfig} {fileService : Bool}
    {m : ChunkUploadManager} (h : UploadRun config fileService m) (present : ByteString → Bool) :
    m.CleanupRight present ↔ ∀ fileHash status, m.uploads.get? fileHash = some status →
      m.ToldApart present fileHash status :=
  cleanupRight_iff_of_trimmed h.hashesTrimmed

/-- A manager that received one chunk of `a.txt`. -/
def receivedChunk (index : String) : ChunkUploadManager :=
  ((ChunkUploadManager.new {} false).step
    (ChunkUploadManager.sendChunk {} "8" index "abcd")).1

theorem cleanupRight_receivedChunk :
    (receivedChunk "0").CleanupRight (fun _ => false) := by
  have hfirst : ∀ entry ∈ (receivedChunk "0").uploads.entries,
      (receivedChunk "0").chunkExists entry.1 entry.2.chunkSize 0 = true := by
    decide
  exact (cleanupRight_iff (.step _ .start) _).mpr fun _ _ hget =>
    Or.inl (hfirst _ (InsertionMap.mem_entries_of_get? hget))

/-- An upload whose second chunk came first is forgotten. -/
theorem second_chunk_forgotten :
    ¬ ∀ (config : ChunkUploadConfig) (fileService : Bool) (m : ChunkUploadManager),
      UploadRun config fileService m → ∀ present, m.CleanupRight present := by
  intro h
  have hright := h {} false (receivedChunk "1") (.step _ .start) (fun _ => false)
  have hstored : ∀ entry ∈ (receivedChunk "1").uploads.entries,
      (receivedChunk "1").chunkExists entry.1 entry.2.chunkSize 1 = true := by
    decide
  have hsome : ((receivedChunk "1").uploads.get?
      (ascii "0123456789abcdef0123456789abcdef")).isSome = true := by
    decide
  have hnone : (((receivedChunk "1").cleanupInvalidStatus (fun _ => false)).uploads.get?
      (ascii "0123456789abcdef0123456789abcdef")).isSome = false := by
    decide
  obtain ⟨status, hget⟩ := Option.isSome_iff_exists.mp hsome
  have hkept := hright.kept _ status hget
    (Or.inr ⟨1, hstored _ (InsertionMap.mem_entries_of_get? hget)⟩)
  rw [hkept] at hnone
  cases hnone

end VHono
