import VHono.ChunkForms
import VHono.PieceAssembly

/-! # Stored chunks and their merge

    The files of the upload manager: chunks and size records by hash, chunk
    size and index, and the final files by hash and extension.  Hashes have 32
    digits, so a file name splits in one way into the two.  What the operating
    system does to a call (a directory that cannot be made, a write torn in
    the middle, a read that fails) is an argument of the operation. -/

namespace VHono

open ByteString HttpGrammar PieceAssembly

/-- The files, and the objects of the file service by their id. -/
structure ChunkDisk where
  chunks      : ByteString → Nat → Nat → Option ByteString
  sizeRecords : ByteString → Nat → Option Nat
  files       : ByteString → ByteString → Option ByteString
  objects     : ByteString → Option ByteString

/-- Nothing is stored. -/
def ChunkDisk.empty : ChunkDisk := ⟨fun _ _ _ => none, fun _ _ => none, fun _ _ => none,
  fun _ => none⟩

namespace ChunkDisk

variable (d : ChunkDisk)

def setChunk (hash : ByteString) (chunkSize index : Nat) (content : Option ByteString) :
    ChunkDisk :=
  { d with
    chunks := fun h s i => if h = hash ∧ s = chunkSize ∧ i = index then content else d.chunks h s i }

def setRecord (hash : ByteString) (chunkSize : Nat) (total : Option Nat) : ChunkDisk :=
  { d with
    sizeRecords := fun h s => if h = hash ∧ s = chunkSize then total else d.sizeRecords h s }

def setFile (hash ext content : ByteString) : ChunkDisk :=
  { d with files := fun h e => if h = hash ∧ e = ext then some content else d.files h e }

def setObject (uuid content : ByteString) : ChunkDisk :=
  { d with objects := fun u => if u = uuid then some content else d.objects u }

@[simp] theorem setFile_same (hash ext content : ByteString) :
    (d.setFile hash ext content).files hash ext = some content := if_pos ⟨rfl, rfl⟩

theorem setFile_other {hash hash' : ByteString} (h : hash' ≠ hash) (ext content : ByteString) :
    (d.setFile hash ext content).files hash' = d.files hash' := by
  funext e
  exact if_neg (fun hc => h hc.1)

@[simp] theorem setObject_same (uuid content : ByteString) :
    (d.setObject uuid content).objects uuid = some content := if_pos rfl

end ChunkDisk

/-! ## The size record -/

/-- The record keeps the bytes received under a chunk size. -/
structure RecordIo where
  mkdir    : Bool := true
  read     : Bool := true
  write    : WriteOutcome Nat := .done
  readBack : Bool := true

/-- The value of the record; a missing or unreadable one counts as zero. -/
def recordValue (readable : Bool) (total : Option Nat) : Nat :=
  if readable = true then total.getD 0 else 0

def updateChunkSizeRecord (d : ChunkDisk) (io : RecordIo) (hash : ByteString)
    (chunkSize currentChunkSize : Nat) : ChunkDisk :=
  if io.mkdir = false then d
  else
    let old := d.sizeRecords hash chunkSize
    let totalSize := (recordValue io.read old + currentChunkSize) % 2 ^ 64
    d.setRecord hash chunkSize (io.write.apply old totalSize)

def getChunkSizeRecord (d : ChunkDisk) (io : RecordIo) (hash : ByteString) (chunkSize : Nat) :
    Nat :=
  recordValue io.readBack (d.sizeRecords hash chunkSize)

/-! ## The merge -/

inductive MergeError
  | uploadDir
  | notWritable
  | create
  | chunkNotFound (index : Nat)
  | openChunk (index : Nat)
  | writeChunk (index : Nat)
  | fileService
  deriving DecidableEq, Repr

structure MergeIo where
  mkdir    : Bool := true
  writable : Bool := true
  create   : Bool := true
  opens    : Nat → Bool := fun _ => true
  copy     : Nat → CopyFaults := fun _ => .none

/-- The loop over the chunks; a failure stops it with what is written by then. -/
def mergeLoop (io : MergeIo) (buffer : Nat) (chunk : Nat → Option ByteString) :
    List Nat → ByteString → ByteString × Option MergeError
  | [], out => (out, none)
  | i :: is, out =>
    match chunk i with
    | none => (out, some (.chunkNotFound i))
    | some data =>
      if io.opens i = false then (out, some (.openChunk i))
      else
        let copied := copyPiece (io.copy i) buffer data out
        if copied.2 = true then mergeLoop io buffer chunk is copied.1
        else (copied.1, some (.writeChunk i))

/-- How a merge ended: the final file was there before, the loop ran to its end, or
    something failed, before or after the final file was created. -/
inductive MergeResult
  | kept
  | merged (content : ByteString)
  | failed (created : Bool) (error : MergeError)
  deriving DecidableEq, Repr

/-- `final_path.trim_space()` cuts the extension. -/
def trimRight (s : ByteString) : ByteString := (s.reverse.dropWhile isSpace).reverse

/-- `merge_chunks`: the existing file is looked up under the full name and the new one is
    created under the trimmed name. -/
def mergeChunks (config : ChunkUploadConfig) (d : ChunkDisk) (io : MergeIo)
    (hash : ByteString) (totalChunks : Nat) (ext : ByteString) (chunkSize : Nat) :
    ChunkDisk × MergeResult :=
  if io.mkdir = false then (d, .failed false .uploadDir)
  else if io.writable = false then (d, .failed false .notWritable)
  else if (d.files hash ext).isSome = true then (d, .kept)
  else if io.create = false then (d, .failed false .create)
  else
    let looped := mergeLoop io config.mergeBufferSize (d.chunks hash chunkSize)
      (List.range totalChunks) []
    (d.setFile hash (trimRight ext) looped.1,
      match looped.2 with
      | none => .merged looped.1
      | some error => .failed true error)

/-- Into memory no write fails. -/
def MergeIo.inMemory (io : MergeIo) : MergeIo :=
  { io with copy := fun i => { io.copy i with writeFails := fun _ => none } }

/-- What the file service answers: id and storage type of the new object, or an error. -/
structure ServiceIo where
  upload : Option (ByteString × ByteString) := none

/-- `merge_and_store_to_file_service`: the same loop into memory, and the object. -/
def mergeAndStoreToFileService (config : ChunkUploadConfig) (d : ChunkDisk) (io : MergeIo)
    (service : ServiceIo) (hash : ByteString) (totalChunks chunkSize : Nat) :
    ChunkDisk × MergeResult × Option (ByteString × ByteString) :=
  let looped := mergeLoop io.inMemory config.mergeBufferSize (d.chunks hash chunkSize)
    (List.range totalChunks) []
  match looped.2 with
  | some error => (d, .failed false error, none)
  | none =>
    match service.upload with
    | none => (d, .failed false .fileService, none)
    | some (uuid, storageType) =>
      (d.setObject uuid looped.1, .merged looped.1, some (uuid, storageType))

/-- What survives the removal of a chunk directory; nothing, unless the removal fails. -/
structure CleanupIo where
  keepsRecord : Bool := false
  keepsChunk  : Nat → Bool := fun _ => false

def cleanupChunks (d : ChunkDisk) (io : CleanupIo) (hash : ByteString) (chunkSize : Nat) :
    ChunkDisk :=
  { d with
    chunks := fun h s i =>
      if h = hash ∧ s = chunkSize ∧ io.keepsChunk i = false then none else d.chunks h s i
    sizeRecords := fun h s =>
      if h = hash ∧ s = chunkSize ∧ io.keepsRecord = false then none else d.sizeRecords h s }

@[simp] theorem cleanupChunks_files (d : ChunkDisk) (io : CleanupIo) (hash : ByteString)
    (chunkSize : Nat) : (cleanupChunks d io hash chunkSize).files = d.files := rfl

@[simp] theorem cleanupChunks_objects (d : ChunkDisk) (io : CleanupIo) (hash : ByteString)
    (chunkSize : Nat) : (cleanupChunks d io hash chunkSize).objects = d.objects := rfl

/-! ## What a merge leaves -/

/-- Every chunk of the merge can be read to its end. -/
def AllReadable (io : MergeIo) (buffer : Nat) (chunk : Nat → Option ByteString)
    (total : Nat) : Prop :=
  ∀ i < total, ∀ data, chunk i = some data → ReadsAll (io.copy i) buffer data

/-- A loop that ends without an error has joined the chunks. -/
theorem mergeLoop_ok {io : MergeIo} {buffer : Nat} {chunk : Nat → Option ByteString} :
    ∀ {is : List Nat} {out : ByteString},
      (∀ i ∈ is, ∀ data, chunk i = some data → ReadsAll (io.copy i) buffer data) →
      (mergeLoop io buffer chunk is out).2 = none →
      ∃ content, assemble chunk is = some content ∧
        (mergeLoop io buffer chunk is out).1 = out ++ content := by
  intro is
  induction is with
  | nil =>
      intro out _ _
      exact ⟨[], rfl, (List.append_nil out).symm⟩
  | cons i is ih =>
      intro out hread hok
      rw [mergeLoop] at hok ⊢
      cases hchunk : chunk i with
      | none =>
          rw [hchunk] at hok
          cases hok
      | some data =>
          rw [hchunk] at hok
          dsimp only at hok ⊢
          by_cases hopen : io.opens i = false
          · rw [if_pos hopen] at hok
            cases hok
          -- the chunk is copied whole, since its reads do not fail
          · rw [if_neg hopen] at hok ⊢
            by_cases hcopy : (copyPiece (io.copy i) buffer data out).2 = true
            · rw [if_pos hcopy] at hok ⊢
              have hall : (copyPiece (io.copy i) buffer data out).1 = out ++ data :=
                copyPiece_all (hread i (List.mem_cons_self ..) data hchunk) hcopy
              rw [hall] at hok ⊢
              obtain ⟨content, hcontent, hout⟩ :=
                ih (fun j hj => hread j (List.mem_cons_of_mem _ hj)) hok
              exact ⟨data ++ content, assemble_cons_some hchunk hcontent,
                by rw [hout, List.append_assoc]⟩
            · rw [if_neg hcopy] at hok
              cases hok

/-- **WHAT `merge_chunks` LEAVES.**  The chunks stay as they are.  The final files stay too,
    except that one under the trimmed name is created when none stood under the full name;
    a merge that ends well holds the chunks in order, if all could be read. -/
theorem mergeChunks_spec (config : ChunkUploadConfig) (d : ChunkDisk) (io : MergeIo)
    (hash : ByteString) (total : Nat) (ext : ByteString) (chunkSize : Nat) :
    (mergeChunks config d io hash total ext chunkSize).1.chunks = d.chunks ∧
    match (mergeChunks config d io hash total ext chunkSize).2 with
    | .kept => (mergeChunks config d io hash total ext chunkSize).1 = d ∧
        (d.files hash ext).isSome = true
    | .merged content =>
        (mergeChunks config d io hash total ext chunkSize).1
          = d.setFile hash (trimRight ext) content ∧
        d.files hash ext = none ∧
        (AllReadable io config.mergeBufferSize (d.chunks hash chunkSize) total →
          assemble (d.chunks hash chunkSize) (List.range total) = some content)
    | .failed false _ => (mergeChunks config d io hash total ext chunkSize).1 = d
    | .failed true _ => ∃ content, (mergeChunks config d io hash total ext chunkSize).1
        = d.setFile hash (trimRight ext) content := by
  rw [mergeChunks]
  split
  · exact ⟨rfl, rfl⟩
  · split
    · exact ⟨rfl, rfl⟩
    · split
      · rename_i hexists
        exact ⟨rfl, rfl, hexists⟩
      · rename_i hexists
        have habsent : d.files hash ext = none := by
          rw [Bool.not_eq_true, Option.isSome_eq_false_iff] at hexists
          exact Option.isNone_iff_eq_none.mp hexists
        split
        · exact ⟨rfl, rfl⟩
        -- the final file exists from here on, however the loop ends
        · cases hloop : (mergeLoop io config.mergeBufferSize (d.chunks hash chunkSize)
              (List.range total) []).2 with
          | some error =>
              dsimp only
              rw [hloop]
              exact ⟨rfl, _, rfl⟩
          | none =>
              dsimp only
              rw [hloop]
              refine ⟨rfl, rfl, habsent, ?_⟩
              intro hread
              obtain ⟨content, hcontent, hout⟩ :=
                mergeLoop_ok (fun i hi => hread i (List.mem_range.mp hi)) hloop
              rw [hout, List.nil_append]
              exact hcontent

/-- What the merge into the file service leaves. -/
theorem mergeAndStore_spec (config : ChunkUploadConfig) (d : ChunkDisk) (io : MergeIo)
    (service : ServiceIo) (hash : ByteString) (total chunkSize : Nat) :
    match (mergeAndStoreToFileService config d io service hash total chunkSize).2 with
    | (.merged content, some (uuid, _)) =>
        (mergeAndStoreToFileService config d io service hash total chunkSize).1
          = d.setObject uuid content ∧
        (AllReadable io config.mergeBufferSize (d.chunks hash chunkSize) total →
          assemble (d.chunks hash chunkSize) (List.range total) = some content)
    | (.failed false _, none) =>
        (mergeAndStoreToFileService config d io service hash total chunkSize).1 = d
    | _ => False := by
  rw [mergeAndStoreToFileService]
  cases hloop : (mergeLoop io.inMemory config.mergeBufferSize (d.chunks hash chunkSize)
      (List.range total) []).2 with
  | some error => rfl
  | none =>
      dsimp only
      cases service.upload with
      | none => rfl
      | some answer =>
          refine ⟨rfl, ?_⟩
          intro hread
          have hmemory : AllReadable io.inMemory config.mergeBufferSize (d.chunks hash chunkSize)
              total := hread
          obtain ⟨content, hcontent, hout⟩ :=
            mergeLoop_ok (fun i hi => hmemory i (List.mem_range.mp hi)) hloop
          rw [hout, List.nil_append]
          exact hcontent

end VHono
