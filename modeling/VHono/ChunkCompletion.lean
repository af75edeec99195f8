import VHono.ChunkUploads
import VHono.TextReplacement
import VHono.Trimming

/-! # What a completed upload refers to

    A reply that announces a complete file is sound if the file holds chunks
    `0 .. n-1` as they are stored, in order, and has the declared size.  The
    manager decides by two counters: a size record that also counts chunks
    sent again, and a table of indices that is kept for the hash whatever the
    chunk size.  A reply is sound where they agree with what is stored. -/

namespace VHono

open ByteString HttpGrammar PieceAssembly MachineRuns

/-- The content joins the first chunks and has the declared size. -/
def Complete (chunk : Nat → Option ByteString) (size : Nat) (content : ByteString) : Prop :=
  ∃ n, assemble chunk (List.range n) = some content ∧ content.length = size

namespace ChunkUploadManager

/-- What a reply says of the files, if it announces a complete one. -/
def Announces (m : ChunkUploadManager) (reply : UploadReply) (hash : ByteString)
    (chunk : Nat → Option ByteString) (size : Nat) : Prop :=
  match reply with
  | .fileMerged path _ => ∃ ext content, path = trimSpace (m.finalPath hash ext) ∧
      m.disk.files hash ext = some content ∧ Complete chunk size content
  | .fileStored uuid _ => ∃ content, m.disk.objects uuid = some content ∧
      Complete chunk size content
  | _ => True

/-- A reply of either handler is sound. -/
def CompletionSound (m : ChunkUploadManager) (call : UploadCall) : Prop :=
  match call with
  | .chunkUpload io form => ∀ q, readChunkRequest m.config form = .ok q →
      (m.handleChunkUpload io form).1.Announces (m.handleChunkUpload io form).2.reply q.fileHash
        (m.storedChunks q) q.fileSize
  | .chunkMerge io body => ∀ r status, readMergeRequest body = .ok r →
      m.uploads.get? r.fileHash = some status →
      (m.handleChunkMerge io body).1.Announces (m.handleChunkMerge io body).2.reply r.fileHash
        (m.disk.chunks r.fileHash status.chunkSize) status.fileSize

/-! ## When the counters agree with what is stored -/

/-- If the chunks that will be merged are all stored, their lengths add up to the declared
    size, and they can be read to their ends. -/
structure MergeFits (config : ChunkUploadConfig) (io : MergeIo)
    (chunk : Nat → Option ByteString) (count size : Nat) : Prop where
  sizes    : (∀ i < count, ∃ data, chunk i = some data) →
    ((List.range count).map (fun i => ((chunk i).getD []).length)).sum = size
  readable : AllReadable io config.mergeBufferSize chunk count

/-- The file to be merged is already there, and is right; or it is not, and the merge fits. -/
structure FileFits (m : ChunkUploadManager) (io : MergeIo) (hash ext : ByteString)
    (chunk : Nat → Option ByteString) (count size : Nat) : Prop where
  lineFree : (10 : UInt8) ∉ m.finalPath hash ext ∧ (13 : UInt8) ∉ m.finalPath hash ext
  kept     : (m.disk.files hash ext).isSome = true →
    ∃ content, m.disk.files hash (trimRight ext) = some content ∧ Complete chunk size content
  absent   : m.disk.files hash ext = none → MergeFits m.config io chunk count size

/-- Into the file service everything is merged. -/
def TargetFits (m : ChunkUploadManager) (s : MergeStart) (size : Nat) : Prop :=
  if m.usesFileService = true then MergeFits m.config s.io.merge s.chunk s.total size
  else FileFits m s.io.merge s.hash s.ext s.chunk s.total size

/-- A request that starts a merge finds the counters right. -/
def CompletionOk (m : ChunkUploadManager) (call : UploadCall) : Prop :=
  match call with
  | .chunkUpload io form => ∀ q, readChunkRequest m.config form = .ok q →
      ∀ s, m.mergeOfUpload io q = some s → m.TargetFits s q.fileSize
  | .chunkMerge io body => ∀ r status, readMergeRequest body = .ok r →
      m.uploads.get? r.fileHash = some status →
      ∀ s, m.mergeOfStatus io r status = some s → m.TargetFits s status.fileSize

/-! ## Paths -/

theorem trimSpace_trimRight (s t : ByteString) :
    trimSpace (s ++ trimRight t) = trimSpace (s ++ t) := by
  have hsplit : t = trimRight t ++ (t.reverse.takeWhile isSpace).reverse := by
    rw [trimRight, ← List.reverse_append, List.takeWhile_append_dropWhile, List.reverse_reverse]
  have hspace : ∀ b ∈ (t.reverse.takeWhile isSpace).reverse, isSpace b = true := by
    intro b hb
    exact List.mem_takeWhile_imp (List.mem_reverse.mp hb)
  conv_rhs => rw [hsplit, ← List.append_assoc]
  exact (trimSpace_append hspace).symm

/-- A path without line breaks is given back up to the spaces at its end. -/
theorem cleanFilePath_eq {m : ChunkUploadManager} {hash ext : ByteString}
    (h : (10 : UInt8) ∉ m.finalPath hash ext ∧ (13 : UInt8) ∉ m.finalPath hash ext) :
    m.cleanFilePath hash ext = trimSpace (m.finalPath hash (trimRight ext)) := by
  have hpath : ∀ e : ByteString,
      m.finalPath hash e = (m.config.uploadDir ++ byte '/' :: hash) ++ e := by
    intro e
    rw [finalPath, List.append_assoc, List.cons_append]
  have hlf : (10 : UInt8) ∈ [(10 : UInt8)] := List.mem_singleton.mpr rfl
  have hcr : (13 : UInt8) ∈ [(13 : UInt8)] := List.mem_singleton.mpr rfl
  rw [cleanFilePath, replaceStr_free [] (not_containsStr_of_mem hlf h.1),
    replaceStr_free [] (not_containsStr_of_mem hcr h.2), hpath, hpath,
    trimSpace_trimRight]

/-! ## Sound replies -/

/-- What a fitting merge joins is complete. -/
theorem MergeFits.complete {config : ChunkUploadConfig} {io : MergeIo}
    {chunk : Nat → Option ByteString} {count size : Nat} (h : MergeFits config io chunk count size)
    {content : ByteString}
    (hcontent : AllReadable io config.mergeBufferSize chunk count →
      assemble chunk (List.range count) = some content) : Complete chunk size content := by
  have hjoined := hcontent h.readable
  refine ⟨count, hjoined, ?_⟩
  rw [length_assemble hjoined]
  exact h.sizes (fun i hi => piece_of_assemble hjoined i (List.mem_range.mpr hi))

variable {m : ChunkUploadManager} {io : UploadIo} {run : MergeRun} {clear : Bool}
  {disk : ChunkDisk} {chunk : Nat → Option ByteString} {size : Nat}

theorem announces_conclude
    (hline : (10 : UInt8) ∉ m.finalPath run.hash run.ext ∧
      (13 : UInt8) ∉ m.finalPath run.hash run.ext)
    (hfile : (∃ created error, run.result = .failed created error) ∨
      ∃ content, disk.files run.hash (trimRight run.ext) = some content ∧
        Complete chunk size content) :
    (m.conclude io run clear disk).1.Announces (m.conclude io run clear disk).2.reply run.hash
      chunk size := by
  rw [conclude]
  cases hresult : run.result with
  | failed created error => exact trivial
  -- a file that was there and one that is merged are announced alike
  | kept => ?_
  | merged content => ?_
  all_goals
    obtain ⟨created, error, hfailed⟩ | ⟨content, hcontent, hcomplete⟩ := hfile
    · rw [hresult] at hfailed
      cases hfailed
    · obtain ⟨hconfig, -, hfiles, -⟩ :=
        finish_spec { m with disk := disk } io run.hash run.chunkSize clear
      refine ⟨trimRight run.ext, content, ?_, ?_, hcomplete⟩
      · rw [finalPath, hconfig]
        exact cleanFilePath_eq (m := { m with disk := disk }) hline
      · rw [hfiles]
        exact hcontent

theorem announces_concludeService {answer : Option (ByteString × ByteString)}
    (hobject : ∀ uuid storageType, answer = some (uuid, storageType) →
      ∃ content, disk.objects uuid = some content ∧ Complete chunk size content) :
    (m.concludeService io run clear disk answer).1.Announces
      (m.concludeService io run clear disk answer).2.reply run.hash chunk size := by
  cases answer with
  | none => exact trivial
  | some answer =>
      obtain ⟨uuid, storageType⟩ := answer
      rw [concludeService]
      obtain ⟨content, hcontent, hcomplete⟩ := hobject uuid storageType rfl
      refine ⟨content, ?_, hcomplete⟩
      rw [(finish_spec { m with disk := disk } io run.hash run.chunkSize clear).2.2.2]
      exact hcontent

/-- A merge into a file, or one skipped because the file is there. -/
theorem announces_file {hash ext : ByteString} {chunkSize count : Nat}
    (hfits : m.FileFits io.merge hash ext (m.disk.chunks hash chunkSize) count size)
    {merged : ChunkDisk × MergeResult}
    (hmerged : (merged = (m.disk, .kept) ∧ (m.disk.files hash ext).isSome = true) ∨
      merged = mergeChunks m.config m.disk io.merge hash count ext chunkSize) :
    (∃ created error, merged.2 = .failed created error) ∨
      ∃ content, merged.1.files hash (trimRight ext) = some content ∧
        Complete (m.disk.chunks hash chunkSize) size content := by
  rcases hmerged with ⟨rfl, hexists⟩ | rfl
  · exact Or.inr (hfits.kept hexists)
  · have hspec := (mergeChunks_spec m.config m.disk io.merge hash count ext chunkSize).2
    cases hresult : (mergeChunks m.config m.disk io.merge hash count ext chunkSize).2 with
    | failed created error => exact Or.inl ⟨created, error, rfl⟩
    | kept =>
        rw [hresult] at hspec
        rw [hspec.1]
        exact Or.inr (hfits.kept hspec.2)
    | merged content =>
        rw [hresult] at hspec
        obtain ⟨hdisk, habsent, hjoined⟩ := hspec
        rw [hdisk, ChunkDisk.setFile_same]
        exact Or.inr ⟨content, rfl, (hfits.absent habsent).complete hjoined⟩

/-- A merge into the file service. -/
theorem announces_service {hash : ByteString} {chunkSize count : Nat}
    (hfits : MergeFits m.config io.merge (m.disk.chunks hash chunkSize) count size) :
    ∀ uuid storageType, (mergeAndStoreToFileService m.config m.disk io.merge io.service hash count
        chunkSize).2.2 = some (uuid, storageType) →
      ∃ content, (mergeAndStoreToFileService m.config m.disk io.merge io.service hash count
        chunkSize).1.objects uuid = some content ∧
        Complete (m.disk.chunks hash chunkSize) size content := by
  intro uuid storageType hanswer
  have hspec := mergeAndStore_spec m.config m.disk io.merge io.service hash count chunkSize
  generalize mergeAndStoreToFileService m.config m.disk io.merge io.service hash count chunkSize
    = stored at hspec hanswer ⊢
  obtain ⟨disk, result, answer⟩ := stored
  dsimp only at hspec hanswer
  subst hanswer
  cases result with
  | kept => exact hspec.elim
  | failed created error =>
      cases created with
      | true => exact hspec.elim
      | false => exact hspec.elim
  | merged content =>
      obtain ⟨rfl, hjoined⟩ := hspec
      exact ⟨content, ChunkDisk.setObject_same .., hfits.complete hjoined⟩

/-- A merge of a target that fits is announced soundly. -/
theorem announces_runMerge {s : MergeStart}
    (h : m.TargetFits s size) (hchunk : m.disk.chunks s.hash s.chunkSize = s.chunk) :
    (m.runMerge s.io s.hash s.ext s.chunkSize s.total s.looksFirst clear).1.Announces
      (m.runMerge s.io s.hash s.ext s.chunkSize s.total s.looksFirst clear).2.reply s.hash
      s.chunk size := by
  rw [TargetFits, ← hchunk] at h
  rw [runMerge, ← hchunk]
  split
  · rename_i hservice
    rw [if_pos hservice] at h
    exact announces_concludeService (announces_service h)
  · rename_i hservice
    rw [if_neg hservice] at h
    -- the handler that looks for the file first skips the merge if it is there
    refine announces_conclude h.lineFree (announces_file h ?_)
    split
    · rename_i hexists
      exact Or.inl ⟨rfl, hexists.2⟩
    · exact Or.inr rfl

/-- A target that fits still fits while configuration and final files stay as they are. -/
theorem TargetFits.transfer {m₁ : ChunkUploadManager} {s : MergeStart} (h : m.TargetFits s size)
    (hconfig : m₁.config = m.config) (hservice : m₁.fileService = m.fileService)
    (hfiles : m₁.disk.files = m.disk.files) : m₁.TargetFits s size := by
  rw [TargetFits, usesFileService] at h ⊢
  rw [hconfig, hservice]
  split
  · rename_i hon
    rw [if_pos hon] at h
    exact h
  · rename_i hoff
    rw [if_neg hoff] at h
    refine ⟨?_, ?_, ?_⟩
    · rw [finalPath, hconfig]
      exact h.lineFree
    · rw [hfiles]
      exact h.kept
    · rw [hfiles, hconfig]
      exact h.absent

/-- A request whose merge fits is answered soundly. -/
theorem announces_outcome {start : Option MergeStart} {out : ChunkUploadManager × UploadOutput}
    {hash : ByteString} (hout : m.Outcome start out)
    (hstart : ∀ s, start = some s → m.TargetFits s size ∧ s.hash = hash ∧ s.chunk = chunk) :
    out.1.Announces out.2.reply hash chunk size := by
  cases start with
  | none =>
      obtain ⟨-, hreply, -⟩ := hout
      cases hr : out.2.reply with
      | error e => exact trivial
      | chunkUploaded i => exact trivial
      | fileMerged p u =>
          rw [hr] at hreply
          cases hreply
      | fileStored u t =>
          rw [hr] at hreply
          cases hreply
  | some s =>
      obtain ⟨hfits, rfl, rfl⟩ := hstart s rfl
      obtain ⟨m₁, clear, hconfig, hservice, hfiles, hchunks, rfl⟩ := hout
      exact announces_runMerge (hfits.transfer hconfig hservice hfiles) hchunks

/-- **THE STEP LEMMA.**  A request that meets its condition is answered soundly. -/
theorem step_sound {call : UploadCall} (hok : m.CompletionOk call) : m.CompletionSound call := by
  cases call with
  | chunkUpload io form =>
      intro q hq
      rw [handleChunkUpload, hq]
      refine announces_outcome (uploadChunk_outcome m io q) ?_
      intro s hs
      refine ⟨hok q hq s hs, ?_⟩
      rw [mergeOfUpload] at hs
      split at hs
      · rw [← Option.some.inj hs]
        exact ⟨rfl, rfl⟩
      · cases hs
  | chunkMerge io body =>
      intro r status hr hstatus
      refine announces_outcome (handleChunkMerge_outcome hr hstatus) ?_
      intro s hs
      refine ⟨hok r status hr hstatus s hs, ?_⟩
      rw [mergeOfStatus] at hs
      split at hs
      · rw [← Option.some.inj hs]
        exact ⟨rfl, rfl⟩
      · cases hs

/-- **COMPLETION IS SOUND.**  In a run whose requests all find the counters right, every
    reply that announces a complete file refers to the stored chunks, in order, in the
    declared size. -/
theorem completions_sound (m : ChunkUploadManager) (calls : List UploadCall)
    (hok : ∀ e ∈ events step m calls, e.before.CompletionOk e.input) :
    Always (fun e => e.before.CompletionSound e.input) step m calls :=
  fun e he => step_sound (hok e he)

/-! ## A chunk sent twice -/

/-- Two chunks of four bytes, each sent once. -/
theorem completions_sound_of_two_chunks :
    Always (fun e => e.before.CompletionSound e.input) step (new {} false)
      [sendChunk {} "8" "0" "abcd", sendChunk {} "8" "1" "efgh"] := by
  refine completions_sound (new {} false) _ ?_
  intro e he
  rcases List.mem_cons.mp he with rfl | he
  · intro q hq
    obtain rfl := Except.ok.inj hq
    intro s hs
    rw [mergeOfUpload, if_neg (by decide)] at hs
    cases hs
  · rcases List.mem_cons.mp he with rfl | he
    · intro q hq
      obtain rfl := Except.ok.inj hq
      intro s hs
      rw [mergeOfUpload, if_pos (by decide)] at hs
      obtain rfl := Option.some.inj hs
      rw [TargetFits, if_neg (by decide)]
      refine ⟨by decide, ?_, ?_⟩
      · intro hexists
        exact absurd hexists (by decide)
      · intro _
        exact ⟨fun _ => by decide, fun _ _ data _ => readsAll_none (by decide) data⟩
    · cases he

/-- Chunk 0 sent twice. -/
def resent : ChunkUploadManager × UploadOutput :=
  ((new {} false).step (sendChunk {} "8" "0" "abcd")).1.step (sendChunk {} "8" "0" "abcd")

/-- The record says eight bytes, the table one chunk, and the file that is announced as
    complete has four bytes. -/
theorem retransmission_announced_complete :
    ¬ Always (fun e => e.before.CompletionSound e.input) step (new {} false)
      [sendChunk {} "8" "0" "abcd", sendChunk {} "8" "0" "abcd"] := by
  intro h
  have hannounced := (h _ (List.mem_cons_of_mem _ (List.mem_cons_self ..))) _ rfl
  have hreply : resent.2.reply
      = .fileMerged (ascii "./uploads/files/0123456789abcdef0123456789abcdef.txt") [] := by
    decide
  have hfiles : resent.1.disk.files = (ChunkDisk.empty.setFile
      (ascii "0123456789abcdef0123456789abcdef") (ascii ".txt") (ascii "abcd")).files := rfl
  change resent.1.Announces resent.2.reply _ _ _ at hannounced
  rw [hreply] at hannounced
  obtain ⟨ext, content, -, hfile, n, -, hlength⟩ := hannounced
  rw [hfiles, ChunkDisk.setFile] at hfile
  dsimp only at hfile
  split at hfile
  · rw [← Option.some.inj hfile] at hlength
    exact absurd hlength (by decide)
  · cases hfile

end ChunkUploadManager

end VHono
