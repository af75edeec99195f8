import VHono.ChunkUploads

/-! # Failed merges

    The merge writes straight to the final path, and what stands under that
    path is taken for the complete file from then on.  A merge that fails
    leaves nothing behind as long as it fails before it has created the file. -/

namespace VHono

open ByteString HttpGrammar PieceAssembly MachineRuns

/-! ## When the loop cannot fail -/

/-- Every chunk of the merge is there, is opened, and is written to its end. -/
def LoopRuns (io : MergeIo) (buffer : Nat) (chunk : Nat → Option ByteString) (total : Nat) :
    Prop :=
  ∀ i < total, ∃ data, chunk i = some data ∧ io.opens i = true ∧
    WritesAll (io.copy i) buffer data

theorem mergeLoop_runs {io : MergeIo} {buffer : Nat} {chunk : Nat → Option ByteString} :
    ∀ {is : List Nat}, (∀ i ∈ is, ∃ data, chunk i = some data ∧ io.opens i = true ∧
        WritesAll (io.copy i) buffer data) →
      ∀ out, (mergeLoop io buffer chunk is out).2 = none := by
  intro is
  induction is with
  | nil => intro _ out; rfl
  | cons i is ih =>
      intro h out
      obtain ⟨data, hchunk, hopen, hwrite⟩ := h i (List.mem_cons_self ..)
      rw [mergeLoop, hchunk]
      dsimp only
      rw [if_neg (by simp [hopen]), if_pos (copyPiece_ok hwrite out)]
      exact ih (fun j hj => h j (List.mem_cons_of_mem _ hj)) _

/-- The merge gets as far as the creation of the final file. -/
def Creates (d : ChunkDisk) (io : MergeIo) (hash ext : ByteString) : Prop :=
  io.mkdir = true ∧ io.writable = true ∧ d.files hash ext = none ∧ io.create = true

/-- The merge fails before that. -/
def FailsEarly (d : ChunkDisk) (io : MergeIo) (hash ext : ByteString) : Prop :=
  io.mkdir = false ∨ io.writable = false ∨ (d.files hash ext = none ∧ io.create = false)

/-- **HOW A MERGE FAILS.**  Either nothing was created, or the loop did not run through. -/
theorem mergeChunks_failed {config : ChunkUploadConfig} {d : ChunkDisk} {io : MergeIo}
    {hash ext : ByteString} {total chunkSize : Nat} {created : Bool} {error : MergeError}
    (h : (mergeChunks config d io hash total ext chunkSize).2 = .failed created error) :
    (created = false ∧ FailsEarly d io hash ext) ∨
      (created = true ∧ Creates d io hash ext ∧
        ¬ LoopRuns io config.mergeBufferSize (d.chunks hash chunkSize) total) := by
  rw [mergeChunks] at h
  split at h
  · rename_i hmkdir
    obtain ⟨rfl, -⟩ := MergeResult.failed.inj h
    exact Or.inl ⟨rfl, Or.inl hmkdir⟩
  · rename_i hmkdir
    split at h
    · rename_i hwritable
      obtain ⟨rfl, -⟩ := MergeResult.failed.inj h
      exact Or.inl ⟨rfl, Or.inr (Or.inl hwritable)⟩
    · rename_i hwritable
      split at h
      · cases h
      · rename_i hexists
        have habsent : d.files hash ext = none := by
          rw [Bool.not_eq_true, Option.isSome_eq_false_iff] at hexists
          exact Option.isNone_iff_eq_none.mp hexists
        split at h
        · rename_i hcreate
          obtain ⟨rfl, -⟩ := MergeResult.failed.inj h
          exact Or.inl ⟨rfl, Or.inr (Or.inr ⟨habsent, hcreate⟩)⟩
        · rename_i hcreate
          dsimp only at h
          refine Or.inr ⟨?_, ⟨by simpa using hmkdir, by simpa using hwritable, habsent,
            by simpa using hcreate⟩, ?_⟩
          · split at h
            · cases h
            · exact (MergeResult.failed.inj h).1.symm
          -- the file is there, so the error came from the loop
          · intro hruns
            have hloop := mergeLoop_runs (fun i hi => hruns i (List.mem_range.mp hi)) []
            rw [hloop] at h
            cases h

namespace ChunkUploadManager

/-! ## What the property says -/

abbrev UploadEvent := Event ChunkUploadManager UploadCall UploadOutput

/-- The state a request leaves. -/
def after (e : UploadEvent) : ChunkUploadManager := (e.before.step e.input).1

/-- A request for the hash. -/
def RequestFor (m : ChunkUploadManager) (call : UploadCall) (hash : ByteString) : Prop :=
  match call with
  | .chunkUpload _ form => ∃ q, readChunkRequest m.config form = .ok q ∧ q.fileHash = hash
  | .chunkMerge _ body => ∃ r, readMergeRequest body = .ok r ∧ r.fileHash = hash

/-- The request for the hash is answered with success. -/
def Succeeds (hash : ByteString) (e : UploadEvent) : Prop :=
  RequestFor e.before e.input hash ∧ reportsComplete e.output.reply = true

/-- The request makes a merge for the hash, and that fails. -/
def Fails (hash : ByteString) (e : UploadEvent) : Prop :=
  ∃ run created error, e.output.merge = some run ∧ run.hash = hash ∧
    run.result = .failed created error

/-- The request makes a merge for the hash, and that copies every chunk. -/
def CopiesAll (hash : ByteString) (e : UploadEvent) : Prop :=
  ∃ run content, e.output.merge = some run ∧ run.hash = hash ∧ run.result = .merged content ∧
    assemble run.chunk (List.range run.total) = some content

/-- After a failed merge no file stands under the final path, trimmed or not, and the chunks
    are as they were when it began. -/
def LeavesNothing (e : UploadEvent) : Prop :=
  ∀ run created error, e.output.merge = some run → run.result = .failed created error →
    (e.before.usesFileService = false →
      (after e).disk.files run.hash run.ext = none ∧
      (after e).disk.files run.hash (trimRight run.ext) = none) ∧
    (after e).disk.chunks run.hash run.chunkSize = run.chunk

/-- What a merge into a file may meet: the loop runs through if it is reached; where something
    fails before, no file of the hash is there; and reads do not fail. -/
structure SafeMerge (m : ChunkUploadManager) (s : MergeStart) : Prop where
  readable : AllReadable s.io.merge m.config.mergeBufferSize s.chunk s.total
  loop     : m.usesFileService = false → Creates m.disk s.io.merge s.hash s.ext →
    LoopRuns s.io.merge m.config.mergeBufferSize s.chunk s.total
  early    : m.usesFileService = false → FailsEarly m.disk s.io.merge s.hash s.ext →
    (s.looksFirst = true ∧ (m.disk.files s.hash s.ext).isSome = true) ∨
      ∀ ext, m.disk.files s.hash ext = none

/-- The merge that a request starts is safe. -/
def SafeCall (m : ChunkUploadManager) (call : UploadCall) : Prop :=
  ∀ s, m.mergeOf call = some s → m.SafeMerge s

/-! ## What a merge leaves -/

/-- The effect of a merge by its result. -/
def Effect (m : ChunkUploadManager) (s : MergeStart) (result : MergeResult)
    (out : ChunkUploadManager × UploadOutput) : Prop :=
  match result with
  | .failed created _ => out.1.disk.chunks s.hash s.chunkSize = s.chunk ∧
      reportsComplete out.2.reply = false ∧ created = false ∧ out.1.disk.files = m.disk.files ∧
      (m.usesFileService = false → ∀ ext, m.disk.files s.hash ext = none)
  | .kept => m.usesFileService = false ∧ (m.disk.files s.hash s.ext).isSome = true ∧
      out.1.disk.files = m.disk.files
  | .merged content => assemble s.chunk (List.range s.total) = some content ∧
      ∀ hash, hash ≠ s.hash → out.1.disk.files hash = m.disk.files hash

/-- The effect only looks at the files of the state before. -/
theorem Effect.transfer {m m₁ : ChunkUploadManager} {s : MergeStart} {result : MergeResult}
    {out : ChunkUploadManager × UploadOutput} (h : m₁.Effect s result out)
    (huses : m₁.usesFileService = m.usesFileService) (hfiles : m₁.disk.files = m.disk.files) :
    m.Effect s result out := by
  cases result with
  | failed created error =>
      rw [Effect, hfiles, huses] at h
      exact h
  | kept =>
      rw [Effect, hfiles, huses] at h
      exact h
  | merged content =>
      rw [Effect, hfiles] at h
      exact h

theorem conclude_spec (m : ChunkUploadManager) (io : UploadIo) (run : MergeRun) (clear : Bool)
    (disk : ChunkDisk) :
    (m.conclude io run clear disk).2.merge = some run ∧
    (m.conclude io run clear disk).1.config = m.config ∧
    (m.conclude io run clear disk).1.fileService = m.fileService ∧
    (m.conclude io run clear disk).1.disk.files = disk.files ∧
    ((∃ created error, run.result = .failed created error) →
      (m.conclude io run clear disk).1.disk.chunks = disk.chunks ∧
      reportsComplete (m.conclude io run clear disk).2.reply = false) := by
  obtain ⟨hconfig, hservice, hfiles, -⟩ :=
    finish_spec { m with disk := disk } io run.hash run.chunkSize clear
  rw [conclude]
  cases hresult : run.result with
  | failed created error => exact ⟨rfl, rfl, rfl, rfl, fun _ => ⟨rfl, rfl⟩⟩
  | kept => exact ⟨rfl, hconfig, hservice, hfiles, fun ⟨_, _, h⟩ => (by cases h)⟩
  | merged content => exact ⟨rfl, hconfig, hservice, hfiles, fun ⟨_, _, h⟩ => (by cases h)⟩

theorem concludeService_spec (m : ChunkUploadManager) (io : UploadIo) (run : MergeRun)
    (clear : Bool) (disk : ChunkDisk) (answer : Option (ByteString × ByteString)) :
    (m.concludeService io run clear disk answer).2.merge = some run ∧
    (m.concludeService io run clear disk answer).1.config = m.config ∧
    (m.concludeService io run clear disk answer).1.fileService = m.fileService ∧
    (m.concludeService io run clear disk answer).1.disk.files = disk.files ∧
    (answer = none → (m.concludeService io run clear disk answer).1.disk.chunks = disk.chunks ∧
      reportsComplete (m.concludeService io run clear disk answer).2.reply = false) := by
  obtain ⟨hconfig, hservice, hfiles, -⟩ :=
    finish_spec { m with disk := disk } io run.hash run.chunkSize clear
  cases answer with
  | none => exact ⟨rfl, rfl, rfl, rfl, fun _ => ⟨rfl, rfl⟩⟩
  | some answer => exact ⟨rfl, hconfig, hservice, hfiles, fun h => (by cases h)⟩

variable {m : ChunkUploadManager} {s : MergeStart}

/-- A safe merge into the file service. -/
theorem effect_service (hsafe : m.SafeMerge s)
    (hchunk : m.disk.chunks s.hash s.chunkSize = s.chunk) (hservice : m.usesFileService = true)
    {out : ChunkUploadManager × UploadOutput} :
    let stored := mergeAndStoreToFileService m.config m.disk s.io.merge s.io.service s.hash
      s.total s.chunkSize
    out.1.disk.files = stored.1.files →
    (stored.2.2 = none → out.1.disk.chunks = stored.1.chunks ∧
      reportsComplete out.2.reply = false) →
    m.Effect s stored.2.1 out := by
  have hspec :=
    mergeAndStore_spec m.config m.disk s.io.merge s.io.service s.hash s.total s.chunkSize
  generalize mergeAndStoreToFileService m.config m.disk s.io.merge s.io.service s.hash s.total
    s.chunkSize = stored at hspec ⊢
  obtain ⟨disk, result, answer⟩ := stored
  intro _ hfiles hnone
  dsimp only at hspec hfiles hnone ⊢
  rw [hchunk] at hspec
  cases result with
  | kept => exact hspec.elim
  | merged content =>
      cases answer with
      | none => exact hspec.elim
      | some answer =>
          obtain ⟨rfl, hjoined⟩ := hspec
          exact ⟨hjoined hsafe.readable, fun hash _ => congrFun hfiles hash⟩
  | failed created error =>
      cases created with
      | true => exact hspec.elim
      | false =>
          cases answer with
          | some answer => exact hspec.elim
          -- nothing was stored: neither an object nor, on this path, a file
          | none =>
              obtain rfl : disk = m.disk := hspec
              obtain ⟨hchunks, hreply⟩ := hnone rfl
              refine ⟨?_, hreply, rfl, hfiles, ?_⟩
              · rw [hchunks, hchunk]
              · intro hlocal
                rw [hservice] at hlocal
                cases hlocal

/-- A safe merge into the final file, or one skipped because the file is there. -/
theorem effect_file (hsafe : m.SafeMerge s)
    (hchunk : m.disk.chunks s.hash s.chunkSize = s.chunk) (hlocal : m.usesFileService = false)
    {out : ChunkUploadManager × UploadOutput} :
    let merged : ChunkDisk × MergeResult :=
      if s.looksFirst = true ∧ (m.disk.files s.hash s.ext).isSome = true then (m.disk, .kept)
      else mergeChunks m.config m.disk s.io.merge s.hash s.total s.ext s.chunkSize
    out.1.disk.files = merged.1.files →
    ((∃ created error, merged.2 = .failed created error) →
      out.1.disk.chunks = merged.1.chunks ∧ reportsComplete out.2.reply = false) →
    m.Effect s merged.2 out := by
  by_cases hlooks : s.looksFirst = true ∧ (m.disk.files s.hash s.ext).isSome = true
  · rw [if_pos hlooks]
    intro _ hfiles _
    exact ⟨hlocal, hlooks.2, hfiles⟩
  · rw [if_neg hlooks]
    obtain ⟨hchunks, hspec⟩ :=
      mergeChunks_spec m.config m.disk s.io.merge s.hash s.total s.ext s.chunkSize
    intro _ hfiles hfailed
    cases hresult : (mergeChunks m.config m.disk s.io.merge s.hash s.total s.ext s.chunkSize).2 with
    | kept =>
        rw [hresult] at hspec
        refine ⟨hlocal, hspec.2, ?_⟩
        rw [hfiles, hspec.1]
    | merged content =>
        rw [hresult] at hspec
        obtain ⟨hdisk, -, hjoined⟩ := hspec
        rw [hchunk] at hjoined
        refine ⟨hjoined hsafe.readable, ?_⟩
        intro hash hne
        rw [hfiles, hdisk, ChunkDisk.setFile_other m.disk hne]
    | failed created error =>
        obtain ⟨hout, hreply⟩ := hfailed ⟨created, error, hresult⟩
        rcases mergeChunks_failed hresult with ⟨rfl, hearly⟩ | ⟨-, hcreates, hstops⟩
        -- a failure before the creation leaves the disk as it was
        · rw [hresult] at hspec
          have hdisk : (mergeChunks m.config m.disk s.io.merge s.hash s.total s.ext
              s.chunkSize).1 = m.disk := hspec
          refine ⟨?_, hreply, rfl, ?_, ?_⟩
          · rw [hout, hchunks, hchunk]
          · rw [hfiles, hdisk]
          · intro _
            exact (hsafe.early hlocal hearly).resolve_left hlooks
        -- a failure after the creation is excluded
        · rw [hchunk] at hstops
          exact absurd (hsafe.loop hlocal hcreates) hstops

/-- **WHAT A SAFE MERGE LEAVES.** -/
theorem runMerge_effect (clear : Bool) (hsafe : m.SafeMerge s)
    (hchunk : m.disk.chunks s.hash s.chunkSize = s.chunk) :
    ∃ result, (m.runMerge s.io s.hash s.ext s.chunkSize s.total s.looksFirst clear).2.merge
        = some ⟨s.hash, s.ext, s.chunkSize, s.total, s.chunk, result⟩ ∧
      (m.runMerge s.io s.hash s.ext s.chunkSize s.total s.looksFirst clear).1.config = m.config ∧
      (m.runMerge s.io s.hash s.ext s.chunkSize s.total s.looksFirst clear).1.fileService
        = m.fileService ∧
      m.Effect s result (m.runMerge s.io s.hash s.ext s.chunkSize s.total s.looksFirst clear) := by
  rw [runMerge, hchunk]
  split
  · rename_i hservice
    obtain ⟨hmerge, hconfig, hflag, hfiles, hnone⟩ := concludeService_spec m s.io
      (MergeRun.mk s.hash s.ext s.chunkSize s.total s.chunk
        (mergeAndStoreToFileService m.config m.disk s.io.merge s.io.service s.hash s.total
          s.chunkSize).2.1) clear
      (mergeAndStoreToFileService m.config m.disk s.io.merge s.io.service s.hash s.total
        s.chunkSize).1
      (mergeAndStoreToFileService m.config m.disk s.io.merge s.io.service s.hash s.total
        s.chunkSize).2.2
    exact ⟨_, hmerge, hconfig, hflag, effect_service hsafe hchunk hservice hfiles hnone⟩
  · rename_i hservice
    have hlocal : m.usesFileService = false := (Bool.not_eq_true _).mp hservice
    obtain ⟨hmerge, hconfig, hflag, hfiles, hfailed⟩ := conclude_spec m s.io
      (MergeRun.mk s.hash s.ext s.chunkSize s.total s.chunk
        (if s.looksFirst = true ∧ (m.disk.files s.hash s.ext).isSome = true then
          (m.disk, MergeResult.kept)
        else mergeChunks m.config m.disk s.io.merge s.hash s.total s.ext s.chunkSize).2) clear
      (if s.looksFirst = true ∧ (m.disk.files s.hash s.ext).isSome = true then
          (m.disk, MergeResult.kept)
        else mergeChunks m.config m.disk s.io.merge s.hash s.total s.ext s.chunkSize).1
    exact ⟨_, hmerge, hconfig, hflag, effect_file hsafe hchunk hlocal hfiles hfailed⟩

/-! ## What a request leaves -/

/-- The request is for the hash of the merge that it starts. -/
theorem requestFor_merge {call : UploadCall} {hash : ByteString} (hs : m.mergeOf call = some s)
    (hrequest : m.RequestFor call hash) : s.hash = hash := by
  cases call with
  | chunkUpload io form =>
      obtain ⟨q, hq, rfl⟩ := hrequest
      rw [mergeOf, hq] at hs
      dsimp only at hs
      rw [mergeOfUpload] at hs
      split at hs
      · rw [← Option.some.inj hs]
      · cases hs
  | chunkMerge io body =>
      obtain ⟨r, hr, rfl⟩ := hrequest
      rw [mergeOf, hr] at hs
      dsimp only at hs
      split at hs
      · cases hs
      · rw [mergeOfStatus] at hs
        split at hs
        · rw [← Option.some.inj hs]
        · cases hs

/-- What a safe request leaves, by the merge that it starts. -/
def StepEffect (m : ChunkUploadManager) (start : Option MergeStart)
    (out : ChunkUploadManager × UploadOutput) : Prop :=
  match start with
  | none => out.2.merge = none ∧ reportsComplete out.2.reply = false ∧
      out.1.disk.files = m.disk.files
  | some s => ∃ result, out.2.merge = some ⟨s.hash, s.ext, s.chunkSize, s.total, s.chunk, result⟩ ∧
      m.Effect s result out

/-- **WHAT A SAFE REQUEST LEAVES.** -/
theorem step_effect {call : UploadCall} (hsafe : m.SafeCall call) :
    (m.step call).1.usesFileService = m.usesFileService ∧
      m.StepEffect (m.mergeOf call) (m.step call) := by
  have hout := step_outcome m call
  cases hstart : m.mergeOf call with
  | none =>
      rw [hstart] at hout
      obtain ⟨hmerge, hreply, hconfig, hservice, hfiles⟩ := hout
      refine ⟨?_, hmerge, hreply, hfiles⟩
      rw [usesFileService, hconfig, hservice, ← usesFileService]
  | some s =>
      rw [hstart] at hout
      obtain ⟨m₁, clear, hconfig, hservice, hfiles, hchunks, hrun⟩ := hout
      have huses : m₁.usesFileService = m.usesFileService := by
        rw [usesFileService, hconfig, hservice, ← usesFileService]
      -- the chunk is stored before the merge, and the merge finds the same files
      have hsafe₁ : m₁.SafeMerge s := by
        obtain ⟨hread, hloop, hearly⟩ := hsafe s hstart
        refine ⟨?_, ?_, ?_⟩
        · rw [hconfig]
          exact hread
        · rw [huses, hconfig, Creates, hfiles]
          exact hloop
        · rw [huses, FailsEarly, hfiles]
          exact hearly
      obtain ⟨result, hmerge, hconfig', hservice', heffect⟩ :=
        runMerge_effect clear hsafe₁ hchunks
      rw [← hrun] at hmerge hconfig' hservice' heffect
      refine ⟨?_, result, hmerge, ?_⟩
      · rw [usesFileService, hconfig', hservice', ← usesFileService, huses]
      · exact heffect.transfer huses hfiles

/-- A safe request whose merge fails leaves nothing of it. -/
theorem leavesNothing_of_safe {e : UploadEvent} (hout : e.output = (e.before.step e.input).2)
    (hsafe : e.before.SafeCall e.input) : LeavesNothing e := by
  intro run created error hrun hfailed
  obtain ⟨-, heffect⟩ := step_effect hsafe
  cases hstart : e.before.mergeOf e.input with
  | none =>
      rw [hstart] at heffect
      rw [hout, heffect.1] at hrun
      cases hrun
  | some s =>
      rw [hstart] at heffect
      obtain ⟨result, hmerge, heffect⟩ := heffect
      rw [hout, hmerge] at hrun
      obtain rfl := Option.some.inj hrun
      obtain rfl : result = .failed created error := hfailed
      obtain ⟨hchunks, -, -, hfiles, habsent⟩ := heffect
      refine ⟨fun hlocal => ⟨?_, ?_⟩, hchunks⟩
      · rw [after, hfiles]
        exact habsent hlocal s.ext
      · rw [after, hfiles]
        exact habsent hlocal (trimRight s.ext)

/-- No file of the hash can be taken for a complete one. -/
def NoFile (hash : ByteString) (m : ChunkUploadManager) : Prop :=
  m.usesFileService = true ∨ ∀ ext, m.disk.files hash ext = none

theorem noFile_of_fails {e : UploadEvent} {hash : ByteString}
    (hout : e.output = (e.before.step e.input).2) (hsafe : e.before.SafeCall e.input)
    (hfails : Fails hash e) : NoFile hash (e.before.step e.input).1 := by
  obtain ⟨run, created, error, hrun, rfl, hfailed⟩ := hfails
  obtain ⟨huses, heffect⟩ := step_effect hsafe
  cases hstart : e.before.mergeOf e.input with
  | none =>
      rw [hstart] at heffect
      rw [hout, heffect.1] at hrun
      cases hrun
  | some s =>
      rw [hstart] at heffect
      obtain ⟨result, hmerge, heffect⟩ := heffect
      rw [hout, hmerge] at hrun
      obtain rfl := Option.some.inj hrun
      obtain rfl : result = .failed created error := hfailed
      obtain ⟨-, -, -, hfiles, habsent⟩ := heffect
      rw [NoFile, huses, hfiles]
      cases hlocal : e.before.usesFileService with
      | true => exact Or.inl rfl
      | false => exact Or.inr (habsent hlocal)

/-- **THE STEP LEMMA.**  While no file of the hash is there, a safe request for it succeeds
    only by copying every chunk. -/
theorem noFile_step {past : List UploadCall} {call : UploadCall} {hash : ByteString}
    (hinv : NoFile hash m) (hsafe : m.SafeCall call) :
    CopiesAll hash ⟨past, m, call, (m.step call).2⟩ ∨
      (NoFile hash (m.step call).1 ∧ ¬ Succeeds hash ⟨past, m, call, (m.step call).2⟩) := by
  obtain ⟨huses, heffect⟩ := step_effect hsafe
  have hkeeps : (m.step call).1.disk.files hash = m.disk.files hash →
      NoFile hash (m.step call).1 := by
    intro hfiles
    rw [NoFile, huses, hfiles]
    exact hinv
  cases hstart : m.mergeOf call with
  | none =>
      rw [hstart] at heffect
      obtain ⟨-, hreply, hfiles⟩ := heffect
      refine Or.inr ⟨hkeeps (congrFun hfiles hash), ?_⟩
      rintro ⟨-, hsuccess⟩
      rw [hreply] at hsuccess
      cases hsuccess
  | some s =>
      rw [hstart] at heffect
      obtain ⟨result, hmerge, heffect⟩ := heffect
      cases result with
      | failed created error =>
          obtain ⟨-, hreply, -, hfiles, -⟩ := heffect
          refine Or.inr ⟨hkeeps (congrFun hfiles hash), ?_⟩
          rintro ⟨-, hsuccess⟩
          rw [hreply] at hsuccess
          cases hsuccess
      -- a merge is skipped for a file that is there, which is of another hash
      | kept =>
          obtain ⟨hlocal, hexists, hfiles⟩ := heffect
          refine Or.inr ⟨hkeeps (congrFun hfiles hash), ?_⟩
          rintro ⟨hrequest, -⟩
          obtain rfl := requestFor_merge hstart hrequest
          rcases hinv with hservice | habsent
          · rw [hlocal] at hservice
            cases hservice
          · rw [habsent] at hexists
            cases hexists
      | merged content =>
          obtain ⟨hjoined, hothers⟩ := heffect
          -- a merge that ends well releases the claim on its own hash only
          by_cases hhash : s.hash = hash
          · exact Or.inl ⟨_, content, hmerge, hhash, rfl, hjoined⟩
          · refine Or.inr ⟨hkeeps (hothers hash (Ne.symm hhash)), ?_⟩
            rintro ⟨hrequest, -⟩
            exact hhash (requestFor_merge hstart hrequest)

/-- The property of a run: a failed merge leaves nothing, and no request for its hash succeeds
    before some merge has copied every chunk. -/
def FailsAtomically (run : List UploadEvent) : Prop :=
  (∀ e ∈ run, LeavesNothing e) ∧
  ∀ hash A f B s C, run = A ++ f :: (B ++ s :: C) → Fails hash f → Succeeds hash s →
    ∃ e ∈ B ++ [s], CopiesAll hash e

/-- **FAILED MERGES ARE ATOMIC.**  In a run whose merges are all safe, from any state. -/
theorem failed_merges_atomic (m : ChunkUploadManager) (calls : List UploadCall)
    (hok : ∀ e ∈ events step m calls, e.before.SafeCall e.input) :
    FailsAtomically (events step m calls) := by
  refine ⟨fun e he => leavesNothing_of_safe (eventsFrom_output he) (hok e he), ?_⟩
  intro hash A f B s C hrun hfails hsucceeds
  have hf : f ∈ events step m calls := by
    rw [hrun]
    exact List.mem_append_right _ (List.mem_cons_self ..)
  obtain ⟨past, rest, hrest⟩ := eventsFrom_after hrun
  have hinv : NoFile hash (f.before.step f.input).1 :=
    noFile_of_fails (eventsFrom_output hf) (hok f hf) hfails
  refine eventsFrom_until (fun e => e.before.SafeCall e.input) (Succeeds hash) (CopiesAll hash)
    (fun past s i hs hsafe => noFile_step hs hsafe) hinv ?_ hrest.symm hsucceeds
  intro e he
  refine hok e ?_
  rw [hrun, hrest]
  exact List.mem_append_right _ (List.mem_cons_of_mem _ he)

/-- The final file cannot be created at first, and can be when the chunk is sent again. -/
theorem failed_merges_atomic_of_create :
    FailsAtomically (events step (new {} false)
      [sendChunk { merge := { create := false } } "4" "0" "abcd", sendChunk {} "4" "0" "abcd"]) := by
  refine failed_merges_atomic (new {} false) _ ?_
  intro e he
  rcases List.mem_cons.mp he with rfl | he
  · intro s hs
    change mergeOfUpload _ _ _ = _ at hs
    rw [mergeOfUpload, if_pos (by decide)] at hs
    obtain rfl := Option.some.inj hs
    refine ⟨fun _ _ data _ => readsAll_none (by decide) data, ?_, ?_⟩
    · rintro - ⟨-, -, -, hcreate⟩
      cases hcreate
    · intro _ _
      exact Or.inr (fun _ => rfl)
  · rcases List.mem_cons.mp he with rfl | he
    · intro s hs
      change mergeOfUpload _ _ _ = _ at hs
      rw [mergeOfUpload, if_pos (by decide)] at hs
      obtain rfl := Option.some.inj hs
      refine ⟨fun _ _ data _ => readsAll_none (by decide) data, ?_, ?_⟩
      · intro _ _ i hi
        obtain rfl : i = 0 := Nat.lt_one_iff.mp hi
        exact ⟨ascii "abcd", rfl, rfl, fun _ _ => rfl⟩
      · intro _ _
        exact Or.inr (fun _ => rfl)
    · cases he

/-- The second chunk of a file of one chunk is sent first: the merge misses chunk 0 and leaves
    an empty file, which is announced as complete when chunk 0 arrives. -/
theorem failed_merge_leaves_file :
    ¬ FailsAtomically (events step (new {} false)
      [sendChunk {} "4" "1" "abcd", sendChunk {} "4" "0" "abcd"]) := by
  rintro ⟨-, hlater⟩
  obtain ⟨e, he, run, content, hrun, -, hresult, -⟩ := hlater
    (ascii "0123456789abcdef0123456789abcdef") [] _ [] _ [] rfl
    ⟨_, true, .chunkNotFound 0, rfl, rfl, by decide⟩ ⟨⟨_, rfl, rfl⟩, by decide⟩
  rcases List.mem_cons.mp he with rfl | he
  · rw [← Option.some.inj hrun] at hresult
    cases hresult
  · cases he

end ChunkUploadManager

end VHono
