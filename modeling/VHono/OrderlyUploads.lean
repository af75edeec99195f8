import VHono.ChunkCompletion

/-! # Orderly clients

    A client that cuts a file into chunks that are not empty and sends each of
    them once, in any order, under one chunk size: every request of its finds
    the counters right, whatever the number of chunks. -/

namespace VHono

open ByteString HttpGrammar PieceAssembly MachineRuns

/-- The upload all requests belong to. -/
structure Upload where
  fileHash  : ByteString
  filename  : ByteString
  fileSize  : Nat
  chunkSize : Nat

def Upload.Has (u : Upload) (q : ChunkRequest) : Prop :=
  q.fileHash = u.fileHash ∧ q.filename = u.filename ∧ q.fileSize = u.fileSize ∧
    q.chunkSize = u.chunkSize

/-- The bytes of the chunks of a list of requests. -/
def bytesOf (qs : List ChunkRequest) : Nat := (qs.map (·.data.length)).sum

@[simp] theorem bytesOf_cons (q : ChunkRequest) (qs : List ChunkRequest) :
    bytesOf (q :: qs) = q.data.length + bytesOf qs := rfl

@[simp] theorem bytesOf_append (qs rs : List ChunkRequest) :
    bytesOf (qs ++ rs) = bytesOf qs + bytesOf rs := by
  rw [bytesOf, List.map_append, List.sum_append]
  rfl

/-- The chunk that a list of requests stores under an index. -/
def chunkOf (qs : List ChunkRequest) (i : Nat) : Option ByteString :=
  (qs.find? (·.chunkIndex = i)).map (·.data)

/-- The requests send the chunks of one file, each once. -/
structure Orderly (u : Upload) (qs : List ChunkRequest) : Prop where
  same     : ∀ q ∈ qs, u.Has q
  indices  : (qs.map (·.chunkIndex)).Perm (List.range qs.length)
  nonempty : ∀ q ∈ qs, q.data ≠ []
  size     : bytesOf qs = u.fileSize
  bounded  : u.fileSize < 2 ^ 64

/-- The call sends the request, and nothing fails. -/
def SendsChunk (config : ChunkUploadConfig) (call : UploadCall) (q : ChunkRequest) : Prop :=
  ∃ form, call = .chunkUpload {} form ∧ readChunkRequest config form = .ok q

/-! ## Requests with different indices -/

theorem chunkOf_mem {qs : List ChunkRequest} (hnodup : (qs.map (·.chunkIndex)).Nodup) :
    ∀ q ∈ qs, chunkOf qs q.chunkIndex = some q.data := by
  induction qs with
  | nil => intro q hq; cases hq
  | cons r qs ih =>
      intro q hq
      rw [List.map_cons, List.nodup_cons] at hnodup
      rw [chunkOf, List.find?_cons]
      rcases List.mem_cons.mp hq with rfl | hq
      · rw [decide_eq_true rfl]
        rfl
      · have hne : r.chunkIndex ≠ q.chunkIndex := by
          intro heq
          exact hnodup.1 (heq ▸ List.mem_map_of_mem hq)
        rw [decide_eq_false hne]
        exact ih hnodup.2 q hq

/-- The chunks of an orderly client add up to its file. -/
theorem Orderly.sum_chunks {u : Upload} {qs : List ChunkRequest} (h : Orderly u qs) :
    ((List.range qs.length).map (fun i => ((chunkOf qs i).getD []).length)).sum = u.fileSize := by
  have hnodup : (qs.map (·.chunkIndex)).Nodup := h.indices.nodup_iff.mpr List.nodup_range
  have hperm := (h.indices.map (fun i => ((chunkOf qs i).getD []).length)).sum_eq
  rw [← hperm, List.map_map, ← h.size, bytesOf]
  congr 1
  refine List.map_congr_left ?_
  intro q hq
  show ((chunkOf qs q.chunkIndex).getD []).length = q.data.length
  rw [chunkOf_mem hnodup q hq]
  rfl

namespace ChunkUploadManager

/-! ## The invariant -/

variable {config : ChunkUploadConfig} {u : Upload}

/-- The manager has received these requests of the upload, and the file is not there yet. -/
structure Received (config : ChunkUploadConfig) (u : Upload) (m : ChunkUploadManager)
    (done : List ChunkRequest) : Prop where
  config  : m.config = config
  service : m.fileService = false
  absent  : m.disk.files u.fileHash (getFileExtension u.filename) = none
  table   : m.uploadedChunks u.fileHash = done.map (·.chunkIndex)
  record  : (m.disk.sizeRecords u.fileHash u.chunkSize).getD 0 = bytesOf done
  chunks  : m.disk.chunks u.fileHash u.chunkSize = chunkOf done

theorem received_new : Received config u (new config false) [] where
  config := rfl
  service := rfl
  absent := rfl
  table := rfl
  record := rfl
  chunks := rfl

variable {m : ChunkUploadManager} {done : List ChunkRequest} {q : ChunkRequest}

/-- The chunks after one more request. -/
theorem storedChunks_append (h : Received config u m done) (hq : u.Has q)
    (hnew : q.chunkIndex ∉ done.map (·.chunkIndex)) :
    m.storedChunks q = chunkOf (done ++ [q]) := by
  funext i
  rw [storedChunks, hq.1, hq.2.2.2, h.chunks, chunkOf, chunkOf, List.find?_append]
  by_cases hi : i = q.chunkIndex
  · have hnone : done.find? (·.chunkIndex = i) = none := by
      rw [List.find?_eq_none]
      intro r hr hri
      have hidx : r.chunkIndex = q.chunkIndex := (of_decide_eq_true hri).trans hi
      exact hnew (hidx ▸ List.mem_map_of_mem hr)
    rw [if_pos hi, hnone, Option.none_or, List.find?_cons, decide_eq_true hi.symm]
    rfl
  · have hother : [q].find? (·.chunkIndex = i) = none := by
      rw [List.find?_cons, decide_eq_false (fun heq => hi heq.symm)]
      rfl
    rw [if_neg hi, hother, Option.or_none]

theorem recordAfter_append (h : Received config u m done) (hq : u.Has q)
    (hbound : bytesOf (done ++ [q]) < 2 ^ 64) :
    m.recordAfter {} q = bytesOf (done ++ [q]) := by
  have hsum : bytesOf (done ++ [q]) = bytesOf done + q.data.length := by
    rw [bytesOf_append]
    rfl
  rw [recordAfter, hq.1, hq.2.2.2]
  show (if u.fileHash = u.fileHash ∧ u.chunkSize = u.chunkSize then
    some (((m.disk.sizeRecords u.fileHash u.chunkSize).getD 0 + q.data.length) % 2 ^ 64)
    else _).getD 0 = _
  rw [if_pos ⟨rfl, rfl⟩, h.record, Option.getD_some, ← hsum, Nat.mod_eq_of_lt hbound]

theorem countAfter_append (h : Received config u m done) (hq : u.Has q)
    (hnew : q.chunkIndex ∉ done.map (·.chunkIndex)) :
    m.countAfter q = (done ++ [q]).length := by
  rw [countAfter, hq.1, h.table, if_neg hnew, List.length_map, List.length_append]
  rfl

/-- **THE STEP LEMMA.**  A chunk that does not complete the file is received. -/
theorem received_step (h : Received config u m done) (hq : u.Has q)
    (hnew : q.chunkIndex ∉ done.map (·.chunkIndex))
    (hmore : bytesOf (done ++ [q]) < u.fileSize) (hbound : u.fileSize < 2 ^ 64) :
    Received config u (m.uploadChunk {} q).1 (done ++ [q]) := by
  have hrecord := recordAfter_append h hq (Nat.lt_trans hmore hbound)
  have hreceive : (m.uploadChunk {} q).1 = m.receiveChunk {} q := by
    have hshort : ¬ getChunkSizeRecord (m.receiveChunk {} q).disk ({} : UploadIo).record
        q.fileHash q.chunkSize ≥ q.fileSize := by
      rw [recordAfter_eq, hrecord, hq.2.2.1]
      exact Nat.not_le_of_lt hmore
    rw [uploadChunk, if_neg (by decide), if_neg (by decide)]
    dsimp only
    rw [if_neg hshort]
  obtain ⟨hconfig, hservice, hfiles, hchunks, hrecords⟩ := receiveChunk_spec m {} q
  rw [hreceive]
  refine ⟨hconfig.trans h.config, hservice.trans h.service, ?_, ?_, ?_, ?_⟩
  · rw [hfiles]
    exact h.absent
  · rw [← hq.1, uploadedChunks_receive, hq.1, h.table, if_neg hnew, List.map_append]
    rfl
  · rw [hrecords, ← hq.1, ← hq.2.2.2]
    exact hrecord
  · rw [← hq.1, ← hq.2.2.2, storedChunks_eq, storedChunks_append h hq hnew]

/-- The chunk that completes the file finds the counters right. -/
theorem targetFits_last (h : Received config u m done) (hq : u.Has q)
    (hnew : q.chunkIndex ∉ done.map (·.chunkIndex)) (hall : Orderly u (done ++ [q]))
    (hbuffer : 0 < config.mergeBufferSize)
    (hline : (10 : UInt8) ∉ m.finalPath u.fileHash (getFileExtension u.filename) ∧
      (13 : UInt8) ∉ m.finalPath u.fileHash (getFileExtension u.filename)) :
    m.TargetFits ⟨{}, q.fileHash, getFileExtension q.filename, q.chunkSize, m.countAfter q,
      m.storedChunks q, true⟩ q.fileSize := by
  have hlocal : ¬ m.usesFileService = true := by
    rw [usesFileService, h.service, Bool.false_and]
    exact Bool.false_ne_true
  rw [TargetFits, if_neg hlocal]
  dsimp only
  rw [hq.1, hq.2.1, hq.2.2.1, storedChunks_append h hq hnew, countAfter_append h hq hnew]
  refine ⟨hline, ?_, ?_⟩
  · intro hexists
    rw [h.absent] at hexists
    cases hexists
  · intro _
    refine ⟨fun _ => hall.sum_chunks, ?_⟩
    intro i _ data _
    rw [h.config]
    exact readsAll_none hbuffer data

/-- Every request of an orderly client meets its condition. -/
theorem eventsFrom_orderly (hbuffer : 0 < config.mergeBufferSize)
    (hline : ∀ b : UInt8, b = 10 ∨ b = 13 →
      b ∉ config.uploadDir ++ byte '/' :: (u.fileHash ++ getFileExtension u.filename))
    {calls : List UploadCall} {qs : List ChunkRequest}
    (hcalls : List.Forall₂ (SendsChunk config) calls qs) :
    ∀ (done : List ChunkRequest) (m : ChunkUploadManager) (past : List UploadCall),
      Orderly u (done ++ qs) → Received config u m done →
      ∀ e ∈ eventsFrom step past m calls, e.before.CompletionOk e.input := by
  induction hcalls with
  | nil => intro done m past _ _ e he; cases he
  | @cons call q calls qs hcall hcalls ih =>
      intro done m past hall h e he
      obtain ⟨form, rfl, hread⟩ := hcall
      have hq : u.Has q := hall.same q (by simp)
      have hnew : q.chunkIndex ∉ done.map (·.chunkIndex) := by
        have hnodup := hall.indices.nodup_iff.mpr List.nodup_range
        rw [List.map_append, List.map_cons, List.nodup_append] at hnodup
        intro hmem
        exact hnodup.2.2 _ hmem _ (List.mem_cons_self ..) rfl
      have hsum : bytesOf (done ++ [q]) + bytesOf qs = u.fileSize := by
        rw [← hall.size, bytesOf_append, bytesOf_append, bytesOf_cons, bytesOf_cons]
        simp only [bytesOf, List.map_nil, List.sum_nil]
        omega
      have hpath : ∀ b : UInt8, b = 10 ∨ b = 13 →
          b ∉ m.finalPath u.fileHash (getFileExtension u.filename) := by
        rw [finalPath, h.config]
        exact hline
      rcases List.mem_cons.mp he with rfl | he
      · intro q' hq'
        dsimp only at hq' ⊢
        rw [h.config, hread] at hq'
        obtain rfl := Except.ok.inj hq'
        intro s hs
        rw [mergeOfUpload] at hs
        split at hs
        rotate_left
        · cases hs
        rename_i hmerges
        obtain rfl := Option.some.inj hs
        have hrecord := hmerges.2.2
        rw [recordAfter_append h hq (by have := hall.bounded; omega), hq.2.2.1] at hrecord
        -- nothing is left to send: the chunks that would be left are not empty
        have hlast : qs = [] := by
          cases qs with
          | nil => rfl
          | cons r qs =>
              have hr : r.data ≠ [] := hall.nonempty r (by simp)
              have hpos := List.length_pos_iff.mpr hr
              rw [bytesOf_cons] at hsum
              omega
        rw [hlast] at hall
        exact targetFits_last h hq hnew hall hbuffer ⟨hpath 10 (Or.inl rfl), hpath 13 (Or.inr rfl)⟩
      · cases qs with
        | nil =>
            cases hcalls
            cases he
        | cons r qs =>
            have hr : r.data ≠ [] := hall.nonempty r (by simp)
            have hmore : bytesOf (done ++ [q]) < u.fileSize := by
              have hpos := List.length_pos_iff.mpr hr
              rw [bytesOf_cons] at hsum
              omega
            have hnext : (m.step (.chunkUpload {} form)).1 = (m.uploadChunk {} q).1 := by
              show (m.handleChunkUpload {} form).1 = _
              rw [handleChunkUpload, h.config, hread]
            rw [hnext] at he
            have hall' : Orderly u ((done ++ [q]) ++ r :: qs) := by
              rw [List.append_assoc]
              exact hall
            exact ih (done ++ [q]) _ _ hall' (received_step h hq hnew hmore hall.bounded) e he

/-- **ORDERLY CLIENTS ARE SERVED SOUNDLY.** -/
theorem orderly_completions_sound (hbuffer : 0 < config.mergeBufferSize)
    (hline : ∀ b : UInt8, b = 10 ∨ b = 13 →
      b ∉ config.uploadDir ++ byte '/' :: (u.fileHash ++ getFileExtension u.filename))
    {calls : List UploadCall} {qs : List ChunkRequest}
    (hcalls : List.Forall₂ (SendsChunk config) calls qs) (hall : Orderly u qs) :
    Always (fun e => e.before.CompletionSound e.input) step (new config false) calls :=
  fun e he => step_sound (eventsFrom_orderly hbuffer hline hcalls [] _ [] hall received_new e he)

end ChunkUploadManager

end VHono
