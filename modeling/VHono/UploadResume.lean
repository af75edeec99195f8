import VHono.UploadProgress

/-! # Resuming a multipart upload

    A client that comes back asks which parts are missing and sends those.  A
    round of this may fail at any part, so there may be many rounds.  What the
    rounds rest on is that a part is only sent while it is not recorded: then a
    torn write hits no part that is accepted, and no condition on the faults is
    left. -/

namespace VHono

open ByteString PieceAssembly PathSegments MachineRuns

/-- What a round meets: the errors of its two queries, the data of each part or why there is
    none, and the faults of each attempt to send a part. -/
structure ResumeRound where
  io           : ChunkManager.QueryIo := {}
  dataProvider : Int → Except ByteString ByteString
  ios          : Int → Nat → ChunkManager.PartIo := fun _ _ => {}

structure ResumeInfo where
  uploadId       : ByteString
  fileUuid       : ByteString := []
  fileName       : ByteString := []
  fileSize       : Int := 0
  chunkSize      : Int := 0
  totalChunks    : Int := 0
  uploadedChunks : Nat := 0
  pendingParts   : List Int := []
  canResume      : Bool
  errorMsg       : ByteString
  deriving DecidableEq, Repr

namespace ChunkManager

def getPendingParts (cm : ChunkManager) (io : QueryIo) (uploadId : ByteString) :
    Except ByteString (List Int) :=
  match cm.getUploadProgress io uploadId with
  | .error err => .error err
  | .ok progress => .ok progress.pendingParts

/-- The loop of `upload_pending_parts`. -/
def uploadPendingFrom (round : ResumeRound) (uploadId : ByteString) :
    List Int → ChunkManager → ChunkManager × List ChunkUploadResult
  | [], cm => (cm, [])
  | partNumber :: rest, cm =>
    match round.dataProvider partNumber with
    | .error err =>
      let out := uploadPendingFrom round uploadId rest cm
      (out.1, failedPart uploadId partNumber (ascii "Failed to get data for part " ++
        intStr partNumber ++ ascii ": " ++ err) :: out.2)
    | .ok data =>
      let sent := cm.retryUploadPart (round.ios partNumber) uploadId partNumber data
      let out := uploadPendingFrom round uploadId rest sent.1
      (out.1, sent.2 :: out.2)

def uploadPendingParts (cm : ChunkManager) (round : ResumeRound) (uploadId : ByteString) :
    ChunkManager × Except ByteString (List ChunkUploadResult) :=
  match cm.getPendingParts round.io uploadId with
  | .error err => (cm, .error err)
  | .ok pendingParts =>
    let out := uploadPendingFrom round uploadId pendingParts cm
    (out.1, .ok out.2)

/-- `find` and `io` are the errors of the query for the upload and of those of its progress. -/
def getResumeInfo (cm : ChunkManager) (find : Option ByteString) (io : QueryIo)
    (uploadId : ByteString) : ResumeInfo :=
  match cm.db.getMultipartUpload find uploadId with
  | .error _ =>
    { uploadId := uploadId, canResume := false
      errorMsg := ascii "Upload not found: " ++ uploadId }
  | .ok upload =>
    let info : ResumeInfo :=
      { uploadId := uploadId, fileUuid := upload.fileUuid, fileName := upload.fileName
        fileSize := upload.fileSize, chunkSize := upload.chunkSize
        totalChunks := upload.totalChunks, canResume := false
        errorMsg := ascii "Upload is in " ++ upload.status.str ++ ascii " state, cannot resume" }
    if upload.status ≠ .uploading then info
    else
      match cm.getUploadProgress io uploadId with
      | .error err => { info with errorMsg := ascii "Failed to get upload progress: " ++ err }
      | .ok progress =>
        { info with
          uploadedChunks := progress.uploadedChunks
          pendingParts := progress.pendingParts
          canResume := true
          errorMsg := [] }

/-! ## What the properties say -/

/-- The numbers of the parts that were accepted. -/
def acceptedParts (results : List ChunkUploadResult) : List Int :=
  (results.filter (·.success)).map (·.partNumber)

/-- Rounds of one upload, one after the other, with all their results. -/
def resumeRounds (uploadId : ByteString) :
    List ResumeRound → ChunkManager → ChunkManager × List ChunkUploadResult
  | [], cm => (cm, [])
  | round :: rounds, cm =>
    let out := cm.uploadPendingParts round uploadId
    let rest := resumeRounds uploadId rounds out.1
    (rest.1, out.2.toOption.getD [] ++ rest.2)

/-- Only the given parts of the upload have changed, in the table and on the disk. -/
structure OnlyParts (uploadId : ByteString) (ns : List Int) (cm cm' : ChunkManager) : Prop where
  config  : cm'.provider.config = cm.provider.config
  uploads : cm'.db.uploads = cm.db.uploads
  parts   : ∀ id n, ¬ (id = uploadId ∧ n ∈ ns) →
    cm'.db.parts.get? (id, n) = cm.db.parts.get? (id, n)
  files   : ∀ p, (∀ n ∈ ns, p ≠ cm.provider.partPath uploadId n) →
    cm'.provider.files p = cm.provider.files p

/-- The part is in the table. -/
def Recorded (cm : ChunkManager) (uploadId : ByteString) (n : Int) : Prop :=
  (cm.db.parts.get? (uploadId, n)).isSome = true

variable {cm cm' cm'' : ChunkManager} {uploadId : ByteString} {ns ms : List Int}

theorem OnlyParts.refl (cm : ChunkManager) (uploadId : ByteString) (ns : List Int) :
    OnlyParts uploadId ns cm cm :=
  ⟨rfl, rfl, fun _ _ _ => rfl, fun _ _ => rfl⟩

theorem OnlyParts.trans (h : OnlyParts uploadId ns cm cm') (h' : OnlyParts uploadId ms cm' cm'')
    {all : List Int} (hns : ns ⊆ all) (hms : ms ⊆ all) : OnlyParts uploadId all cm cm'' := by
  refine ⟨h'.config.trans h.config, h'.uploads.trans h.uploads, ?_, ?_⟩
  · intro id n hout
    rw [h'.parts id n (fun hin => hout ⟨hin.1, hms hin.2⟩),
      h.parts id n (fun hin => hout ⟨hin.1, hns hin.2⟩)]
  · intro p hp
    rw [h'.files p, h.files p (fun n hn => hp n (hns hn))]
    intro n hn
    rw [LocalStorage.partPath_congr h.config]
    exact hp n (hms hn)

/-- A part that has not changed is recorded as before. -/
theorem OnlyParts.recorded_iff (h : OnlyParts uploadId ns cm cm') {n : Int} (hn : n ∉ ns) :
    cm'.Recorded uploadId n ↔ cm.Recorded uploadId n := by
  rw [Recorded, Recorded, h.parts uploadId n (fun hin => hn hin.2)]

/-- The numbers that a report finds recorded. -/
theorem mem_recorded_iff {n : Int} :
    n ∈ (UploadTables.sortByPart (·.partNumber) (cm.db.partRows uploadId)).map (·.partNumber) ↔
      cm.Recorded uploadId n := by
  rw [mem_recorded, List.mem_map, Recorded, Option.isSome_iff_exists]
  constructor
  · rintro ⟨row, hrow, rfl⟩
    exact ⟨_, (UploadTables.mem_partRows.mp hrow).2⟩
  · rintro ⟨⟨etag, size⟩, hget⟩
    exact ⟨⟨uploadId, n, etag, size⟩, UploadTables.mem_partRows.mpr ⟨rfl, hget⟩, rfl⟩

/-- **WHAT IS PENDING.**  The numbers that the loop of the report runs over, without those
    that are recorded. -/
theorem getPendingParts_ok {io : QueryIo} {pending : List Int}
    (h : cm.getPendingParts io uploadId = .ok pending) :
    ∃ upload, cm.db.uploads.get? uploadId = some upload ∧
      pending = pendingParts upload.totalChunks ((UploadTables.sortByPart (·.partNumber)
        (cm.db.partRows uploadId)).map (·.partNumber)) := by
  rw [getPendingParts, getUploadProgress] at h
  cases hfind : cm.db.getMultipartUpload io.find uploadId with
  | error err =>
      rw [hfind] at h
      cases h
  | ok upload =>
      rw [hfind] at h
      cases hlist : cm.db.getUploadedParts io.list uploadId with
      | error err =>
          rw [hlist] at h
          cases h
      | ok rows =>
          rw [hlist] at h
          refine ⟨upload, UploadTables.getMultipartUpload_ok hfind, ?_⟩
          rw [← UploadTables.getUploadedParts_ok hlist]
          exact (Except.ok.inj h).symm

theorem getPendingParts_eq {upload : MultipartUpload}
    (h : cm.db.uploads.get? uploadId = some upload) :
    cm.getPendingParts {} uploadId = .ok (pendingParts upload.totalChunks
      ((UploadTables.sortByPart (·.partNumber) (cm.db.partRows uploadId)).map (·.partNumber))) := by
  obtain ⟨progress, hprogress, -, -, hpending⟩ := getUploadProgress_ok h
  rw [getPendingParts, hprogress, ← hpending]

theorem mem_pendingParts {total : Int} {recorded : List Int} {n : Int} :
    n ∈ pendingParts total recorded ↔
      n ∈ numbers (toInt (total + 1) - 1).toNat ∧ n ∉ recorded := by
  rw [pendingParts, List.mem_filter, decide_eq_true_eq]

theorem nodup_pendingParts (total : Int) (recorded : List Int) :
    (pendingParts total recorded).Nodup :=
  ((pairwise_numbers _).imp (fun h => Int.ne_of_lt h)).filter _

theorem not_recorded_of_pending (cm : ChunkManager) {uploadId : ByteString} {total : Int} :
    ∀ n ∈ pendingParts total ((UploadTables.sortByPart (·.partNumber)
      (cm.db.partRows uploadId)).map (·.partNumber)), ¬ cm.Recorded uploadId n := by
  intro n hn hrecorded
  exact (mem_pendingParts.mp hn).2 (mem_recorded_iff.mpr hrecorded)

/-! ## Sending a part that is missing -/

theorem uploadPart_partNumber (cm : ChunkManager) (io : PartIo) (uploadId : ByteString) (n : Int)
    (data : ByteString) : (cm.uploadPart io uploadId n data).2.partNumber = n := by
  fun_cases uploadPart cm io uploadId n data with
  | case1 err hfind => rfl
  | case2 upload hfind hstatus => rfl
  | case3 upload hfind hstatus hrange => rfl
  | case4 upload hfind hstatus hrange =>
      fun_cases storePart cm io uploadId n data with
      | case1 stored err hstored => rfl
      | case2 stored etag hstored recorded =>
          dsimp only
          cases recorded.2 <;> rfl

/-- **WHAT ONE ATTEMPT CHANGES.**  Nothing but the part, and the table only if it is accepted. -/
theorem uploadPart_sends (cm : ChunkManager) (io : PartIo) (uploadId : ByteString) (n : Int)
    (data : ByteString) :
    OnlyParts uploadId [n] cm (cm.uploadPart io uploadId n data).1 ∧
    (((cm.uploadPart io uploadId n data).2.success = true ∧
        (cm.uploadPart io uploadId n data).1.Recorded uploadId n) ∨
      ((cm.uploadPart io uploadId n data).2.success = false ∧
        (cm.uploadPart io uploadId n data).1.db.parts = cm.db.parts)) := by
  obtain ⟨hconfig, huploads, hcases⟩ := uploadPart_spec cm io uploadId n data
  rcases hcases with ⟨hfailed, hfiles, hparts⟩ | ⟨-, -, hfiles, hresult⟩
  · refine ⟨⟨hconfig, huploads, fun _ _ _ => by rw [hparts], fun _ _ => by rw [hfiles]⟩, ?_⟩
    exact Or.inr ⟨hfailed, hparts⟩
  · have hothers : ∀ p, (∀ k ∈ [n], p ≠ cm.provider.partPath uploadId k) →
        (cm.uploadPart io uploadId n data).1.provider.files p = cm.provider.files p := by
      intro p hp
      rw [hfiles, Files.set_other _ (hp n (List.mem_singleton.mpr rfl))]
    rcases hresult with ⟨hfailed, hparts, -⟩ | ⟨hok, -, -, etag, hparts⟩
    · exact ⟨⟨hconfig, huploads, fun _ _ _ => by rw [hparts], hothers⟩, Or.inr ⟨hfailed, hparts⟩⟩
    · refine ⟨⟨hconfig, huploads, ?_, hothers⟩, Or.inl ⟨hok, ?_⟩⟩
      · intro id k hout
        rw [hparts, InsertionMap.get?_insert_ne]
        intro hkey
        obtain ⟨hid, hk⟩ := Prod.mk.inj hkey
        exact hout ⟨hid, List.mem_singleton.mpr hk⟩
      · rw [Recorded, hparts, InsertionMap.get?_insert_self]
        rfl

/-- **THE RETRY RULE.**  What holds while attempts fail, and what an attempt that succeeds makes
    of it, hold after the retries. -/
theorem retryUploadPart_rule (ios : Nat → PartIo) {uploadId : ByteString} {n : Int}
    (data : ByteString) (Pending Done : ChunkManager → Prop)
    (hstep : ∀ cm io, Pending cm →
      ((cm.uploadPart io uploadId n data).2.success = true ∧
          Done (cm.uploadPart io uploadId n data).1) ∨
        ((cm.uploadPart io uploadId n data).2.success = false ∧
          Pending (cm.uploadPart io uploadId n data).1)) {cm : ChunkManager} (h : Pending cm) :
    (cm.retryUploadPart ios uploadId n data).2.partNumber = n ∧
    (((cm.retryUploadPart ios uploadId n data).2.success = true ∧
        Done (cm.retryUploadPart ios uploadId n data).1) ∨
      ((cm.retryUploadPart ios uploadId n data).2.success = false ∧
        Pending (cm.retryUploadPart ios uploadId n data).1)) := by
  have hloop : ∀ (left attempt : Nat) (lastError : ByteString) (cm : ChunkManager), Pending cm →
      (retryFrom ios uploadId n data left attempt lastError cm).2.partNumber = n ∧
      (((retryFrom ios uploadId n data left attempt lastError cm).2.success = true ∧
          Done (retryFrom ios uploadId n data left attempt lastError cm).1) ∨
        ((retryFrom ios uploadId n data left attempt lastError cm).2.success = false ∧
          Pending (retryFrom ios uploadId n data left attempt lastError cm).1)) := by
    intro left
    induction left with
    | zero => intro attempt lastError cm h; exact ⟨rfl, Or.inr ⟨rfl, h⟩⟩
    | succ left ih =>
        intro attempt lastError cm h
        have hnumber := uploadPart_partNumber cm (ios attempt) uploadId n data
        rw [retryFrom]
        rcases hstep cm (ios attempt) h with ⟨hok, hdone⟩ | ⟨hfailed, hpending⟩
        · rw [if_pos hok]
          exact ⟨hnumber, Or.inl ⟨hok, hdone⟩⟩
        · rw [if_neg (by simp [hfailed])]
          split
          · exact ⟨hnumber, Or.inr ⟨hfailed, hpending⟩⟩
          · exact ih _ _ _ hpending
  exact hloop _ _ _ cm h

/-- What is kept by every attempt to send a missing part. -/
def KeptBySending (uploadId : ByteString) (round : ResumeRound) (Inv : ChunkManager → Prop) :
    Prop :=
  ∀ cm io n data, round.dataProvider n = .ok data → ¬ cm.Recorded uploadId n → Inv cm →
    Inv (cm.uploadPart io uploadId n data).1

theorem keptBySending_true (uploadId : ByteString) (round : ResumeRound) :
    KeptBySending uploadId round (fun _ => True) := fun _ _ _ _ _ _ _ => trivial

/-- **A PART OF A ROUND.**  Retries that fail leave the part missing, so each attempt finds it
    so. -/
theorem retryUploadPart_sends {round : ResumeRound} {Inv : ChunkManager → Prop}
    (hkeep : KeptBySending uploadId round Inv) (ios : Nat → PartIo) {n : Int} {data : ByteString}
    (hdata : round.dataProvider n = .ok data) (hmissing : ¬ cm.Recorded uploadId n)
    (hinv : Inv cm) :
    Inv (cm.retryUploadPart ios uploadId n data).1 ∧
    OnlyParts uploadId [n] cm (cm.retryUploadPart ios uploadId n data).1 ∧
    (cm.retryUploadPart ios uploadId n data).2.partNumber = n ∧
    ((cm.retryUploadPart ios uploadId n data).1.Recorded uploadId n ↔
      (cm.retryUploadPart ios uploadId n data).2.success = true) := by
  obtain ⟨hnumber, hresult⟩ := retryUploadPart_rule ios data
    (fun cm' => (Inv cm' ∧ OnlyParts uploadId [n] cm cm') ∧ ¬ cm'.Recorded uploadId n)
    (fun cm' => (Inv cm' ∧ OnlyParts uploadId [n] cm cm') ∧ cm'.Recorded uploadId n) (by
      rintro cm' io ⟨⟨hinv', honly⟩, hmissing'⟩
      obtain ⟨honly', hsent⟩ := uploadPart_sends cm' io uploadId n data
      have hkept : Inv (cm'.uploadPart io uploadId n data).1 ∧
          OnlyParts uploadId [n] cm (cm'.uploadPart io uploadId n data).1 :=
        ⟨hkeep cm' io n data hdata hmissing' hinv',
          honly.trans honly' (List.Subset.refl _) (List.Subset.refl _)⟩
      rcases hsent with ⟨hok, hrecorded⟩ | ⟨hfailed, hparts⟩
      · exact Or.inl ⟨hok, hkept, hrecorded⟩
      · refine Or.inr ⟨hfailed, hkept, ?_⟩
        rw [Recorded, hparts]
        exact hmissing') ⟨⟨hinv, OnlyParts.refl cm uploadId [n]⟩, hmissing⟩
  rcases hresult with ⟨hok, ⟨hinv', honly⟩, hrecorded⟩ | ⟨hfailed, ⟨hinv', honly⟩, hmissing'⟩
  · exact ⟨hinv', honly, hnumber, fun _ => hok, fun _ => hrecorded⟩
  · refine ⟨hinv', honly, hnumber, fun h => absurd h hmissing', ?_⟩
    intro hok
    rw [hfailed] at hok
    cases hok

theorem acceptedParts_cons (result : ChunkUploadResult) (results : List ChunkUploadResult) :
    acceptedParts (result :: results)
      = if result.success = true then result.partNumber :: acceptedParts results
        else acceptedParts results := by
  rw [acceptedParts, List.filter_cons]
  split
  · rfl
  · rfl

theorem acceptedParts_append (as bs : List ChunkUploadResult) :
    acceptedParts (as ++ bs) = acceptedParts as ++ acceptedParts bs := by
  rw [acceptedParts, List.filter_append, List.map_append]
  rfl

/-- **THE LOOP OF A ROUND.**  Every part is tried once, and recorded exactly if its result says
    so. -/
theorem uploadPendingFrom_spec {round : ResumeRound} {Inv : ChunkManager → Prop}
    (hkeep : KeptBySending uploadId round Inv) :
    ∀ (ns : List Int) (cm : ChunkManager), ns.Nodup → (∀ n ∈ ns, ¬ cm.Recorded uploadId n) →
      Inv cm →
      Inv (uploadPendingFrom round uploadId ns cm).1 ∧
      OnlyParts uploadId ns cm (uploadPendingFrom round uploadId ns cm).1 ∧
      (uploadPendingFrom round uploadId ns cm).2.map (·.partNumber) = ns ∧
      ∀ n, (uploadPendingFrom round uploadId ns cm).1.Recorded uploadId n ↔
        cm.Recorded uploadId n ∨ n ∈ acceptedParts (uploadPendingFrom round uploadId ns cm).2 := by
  intro ns
  induction ns with
  | nil =>
      intro cm _ _ hinv
      refine ⟨hinv, OnlyParts.refl cm uploadId [], rfl, fun n => ?_⟩
      exact ⟨Or.inl, fun h => h.resolve_right (List.not_mem_nil)⟩
  | cons k ns ih =>
      intro cm hnodup hmissing hinv
      obtain ⟨hk, hns⟩ := List.nodup_cons.mp hnodup
      rw [uploadPendingFrom]
      cases hdata : round.dataProvider k with
      | error err =>
          obtain ⟨hinv', honly, hnumbers, hrecorded⟩ :=
            ih cm hns (fun n hn => hmissing n (List.mem_cons_of_mem _ hn)) hinv
          refine ⟨hinv', (OnlyParts.refl cm uploadId []).trans honly (List.nil_subset _)
            (List.subset_cons_self _ _), congrArg (k :: ·) hnumbers, ?_⟩
          dsimp only
          rw [acceptedParts_cons]
          exact hrecorded
      | ok data =>
          obtain ⟨hinv₁, honly₁, hnumber, hsent⟩ := retryUploadPart_sends hkeep (round.ios k)
            hdata (hmissing k (List.mem_cons_self ..)) hinv
          have hstill : ∀ n ∈ ns, ¬ (cm.retryUploadPart (round.ios k) uploadId k data).1.Recorded
              uploadId n := by
            intro n hn
            rw [honly₁.recorded_iff (fun h => hk (List.mem_singleton.mp h ▸ hn))]
            exact hmissing n (List.mem_cons_of_mem _ hn)
          obtain ⟨hinv₂, honly₂, hnumbers, hrecorded⟩ := ih _ hns hstill hinv₁
          refine ⟨hinv₂, honly₁.trans honly₂ ?_ (List.subset_cons_self _ _), ?_, ?_⟩
          · intro n hn
            rw [List.mem_singleton.mp hn]
            exact List.mem_cons_self ..
          · rw [List.map_cons, hnumber, hnumbers]
          · intro n
            rw [hrecorded, acceptedParts_cons, hnumber]
            by_cases hn : n = k
            · rw [hn, hsent]
              have hfresh : ¬ cm.Recorded uploadId k := hmissing k (List.mem_cons_self ..)
              split
              · simp [*]
              · simp [*]
            · rw [honly₁.recorded_iff (fun h => hn (List.mem_singleton.mp h))]
              split
              · simp [hn]
              · exact Iff.rfl

/-- What every attempt to send a missing part keeps, a round keeps. -/
theorem uploadPendingParts_keeps {round : ResumeRound} {Inv : ChunkManager → Prop}
    (hkeep : KeptBySending uploadId round Inv) (hinv : Inv cm) :
    Inv (cm.uploadPendingParts round uploadId).1 := by
  rw [uploadPendingParts]
  cases hround : cm.getPendingParts round.io uploadId with
  | error err => exact hinv
  | ok pending =>
      obtain ⟨upload, -, rfl⟩ := getPendingParts_ok hround
      exact (uploadPendingFrom_spec hkeep _ cm (nodup_pendingParts _ _) (not_recorded_of_pending cm)
        hinv).1

theorem acceptedParts_sublist (results : List ChunkUploadResult) :
    List.Sublist (acceptedParts results) (results.map (·.partNumber)) :=
  List.Sublist.map _ List.filter_sublist

/-- What a round makes of the missing parts. -/
theorem uploadPendingParts_spec (round : ResumeRound) {pending : List Int}
    (hpending : cm.getPendingParts {} uploadId = .ok pending) :
    OnlyParts uploadId pending cm (cm.uploadPendingParts round uploadId).1 ∧
    ∃ rest, (cm.uploadPendingParts round uploadId).1.getPendingParts {} uploadId = .ok rest ∧
      pending.Perm
        (acceptedParts ((cm.uploadPendingParts round uploadId).2.toOption.getD []) ++ rest) := by
  obtain ⟨upload, hget, hlist⟩ := getPendingParts_ok hpending
  rw [uploadPendingParts]
  cases hround : cm.getPendingParts round.io uploadId with
  | error err => exact ⟨OnlyParts.refl cm uploadId _, _, hpending, List.Perm.refl _⟩
  | ok pending' =>
      obtain ⟨upload', hget', hlist'⟩ := getPendingParts_ok hround
      obtain rfl := Option.some.inj (hget.symm.trans hget')
      obtain rfl := hlist.trans hlist'.symm
      have hnodup : pending.Nodup := hlist ▸ nodup_pendingParts _ _
      have hmissing : ∀ n, n ∈ pending ↔
          n ∈ numbers (toInt (upload.totalChunks + 1) - 1).toNat ∧ ¬ cm.Recorded uploadId n := by
        intro n
        rw [hlist, mem_pendingParts, mem_recorded_iff]
      obtain ⟨-, honly, hnumbers, hrecorded⟩ := uploadPendingFrom_spec
        (keptBySending_true uploadId round) pending cm hnodup
        (fun n hn => ((hmissing n).mp hn).2) trivial
      refine ⟨honly, _, getPendingParts_eq (honly.uploads ▸ hget), ?_⟩
      -- the results are of different parts, so the accepted ones are
      have haccepted : List.Sublist (acceptedParts (uploadPendingFrom round uploadId pending cm).2)
          pending := by
        have hsub := acceptedParts_sublist (uploadPendingFrom round uploadId pending cm).2
        rw [hnumbers] at hsub
        exact hsub
      rw [List.perm_ext_iff_of_nodup hnodup]
      · intro n
        rw [List.mem_append, mem_pendingParts, mem_recorded_iff, hrecorded, hmissing]
        show _ ↔ n ∈ acceptedParts (uploadPendingFrom round uploadId pending cm).2 ∨ _
        constructor
        · rintro ⟨hrange, hfresh⟩
          by_cases hn : n ∈ acceptedParts (uploadPendingFrom round uploadId pending cm).2
          · exact Or.inl hn
          · exact Or.inr ⟨hrange, fun h => h.elim hfresh hn⟩
        · rintro (hn | ⟨hrange, hfresh⟩)
          · exact (hmissing n).mp (haccepted.subset hn)
          · exact ⟨hrange, fun h => hfresh (Or.inl h)⟩
      · refine List.Nodup.append (hnodup.sublist haccepted) (nodup_pendingParts _ _) ?_
        intro n hn hrest
        rw [mem_pendingParts, mem_recorded_iff, hrecorded] at hrest
        exact hrest.2 (Or.inr hn)

/-- Five bytes in two parts. -/
def sampleSource (n : Int) : ByteString := if n = 1 then ascii "abc" else ascii "de"

/-- The first part is torn at every attempt. -/
def tornRound : ResumeRound where
  dataProvider n := .ok (sampleSource n)
  ios n _ := if n = 1 then { write := { outcome := .failed (some (ascii "ab")) } } else {}

def wholeRound : ResumeRound where
  dataProvider n := .ok (sampleSource n)

def twoPartConfig : ChunkManagerConfig := { defaultChunkSize := 3 }

/-! ## Runs with rounds -/

end ChunkManager

inductive ResumeCall
  | call (c : ProgressCall)
  | uploadPending (round : ResumeRound) (uploadId : ByteString)

inductive ResumeOutput
  | multipart (out : MultipartOutput)
  | round (results : Except ByteString (List ChunkUploadResult))

namespace ChunkManager

def resumeStep (cm : ChunkManager) (call : ResumeCall) : ChunkManager × ResumeOutput :=
  match call with
  | .call c =>
    let out := cm.progressStep c
    (out.1, .multipart out.2)
  | .uploadPending round uploadId =>
    let out := cm.uploadPendingParts round uploadId
    (out.1, .round out.2)

abbrev ResumeEvent := Event ChunkManager ResumeCall ResumeOutput

/-- The upload is started with these parameters. -/
def StartsResumable (params : InitMultipartParams) (upload : MultipartUpload) (e : ResumeEvent) :
    Prop :=
  ∃ io, e.input = .call (.call (.init io params)) ∧ e.output = .multipart (.started (.ok upload))

/-- The upload is completed, and that succeeds. -/
def CompletesResumed (uploadId : ByteString) (e : ResumeEvent) : Prop :=
  ∃ io result, e.input = .call (.call (.complete io uploadId)) ∧
    e.output = .multipart (.completed (.ok result))

/-- The parts of the upload are sent by rounds only, which are given the parts of one file; and
    no completed object is stored among the parts. -/
def SentByRounds (uploadId : ByteString) (source : Int → ByteString) (cm : ChunkManager)
    (call : ResumeCall) : Prop :=
  match call with
  | .call (.call (.uploadPart _ id _ _)) => id ≠ uploadId
  | .call (.call (.complete _ id)) => ∀ upload, cm.db.declared id = some upload →
      ¬ cm.provider.multipartDir <+: cm.provider.getFullPath upload.bucket upload.objectKey
  | .call (.retry _ id _ _) => id ≠ uploadId
  | .uploadPending round id => id = uploadId →
      ∀ n data, round.dataProvider n = .ok data → data = source n
  | _ => True

/-- The bodies accepted so far are parts of the file. -/
structure Resumed (upload : MultipartUpload) (source : Int → ByteString) (cm : ChunkManager) :
    Prop where
  consistent : cm.db.Consistent
  tracks     : ∃ bodies, Tracks upload bodies cm ∧ ∀ n data, bodies n = some data → data = source n

variable {upload : MultipartUpload} {source : Int → ByteString}

/-- A part of another upload, or one of this file that is missing. -/
theorem Resumed.uploadPart (h : Resumed upload source cm) {io : PartIo} {id : ByteString} {n : Int}
    {data : ByteString}
    (hpart : id = upload.uploadId → ¬ cm.Recorded id n ∧ data = source n) :
    Resumed upload source (cm.uploadPart io id n data).1 := by
  obtain ⟨bodies, htracks, hbodies⟩ := h.tracks
  have hsafe : cm.SafeCall upload.uploadId (.uploadPart io id n data) :=
    fun hid _ hrecorded => absurd hrecorded (hpart hid).1
  refine ⟨consistent_step h.consistent (.uploadPart io id n data), _,
    tracks_uploadPart htracks hsafe, ?_⟩
  intro k body hbody
  split at hbody
  · rename_i hid
    by_cases hk : k = n
    · rw [hk, Function.update_self] at hbody
      rw [hk, ← Option.some.inj hbody]
      exact (hpart hid.1).2
    · rw [Function.update_of_ne hk] at hbody
      exact hbodies k body hbody
  · exact hbodies k body hbody

/-- **THE STEP LEMMA.**  What is sent by rounds stays part of the file. -/
theorem resumed_step (h : Resumed upload source cm) {past : List ResumeCall} {call : ResumeCall}
    (hrounds : SentByRounds upload.uploadId source cm call)
    (hother : ∀ params upload',
      StartsResumable params upload' ⟨past, cm, call, (cm.resumeStep call).2⟩ →
      upload'.uploadId ≠ upload.uploadId) :
    Resumed upload source (cm.resumeStep call).1 := by
  obtain ⟨bodies, htracks, hbodies⟩ := h.tracks
  cases call with
  | call c =>
      cases c with
      | call c =>
          have hconsistent := consistent_step h.consistent c
          cases c with
          | init io params =>
              refine ⟨hconsistent, bodies, tracks_init htracks ?_, hbodies⟩
              intro u hu
              refine hother params u ⟨io, rfl, ?_⟩
              show ResumeOutput.multipart (.started (cm.initMultipart io params).2) = _
              rw [hu]
          | uploadPart io id n data =>
              exact h.uploadPart (fun hid => absurd hid hrounds)
          | complete io id =>
              have hsafe : cm.SafeCall upload.uploadId (.complete io id) := hrounds
              exact ⟨hconsistent, bodies, tracks_complete htracks hsafe, hbodies⟩
          | abort io id => exact ⟨hconsistent, bodies, tracks_abort htracks h.consistent, hbodies⟩
      | retry ios id n data =>
          exact retryUploadPart_keeps (Resumed upload source)
            (fun cm io h => h.uploadPart (fun hid => absurd hid hrounds)) h
  | uploadPending round id =>
      refine uploadPendingParts_keeps ?_ h
      intro cm io n data hdata hmissing h
      exact h.uploadPart (fun hid => ⟨hmissing, hrounds hid n data hdata⟩)

/-- The bodies of all parts of a file are the file. -/
theorem assemble_source {bodies : Int → Option ByteString}
    (hbodies : ∀ n data, bodies n = some data → data = source n) :
    ∀ {ks : List Int} {content : ByteString}, assemble bodies ks = some content →
      content = ks.flatMap source := by
  intro ks
  induction ks with
  | nil => intro content h; exact (Option.some.inj h).symm
  | cons k ks ih =>
      intro content h
      obtain ⟨body, hbody⟩ := piece_of_assemble h k (List.mem_cons_self ..)
      rw [assemble_cons, hbody] at h
      cases hrest : assemble bodies ks with
      | none =>
          rw [hrest] at h
          cases h
      | some rest =>
          rw [hrest] at h
          rw [List.flatMap_cons, ← ih hrest, ← hbodies k body hbody]
          exact (Option.some.inj h).symm

theorem consistent_resumeStep {cm : ChunkManager} (h : cm.db.Consistent) (call : ResumeCall) :
    (cm.resumeStep call).1.db.Consistent := by
  cases call with
  | call c => exact consistent_progressStep h c
  | uploadPending round id =>
      have hkeep : KeptBySending id round (fun cm => cm.db.Consistent) :=
        fun cm io n data _ _ h => consistent_step h (.uploadPart io id n data)
      exact uploadPendingParts_keeps hkeep h

/-! ## What a client is told -/

/-- What a client is told is what it needs: an upload can be resumed exactly if it is pending,
    the parts to be sent are those that are missing, and if there are none a completion passes
    its checks. -/
structure TruthfulInfo (cm : ChunkManager) (uploadId : ByteString) : Prop where
  canResume : (cm.getResumeInfo none {} uploadId).canResume = true ↔
    ∃ upload, cm.db.uploads.get? uploadId = some upload ∧ upload.status = .uploading
  pending   : (cm.getResumeInfo none {} uploadId).canResume = true →
    cm.getPendingParts {} uploadId = .ok (cm.getResumeInfo none {} uploadId).pendingParts ∧
    ((cm.getResumeInfo none {} uploadId).uploadedChunks : Int)
        + (cm.getResumeInfo none {} uploadId).pendingParts.length
      = (cm.getResumeInfo none {} uploadId).totalChunks
  ready     : ((cm.getResumeInfo none {} uploadId).canResume = true ∧
      (cm.getResumeInfo none {} uploadId).pendingParts = []) ↔
    ∃ out, cm.completeChecks {} uploadId = .ok out

/-- The information on an upload that is in the table. -/
theorem getResumeInfo_eq {cm : ChunkManager} {uploadId : ByteString} {upload : MultipartUpload}
    {progress : UploadProgress} (hget : cm.db.uploads.get? uploadId = some upload)
    (hprogress : cm.getUploadProgress {} uploadId = .ok progress) :
    (cm.getResumeInfo none {} uploadId).canResume = decide (upload.status = .uploading) ∧
    (cm.getResumeInfo none {} uploadId).totalChunks = upload.totalChunks ∧
    (upload.status = .uploading →
      (cm.getResumeInfo none {} uploadId).pendingParts = progress.pendingParts ∧
      (cm.getResumeInfo none {} uploadId).uploadedChunks = progress.uploadedChunks) := by
  have hfind : cm.db.getMultipartUpload none uploadId = .ok upload := by
    rw [UploadTables.getMultipartUpload, hget]
  rw [getResumeInfo, hfind]
  dsimp only
  split
  · rename_i hstatus
    exact ⟨(decide_eq_false hstatus).symm, rfl, fun h => absurd h hstatus⟩
  · rename_i hstatus
    rw [hprogress]
    exact ⟨(decide_eq_true (not_not.mp hstatus)).symm, rfl, fun _ => ⟨rfl, rfl⟩⟩

theorem Countably.truthfulInfo {cm : ChunkManager} (h : Countably cm) (uploadId : ByteString) :
    TruthfulInfo cm uploadId := by
  cases hget : cm.db.uploads.get? uploadId with
  | none =>
      have hfind : cm.db.getMultipartUpload none uploadId
          = .error (ascii "Multipart upload not found") := by
        rw [UploadTables.getMultipartUpload, hget]
      have hinfo : (cm.getResumeInfo none {} uploadId).canResume = false := by
        rw [getResumeInfo, hfind]
      have hchecks : cm.completeChecks {} uploadId
          = .error (ascii "Multipart upload not found") := by
        rw [completeChecks, hfind]
      refine ⟨?_, fun hresume => ?_, ?_⟩
      · rw [hinfo, hget]
        simp
      · rw [hinfo] at hresume
        cases hresume
      · rw [hinfo, hchecks]
        simp
  | some upload =>
      obtain ⟨-, -, progress, hprogress, -, -, hcount⟩ := h.exact hget
      obtain ⟨hcan, htotal, htold⟩ := getResumeInfo_eq hget hprogress
      have hstatus : progress.status = upload.status := by
        obtain ⟨progress', hprogress', hstatus, -⟩ := getUploadProgress_ok hget
        rw [Except.ok.inj (hprogress.symm.trans hprogress'), hstatus]
      refine ⟨?_, fun hresume => ?_, ?_⟩
      · rw [hcan, decide_eq_true_eq, hget]
        constructor
        · exact fun hpending => ⟨upload, rfl, hpending⟩
        · rintro ⟨u, hu, hpending⟩
          rw [Option.some.inj hu]
          exact hpending
      · rw [hcan, decide_eq_true_eq] at hresume
        obtain ⟨hparts, huploaded⟩ := htold hresume
        rw [hparts, huploaded, htotal, getPendingParts, hprogress]
        exact ⟨rfl, hcount⟩
      · rw [← h.canComplete_iff, canComplete, hprogress]
        dsimp only
        rw [decide_eq_true_eq, hstatus, hcan, decide_eq_true_eq, List.length_eq_zero_iff]
        constructor
        · rintro ⟨hpending, hnone⟩
          exact ⟨(htold hpending).1 ▸ hnone, hpending⟩
        · rintro ⟨hnone, hpending⟩
          exact ⟨hpending, (htold hpending).1.trans hnone⟩

/-- The two rounds, and the completion. -/
def resumedCalls : List ResumeCall :=
  [.call (.call (.init {} sampleParams)), .uploadPending tornRound (ascii "0-0000000000000000"),
    .uploadPending wholeRound (ascii "0-0000000000000000"),
    .call (.call (.complete {} (ascii "0-0000000000000000")))]

end ChunkManager

end VHono
