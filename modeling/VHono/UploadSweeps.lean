import VHono.UploadResume

/-! # Sweeping stale uploads

    The table of uploads says when an upload was created and when it last
    changed; accepting a part counts as a change.  `cleanup_stale_uploads`
    aborts the pending uploads whose last change is too long ago.  Only the
    times of pending uploads are kept here, since no other time is read. -/

namespace VHono

open ByteString PathSegments MachineRuns

namespace UploadTables

/-- `SELECT … WHERE status = 'uploading' ORDER BY created_at DESC` -/
def pendingUploads (t : UploadTables) (createdAt : ByteString → Int) : List MultipartUpload :=
  ((t.uploads.entries.filter (fun e => decide (e.2.status = .uploading))).map
    (fun e => { e.2 with uploadId := e.1 })).insertionSort
      (fun a b => createdAt a.uploadId ≥ createdAt b.uploadId)

def listPendingMultipartUploads (t : UploadTables) (createdAt : ByteString → Int)
    (exec : Option ByteString) : Except ByteString (List MultipartUpload) :=
  match exec with
  | some err => .error (ascii "Failed to list pending uploads: " ++ err)
  | none => .ok (t.pendingUploads createdAt)

end UploadTables

/-- The manager with the times of its uploads. -/
structure TimedUploads where
  manager   : ChunkManager
  createdAt : ByteString → Int
  updatedAt : ByteString → Int

/-- What a sweep meets: the error of its query, and what each abort meets. -/
structure SweepIo where
  list   : Option ByteString := none
  aborts : ByteString → ChunkManager.AbortIo := fun _ => {}

inductive TimedCall
  /-- `touch` is the error of the statement that notes the time of an accepted part. -/
  | call (now : Int) (touch : Option ByteString) (c : ProgressCall)
  | cleanupStaleUploads (now : Int) (io : SweepIo) (maxAgeSeconds : Int)

def TimedCall.now : TimedCall → Int
  | .call now _ _ => now
  | .cleanupStaleUploads now _ _ => now

inductive TimedOutput
  | multipart (out : MultipartOutput)
  | cleaned (result : Except ByteString Nat)

namespace TimedUploads

def new (config : ChunkManagerConfig) (storage : LocalStorage) : TimedUploads :=
  ⟨.new config storage, fun _ => 0, fun _ => 0⟩

def findResumableUpload (s : TimedUploads) (exec : Option ByteString) (fileName : ByteString)
    (fileSize : Int) : Option MultipartUpload :=
  match s.manager.db.listPendingMultipartUploads s.createdAt exec with
  | .error _ => none
  | .ok pendingUploads =>
    pendingUploads.find? (fun u => decide (u.fileName = fileName ∧ u.fileSize = fileSize))

/-- The upload has not changed for longer than that. -/
def IsStale (s : TimedUploads) (now maxAgeSeconds : Int) (uploadId : ByteString) : Prop :=
  now - s.updatedAt uploadId > maxAgeSeconds

instance (s : TimedUploads) (now maxAgeSeconds : Int) (uploadId : ByteString) :
    Decidable (s.IsStale now maxAgeSeconds uploadId) := by
  unfold IsStale
  infer_instance

/-- The loop of `cleanup_stale_uploads`; the times are those of the query. -/
def cleanupFrom (s : TimedUploads) (now : Int) (io : SweepIo) (maxAgeSeconds : Int) :
    List MultipartUpload → ChunkManager → ChunkManager × Nat
  | [], cm => (cm, 0)
  | upload :: rest, cm =>
    if s.IsStale now maxAgeSeconds upload.uploadId then
      let aborted := cm.abortMultipart (io.aborts upload.uploadId) upload.uploadId
      let out := cleanupFrom s now io maxAgeSeconds rest aborted.1
      match aborted.2 with
      | .error _ => out
      | .ok _ => (out.1, out.2 + 1)
    else cleanupFrom s now io maxAgeSeconds rest cm

def cleanupStaleUploads (s : TimedUploads) (now : Int) (io : SweepIo) (maxAgeSeconds : Int) :
    TimedUploads × Except ByteString Nat :=
  match s.manager.db.listPendingMultipartUploads s.createdAt io.list with
  | .error err => (s, .error err)
  | .ok pendingUploads =>
    let out := s.cleanupFrom now io maxAgeSeconds pendingUploads s.manager
    ({ s with manager := out.1 }, .ok out.2)

/-- The upload that is started. -/
def startedId (out : MultipartOutput) : Option ByteString :=
  match out with
  | .started (.ok upload) => some upload.uploadId
  | _ => none

/-- The upload of which a part is accepted. -/
def acceptedId (c : ProgressCall) (out : MultipartOutput) : Option ByteString :=
  match c, out with
  | .call (.uploadPart _ id _ _), .part result => if result.success = true then some id else none
  | .retry _ id _ _, .part result => if result.success = true then some id else none
  | _, _ => none

def setTime (times : ByteString → Int) (uploadId : Option ByteString) (now : Int) :
    ByteString → Int :=
  match uploadId with
  | none => times
  | some id => Function.update times id now

def timedStep (s : TimedUploads) (call : TimedCall) : TimedUploads × TimedOutput :=
  match call with
  | .call now touch c =>
    let out := s.manager.progressStep c
    ({ manager := out.1
       createdAt := setTime s.createdAt (startedId out.2) now
       updatedAt := setTime (setTime s.updatedAt (startedId out.2) now)
         (if touch = none then acceptedId c out.2 else none) now },
      .multipart out.2)
  | .cleanupStaleUploads now io maxAgeSeconds =>
    let out := s.cleanupStaleUploads now io maxAgeSeconds
    (out.1, .cleaned out.2)

/-! ## What an abort leaves alone -/

/-- The row of the upload, its parts and their files are as before. -/
structure Untouched (uploadId : ByteString) (cm cm' : ChunkManager) : Prop where
  config : cm'.provider.config = cm.provider.config
  upload : cm'.db.uploads.get? uploadId = cm.db.uploads.get? uploadId
  parts  : ∀ n, cm'.db.parts.get? (uploadId, n) = cm.db.parts.get? (uploadId, n)
  files  : ∀ n, cm'.provider.files (cm.provider.partPath uploadId n)
    = cm.provider.files (cm.provider.partPath uploadId n)

variable {uploadId : ByteString} {cm cm' cm'' : ChunkManager}

theorem Untouched.refl (uploadId : ByteString) (cm : ChunkManager) : Untouched uploadId cm cm :=
  ⟨rfl, rfl, fun _ => rfl, fun _ => rfl⟩

theorem Untouched.trans (h : Untouched uploadId cm cm') (h' : Untouched uploadId cm' cm'') :
    Untouched uploadId cm cm'' := by
  refine ⟨h'.config.trans h.config, h'.upload.trans h.upload,
    fun n => (h'.parts n).trans (h.parts n), ?_⟩
  intro n
  have hfile := h'.files n
  rw [LocalStorage.partPath_congr h.config] at hfile
  exact hfile.trans (h.files n)

/-- The files of an upload are not in the directory of another one. -/
theorem abort_files {s : LocalStorage} {uploadId other : ByteString} (hplain : Plain uploadId)
    (hother : uploadId ≠ other) (keeps : Path → Bool) (n : Int) :
    (s.abortMultipart keeps other).1.files (s.partPath uploadId n)
      = s.files (s.partPath uploadId n) := by
  fun_cases LocalStorage.abortMultipart s keeps other with
  | case1 hget => rfl
  | case2 state hget =>
      refine Files.removeTree_outside _ ?_ _
      have hother' : Plain other := s.plainIds other state hget
      rw [LocalStorage.partPath_eq s hplain, LocalStorage.tempDir_eq s hother']
      intro hprefix
      rw [List.prefix_append_right_inj] at hprefix
      have hid := (List.cons_prefix_cons.mp (List.cons_prefix_cons.mp hprefix).2).1
      exact hother hid.symm

theorem filterKeys_other {t : UploadTables} {uploadId other : ByteString}
    (hother : uploadId ≠ other) (n : Int) :
    (t.parts.filterKeys (fun key => decide (key.1 ≠ other))).get? (uploadId, n)
      = t.parts.get? (uploadId, n) := by
  refine Option.ext ?_
  intro row
  rw [InsertionMap.get?_filterKeys]
  exact ⟨fun h => h.2, fun h => ⟨decide_eq_true hother, h⟩⟩

theorem updateMultipartStatus_other (t : UploadTables) (exec : Option ByteString)
    {uploadId other : ByteString} (hother : uploadId ≠ other) (status : MultipartStatus) :
    (t.updateMultipartStatus exec other status).1.uploads.get? uploadId
      = t.uploads.get? uploadId := by
  fun_cases UploadTables.updateMultipartStatus t exec other status with
  | case1 err => rfl
  | case2 upload hget => exact InsertionMap.get?_insert_ne _ _ hother
  | case3 hget => rfl

theorem deleteMultipartUpload_other (t : UploadTables) (execParts execUpload : Option ByteString)
    {uploadId other : ByteString} (hother : uploadId ≠ other) :
    (t.deleteMultipartUpload execParts execUpload other).1.uploads.get? uploadId
      = t.uploads.get? uploadId ∧
    ∀ n, (t.deleteMultipartUpload execParts execUpload other).1.parts.get? (uploadId, n)
      = t.parts.get? (uploadId, n) := by
  fun_cases UploadTables.deleteMultipartUpload t execParts execUpload other with
  | case1 err => exact ⟨rfl, fun _ => rfl⟩
  | case2 deleted err => exact ⟨rfl, filterKeys_other hother⟩
  | case3 deleted =>
      refine ⟨?_, filterKeys_other hother⟩
      show (t.uploads.erase other).get? uploadId = _
      rw [InsertionMap.get?_erase, if_neg hother]

/-- The rows of another upload. -/
theorem abortMultipart_rows (cm : ChunkManager) (io : ChunkManager.AbortIo)
    {uploadId other : ByteString} (hother : uploadId ≠ other) :
    (cm.abortMultipart io other).1.db.uploads.get? uploadId = cm.db.uploads.get? uploadId ∧
    ∀ n, (cm.abortMultipart io other).1.db.parts.get? (uploadId, n)
      = cm.db.parts.get? (uploadId, n) := by
  have hupdated := updateMultipartStatus_other cm.db io.status hother .aborted
  obtain ⟨hparts, -⟩ := UploadTables.updateMultipartStatus_spec cm.db io.status other .aborted
  fun_cases ChunkManager.abortMultipart cm io other with
  | case1 err hfind => exact ⟨rfl, fun _ => rfl⟩
  | case2 upload hfind cm' updated err hfailed =>
      refine ⟨hupdated, fun n => ?_⟩
      rw [hparts]
  | case3 upload hfind cm' updated ok hdone deleted =>
      obtain ⟨hupload, hrest⟩ := deleteMultipartUpload_other updated.1 io.deleteParts
        io.deleteUpload hother
      refine ⟨hupload.trans hupdated, fun n => (hrest n).trans ?_⟩
      rw [show updated.1.parts = cm.db.parts from hparts]

theorem abortMultipart_provider (cm : ChunkManager) (io : ChunkManager.AbortIo)
    (uploadId : ByteString) :
    (cm.abortMultipart io uploadId).1.provider = cm.provider ∨
      (cm.abortMultipart io uploadId).1.provider
        = (cm.provider.abortMultipart io.keeps uploadId).1 := by
  fun_cases ChunkManager.abortMultipart cm io uploadId with
  | case1 err hfind => exact Or.inl rfl
  | case2 upload hfind cm' updated err hfailed => exact Or.inr rfl
  | case3 upload hfind cm' updated ok hdone deleted => exact Or.inr rfl

/-- **AN ABORT TOUCHES ONE UPLOAD.**  What it removes is in the rows and in the directory of that
    upload, whatever fails. -/
theorem abortMultipart_untouched (cm : ChunkManager) (io : ChunkManager.AbortIo)
    {uploadId other : ByteString} (hplain : Plain uploadId) (hother : uploadId ≠ other) :
    Untouched uploadId cm (cm.abortMultipart io other).1 := by
  obtain ⟨hupload, hparts⟩ := abortMultipart_rows cm io hother
  obtain ⟨hconfig, -⟩ := LocalStorage.abortMultipart_spec cm.provider io.keeps other
  rcases abortMultipart_provider cm io other with hsame | haborted
  · exact ⟨by rw [hsame], hupload, hparts, fun _ => by rw [hsame]⟩
  · refine ⟨by rw [haborted, hconfig], hupload, hparts, fun n => ?_⟩
    rw [haborted]
    exact abort_files hplain hother io.keeps n

/-- No statement of the database fails. -/
def FaultlessSweep (io : SweepIo) : Prop :=
  io.list = none ∧ ∀ id, (io.aborts id).find = none ∧ (io.aborts id).status = none ∧
    (io.aborts id).deleteParts = none ∧ (io.aborts id).deleteUpload = none

/-- An abort of which no statement fails removes the upload. -/
theorem abortMultipart_done (cm : ChunkManager) {io : ChunkManager.AbortIo} {uploadId : ByteString}
    (hfind : io.find = none) (hstatus : io.status = none) (hparts : io.deleteParts = none)
    (hdelete : io.deleteUpload = none) {upload : MultipartUpload}
    (hget : cm.db.uploads.get? uploadId = some upload) :
    (cm.abortMultipart io uploadId).2 = .ok () ∧
    (cm.abortMultipart io uploadId).1.db.uploads.get? uploadId = none ∧
    ∀ n, (cm.abortMultipart io uploadId).1.db.parts.get? (uploadId, n) = none := by
  have hfound : cm.db.getMultipartUpload io.find uploadId = .ok upload := by
    rw [hfind, UploadTables.getMultipartUpload, hget]
  have hupdated : cm.db.updateMultipartStatus io.status uploadId .aborted
      = ({ cm.db with
          uploads := cm.db.uploads.insert uploadId ({ upload with status := .aborted }) },
        .ok ()) := by
    rw [hstatus, UploadTables.updateMultipartStatus, hget]
  rw [ChunkManager.abortMultipart, hfound]
  dsimp only
  rw [hupdated, hparts, hdelete]
  refine ⟨rfl, ?_, fun n => ?_⟩
  · show ((cm.db.uploads.insert uploadId _).erase uploadId).get? uploadId = none
    rw [InsertionMap.get?_erase, if_pos rfl]
  · refine Option.eq_none_iff_forall_ne_some.mpr ?_
    intro row hrow
    exact of_decide_eq_true (InsertionMap.get?_filterKeys.mp hrow).1 rfl

/-! ## The loop of a sweep -/

/-- The rows that a sweep goes through. -/
theorem mem_pendingUploads {t : UploadTables} {createdAt : ByteString → Int} {id : ByteString} :
    id ∈ (t.pendingUploads createdAt).map (·.uploadId) ↔
      ∃ row, t.uploads.get? id = some row ∧ row.status = .uploading := by
  rw [UploadTables.pendingUploads, ((List.perm_insertionSort _ _).map _).mem_iff, List.map_map,
    List.mem_map]
  constructor
  · rintro ⟨⟨key, row⟩, he, rfl⟩
    obtain ⟨hmem, hstatus⟩ := List.mem_filter.mp he
    exact ⟨row, InsertionMap.get?_of_mem_entries hmem, of_decide_eq_true hstatus⟩
  · rintro ⟨row, hget, hstatus⟩
    exact ⟨(id, row), List.mem_filter.mpr
      ⟨InsertionMap.mem_entries_of_get? hget, decide_eq_true hstatus⟩, rfl⟩

theorem nodup_pendingUploads (t : UploadTables) (createdAt : ByteString → Int) :
    ((t.pendingUploads createdAt).map (·.uploadId)).Nodup := by
  rw [UploadTables.pendingUploads, ((List.perm_insertionSort _ _).map _).nodup_iff, List.map_map]
  exact t.uploads.nodup.sublist (List.filter_sublist.map Prod.fst)

theorem listPending_ok {t : UploadTables} {createdAt : ByteString → Int}
    {exec : Option ByteString} {uploads : List MultipartUpload}
    (h : t.listPendingMultipartUploads createdAt exec = .ok uploads) :
    uploads = t.pendingUploads createdAt := by
  cases exec with
  | some err => cases h
  | none => exact (Except.ok.inj h).symm

/-- The first that passes, in a list sorted from large to small, is a largest. -/
theorem find?_largest {α : Type} (key : α → Int) {test : α → Bool} {l : List α} {a : α}
    (hsorted : l.Pairwise (fun x y => key x ≥ key y)) (hfind : l.find? test = some a) :
    ∀ b ∈ l, test b = true → key b ≤ key a := by
  obtain ⟨-, as, bs, rfl, has⟩ := List.find?_eq_some_iff_append.mp hfind
  intro b hb htest
  rcases List.mem_append.mp hb with hb | hb
  · have hnot := has b hb
    rw [htest] at hnot
    cases hnot
  · rcases List.mem_cons.mp hb with rfl | hb
    · exact Int.le_refl _
    · exact List.rel_of_pairwise_cons (List.pairwise_append.mp hsorted).2.1 hb

/-- **WHAT CAN BE RESUMED.**  If a pending upload has the name and the size, one is found, and
    it was created last. -/
theorem findResumableUpload_newest (s : TimedUploads) {fileName : ByteString} {fileSize : Int}
    {id : ByteString} {row : MultipartUpload} (hget : s.manager.db.uploads.get? id = some row)
    (hpending : row.status = .uploading) (hname : row.fileName = fileName)
    (hsize : row.fileSize = fileSize) :
    ∃ u, s.findResumableUpload none fileName fileSize = some u ∧ u.fileName = fileName ∧
      u.fileSize = fileSize ∧ s.createdAt id ≤ s.createdAt u.uploadId ∧
      ∃ row, s.manager.db.uploads.get? u.uploadId = some row ∧ row.status = .uploading := by
  have hsorted : (s.manager.db.pendingUploads s.createdAt).Pairwise
      (fun a b => s.createdAt a.uploadId ≥ s.createdAt b.uploadId) :=
    List.pairwise_insertionSort _ _
  have hmem : { row with uploadId := id } ∈ s.manager.db.pendingUploads s.createdAt := by
    rw [UploadTables.pendingUploads, (List.perm_insertionSort _ _).mem_iff]
    exact List.mem_map.mpr ⟨(id, row), List.mem_filter.mpr
      ⟨InsertionMap.mem_entries_of_get? hget, decide_eq_true hpending⟩, rfl⟩
  rw [findResumableUpload, UploadTables.listPendingMultipartUploads]
  dsimp only
  cases hfind : (s.manager.db.pendingUploads s.createdAt).find?
      (fun u => decide (u.fileName = fileName ∧ u.fileSize = fileSize)) with
  | none => exact absurd (decide_eq_true ⟨hname, hsize⟩) (List.find?_eq_none.mp hfind _ hmem)
  | some u =>
      have htest := List.find?_some hfind
      obtain ⟨hname', hsize'⟩ := of_decide_eq_true htest
      have hlargest := find?_largest (fun u => s.createdAt u.uploadId) hsorted hfind _ hmem
        (decide_eq_true ⟨hname, hsize⟩)
      exact ⟨u, rfl, hname', hsize', hlargest, mem_pendingUploads.mp
        (List.mem_map.mpr ⟨u, List.mem_of_find?_eq_some hfind, rfl⟩)⟩

variable (s : TimedUploads) (now maxAgeSeconds : Int)

/-- What every abort of a stale upload keeps, a sweep keeps. -/
theorem cleanupFrom_keeps (io : SweepIo) (Inv : ChunkManager → Prop) :
    ∀ (rest : List MultipartUpload),
      (∀ cm, ∀ u ∈ rest, s.IsStale now maxAgeSeconds u.uploadId → Inv cm →
        Inv (cm.abortMultipart (io.aborts u.uploadId) u.uploadId).1) →
      ∀ cm, Inv cm → Inv (s.cleanupFrom now io maxAgeSeconds rest cm).1 := by
  intro rest
  induction rest with
  | nil => intro _ cm h; exact h
  | cons u rest ih =>
      intro hstep cm h
      have hrest := ih (fun cm v hv => hstep cm v (List.mem_cons_of_mem _ hv))
      rw [cleanupFrom]
      split
      · rename_i hstale
        dsimp only
        have hnext := hrest _ (hstep cm u (List.mem_cons_self ..) hstale h)
        split
        · exact hnext
        · exact hnext
      · exact hrest cm h

/-- **WHAT A SWEEP REMOVES.**  Without faults, the stale uploads of the list, and it counts
    them. -/
theorem cleanupFrom_sweeps {io : SweepIo} (hio : FaultlessSweep io) :
    ∀ (rest : List MultipartUpload) (cm : ChunkManager), (rest.map (·.uploadId)).Nodup →
      (∀ id ∈ rest.map (·.uploadId), (cm.db.uploads.get? id).isSome = true) →
      (s.cleanupFrom now io maxAgeSeconds rest cm).2
        = (rest.filter (fun u => decide (s.IsStale now maxAgeSeconds u.uploadId))).length ∧
      ∀ id, (s.cleanupFrom now io maxAgeSeconds rest cm).1.db.uploads.get? id
          = (if id ∈ rest.map (·.uploadId) ∧ s.IsStale now maxAgeSeconds id then none
            else cm.db.uploads.get? id) ∧
        ∀ n, (s.cleanupFrom now io maxAgeSeconds rest cm).1.db.parts.get? (id, n)
          = if id ∈ rest.map (·.uploadId) ∧ s.IsStale now maxAgeSeconds id then none
            else cm.db.parts.get? (id, n) := by
  intro rest
  induction rest with
  | nil =>
      intro cm _ _
      refine ⟨rfl, fun id => ?_⟩
      simp [cleanupFrom]
  | cons u rest ih =>
      intro cm hnodup hall
      rw [List.map_cons, List.nodup_cons] at hnodup
      obtain ⟨hu, hnodup⟩ := hnodup
      rw [cleanupFrom]
      split
      · rename_i hstale
        obtain ⟨hfind, hstatus, hparts, hdelete⟩ := hio.2 u.uploadId
        obtain ⟨upload, hget⟩ := Option.isSome_iff_exists.mp
          (hall u.uploadId (List.mem_cons_self ..))
        obtain ⟨hok, hgone, hnoparts⟩ := abortMultipart_done cm hfind hstatus hparts hdelete hget
        obtain ⟨hcount, hrows⟩ := ih (cm.abortMultipart (io.aborts u.uploadId) u.uploadId).1 hnodup
          (by
          intro id hid
          have hne : id ≠ u.uploadId := fun h => hu (h ▸ hid)
          rw [(abortMultipart_rows cm _ hne).1]
          exact hall id (List.mem_cons_of_mem _ hid))
        dsimp only
        rw [hok]
        dsimp only
        refine ⟨?_, fun id => ?_⟩
        · rw [hcount]
          simp [hstale]
        · by_cases hid : id = u.uploadId
          · subst hid
            obtain ⟨hupload, hids⟩ := hrows u.uploadId
            rw [if_neg (fun h => hu h.1)] at hupload
            rw [if_pos ⟨List.mem_cons_self .., hstale⟩]
            refine ⟨hupload.trans hgone, fun n => ?_⟩
            rw [hids n, if_neg (fun h => hu h.1), if_pos ⟨List.mem_cons_self .., hstale⟩, hnoparts]
          · obtain ⟨hupload, hids⟩ := hrows id
            obtain ⟨hsame, hsameParts⟩ := abortMultipart_rows cm (io.aborts u.uploadId) hid
            rw [hsame] at hupload
            rw [List.map_cons, hupload]
            simp only [List.mem_cons, hid, false_or]
            refine ⟨trivial, fun n => ?_⟩
            rw [hids n, hsameParts n]
      · rename_i hfresh
        obtain ⟨hcount, hrows⟩ := ih cm hnodup (fun id hid => hall id (List.mem_cons_of_mem _ hid))
        refine ⟨?_, fun id => ?_⟩
        · rw [hcount]
          simp [hfresh]
        · have hiff : (id ∈ (u :: rest).map (·.uploadId) ∧ s.IsStale now maxAgeSeconds id) ↔
              (id ∈ rest.map (·.uploadId) ∧ s.IsStale now maxAgeSeconds id) := by
            rw [List.map_cons, List.mem_cons]
            constructor
            · rintro ⟨hid | hid, hstale⟩
              · exact absurd (hid ▸ hstale) hfresh
              · exact ⟨hid, hstale⟩
            · rintro ⟨hid, hstale⟩
              exact ⟨Or.inr hid, hstale⟩
          obtain ⟨hupload, hids⟩ := hrows id
          refine ⟨?_, fun n => ?_⟩
          · rw [hupload, if_congr hiff.symm rfl rfl]
          · rw [hids n, if_congr hiff.symm rfl rfl]

/-! ## Runs -/

abbrev TimedEvent := Event TimedUploads TimedCall TimedOutput

/-- The upload is started, or a part of it accepted and that noted. -/
def Touches (uploadId : ByteString) (e : TimedEvent) : Prop :=
  ∃ now touch c out, e.input = .call now touch c ∧ e.output = .multipart out ∧
    (startedId out = some uploadId ∨ (touch = none ∧ acceptedId c out = some uploadId))

theorem setTime_same (times : ByteString → Int) (id : ByteString) (now : Int) :
    setTime times (some id) now id = now := Function.update_self ..

theorem setTime_other {times : ByteString → Int} {uploadId : Option ByteString} {id : ByteString}
    (h : uploadId ≠ some id) (now : Int) : setTime times uploadId now id = times id := by
  cases uploadId with
  | none => rfl
  | some other => exact Function.update_of_ne (fun hid => h (congrArg some hid.symm)) _ _

/-- A call sets the time of the uploads it touches, and no other. -/
theorem updatedAt_call (s : TimedUploads) (now : Int) (touch : Option ByteString) (c : ProgressCall)
    (past : List TimedCall) (id : ByteString) :
    (Touches id ⟨past, s, .call now touch c, (s.timedStep (.call now touch c)).2⟩ ∧
        (s.timedStep (.call now touch c)).1.updatedAt id = now) ∨
      (¬ Touches id ⟨past, s, .call now touch c, (s.timedStep (.call now touch c)).2⟩ ∧
        (s.timedStep (.call now touch c)).1.updatedAt id = s.updatedAt id) := by
  have hupdated : (s.timedStep (.call now touch c)).1.updatedAt
      = setTime (setTime s.updatedAt (startedId (s.manager.progressStep c).2) now)
        (if touch = none then acceptedId c (s.manager.progressStep c).2 else none) now := rfl
  rw [hupdated]
  by_cases haccepted : touch = none ∧ acceptedId c (s.manager.progressStep c).2 = some id
  · refine Or.inl ⟨⟨now, touch, c, _, rfl, rfl, Or.inr haccepted⟩, ?_⟩
    rw [if_pos haccepted.1, haccepted.2, setTime_same]
  · have hother : (if touch = none then acceptedId c (s.manager.progressStep c).2 else none)
        ≠ some id := by
      split
      · rename_i htouch
        exact fun h => haccepted ⟨htouch, h⟩
      · exact fun h => by cases h
    rw [setTime_other hother]
    by_cases hstarted : startedId (s.manager.progressStep c).2 = some id
    · refine Or.inl ⟨⟨now, touch, c, _, rfl, rfl, Or.inl hstarted⟩, ?_⟩
      rw [hstarted, setTime_same]
    · refine Or.inr ⟨?_, setTime_other hstarted now⟩
      rintro ⟨_, _, _, out, hinput, houtput, htouches⟩
      cases hinput
      cases houtput
      exact htouches.elim hstarted haccepted

/-- An upload that is in the table is there since it was started. -/
theorem uploads_call (cm : ChunkManager) (c : ProgressCall) (hconsistent : cm.db.Consistent)
    {id : ByteString} (h : ((cm.progressStep c).1.db.declared id).isSome = true) :
    startedId (cm.progressStep c).2 = some id ∨ (cm.db.declared id).isSome = true := by
  cases c with
  | call c =>
      cases c with
      | init io params =>
          obtain ⟨-, -, -, hrows⟩ := ChunkManager.initMultipart_spec cm io params
          have hafter : ((cm.initMultipart io params).1.db.declared id).isSome = true := h
          rcases hrows with ⟨hsame, -⟩ | ⟨u, hok, -, -, -, -, -, hdeclared⟩
          · rw [hsame] at hafter
            exact Or.inr hafter
          · rw [hdeclared] at hafter
            split at hafter
            · rename_i hid
              refine Or.inl ?_
              show startedId (.started (cm.initMultipart io params).2) = some id
              rw [hok, hid]
              rfl
            · exact Or.inr hafter
      | uploadPart io uploadId n data =>
          obtain ⟨-, huploads, -⟩ := ChunkManager.uploadPart_spec cm io uploadId n data
          have hafter : ((cm.uploadPart io uploadId n data).1.db.declared id).isSome = true := h
          rw [UploadTables.declared, huploads] at hafter
          exact Or.inr hafter
      | complete io uploadId =>
          obtain ⟨-, -, hdeclared, -⟩ := ChunkManager.completeMultipart_spec cm io uploadId
          have hafter : ((cm.completeMultipart io uploadId).1.db.declared id).isSome = true := h
          rw [hdeclared] at hafter
          exact Or.inr hafter
      | abort io uploadId =>
          obtain ⟨-, -, -, hdeclared, -⟩ :=
            ChunkManager.abortMultipart_spec cm io uploadId hconsistent
          obtain ⟨row, hrow⟩ := Option.isSome_iff_exists.mp h
          exact Or.inr (Option.isSome_iff_exists.mpr ⟨row, hdeclared id row hrow⟩)
  | retry ios uploadId n data =>
      have hkept : (cm.retryUploadPart ios uploadId n data).1.db.uploads = cm.db.uploads :=
        ChunkManager.retryUploadPart_keeps (fun cm' => cm'.db.uploads = cm.db.uploads)
          (fun cm' io hcm => (ChunkManager.uploadPart_spec cm' io uploadId n data).2.1.trans hcm)
          rfl
      have hafter : ((cm.retryUploadPart ios uploadId n data).1.db.declared id).isSome = true := h
      rw [UploadTables.declared, hkept] at hafter
      exact Or.inr hafter

/-- What the events so far say of the table: an upload in it was last touched when the table
    says, and nothing touched it later. -/
structure Dated (A : List TimedEvent) (s : TimedUploads) : Prop where
  consistent : s.manager.db.Consistent
  touched    : ∀ id, (s.manager.db.declared id).isSome = true →
    ∃ e ∈ A, Touches id e ∧ e.input.now = s.updatedAt id
  latest     : ∀ id, ∀ e ∈ A, Touches id e → e.input.now ≤ s.updatedAt id

/-- A sweep keeps the tables consistent, and starts no upload. -/
theorem cleanupStaleUploads_keeps (s : TimedUploads) (now : Int) (io : SweepIo)
    (maxAgeSeconds : Int) (hconsistent : s.manager.db.Consistent) :
    (s.cleanupStaleUploads now io maxAgeSeconds).1.manager.db.Consistent ∧
    (∀ id, ((s.cleanupStaleUploads now io maxAgeSeconds).1.manager.db.declared id).isSome = true →
      (s.manager.db.declared id).isSome = true) ∧
    (s.cleanupStaleUploads now io maxAgeSeconds).1.updatedAt = s.updatedAt := by
  rw [cleanupStaleUploads]
  cases hlist : s.manager.db.listPendingMultipartUploads s.createdAt io.list with
  | error err => exact ⟨hconsistent, fun _ h => h, rfl⟩
  | ok uploads =>
      have hkept := cleanupFrom_keeps s now maxAgeSeconds io (fun cm => cm.db.Consistent ∧
        ∀ id, (cm.db.declared id).isSome = true → (s.manager.db.declared id).isSome = true)
        uploads (by
          rintro cm u - - ⟨hcons, hsome⟩
          obtain ⟨-, hcons', -, hdeclared, -⟩ := ChunkManager.abortMultipart_spec cm
            (io.aborts u.uploadId) u.uploadId hcons
          refine ⟨hcons', fun id h => hsome id ?_⟩
          obtain ⟨row, hrow⟩ := Option.isSome_iff_exists.mp h
          exact Option.isSome_iff_exists.mpr ⟨row, hdeclared id row hrow⟩)
        s.manager ⟨hconsistent, fun _ h => h⟩
      exact ⟨hkept.1, hkept.2, rfl⟩

/-- **THE STEP LEMMA.**  A call that comes after all others keeps the dates. -/
theorem dated_step {A : List TimedEvent} {s : TimedUploads} (h : Dated A s) (past : List TimedCall)
    (call : TimedCall) (hclock : ∀ e ∈ A, e.input.now ≤ call.now) :
    Dated (A ++ [⟨past, s, call, (s.timedStep call).2⟩]) (s.timedStep call).1 := by
  cases call with
  | call now touch c =>
      refine ⟨ChunkManager.consistent_progressStep h.consistent c, fun id hid => ?_,
        fun id e he htouches => ?_⟩
      · rcases updatedAt_call s now touch c past id with ⟨htouches, hnow⟩ | ⟨hnot, hsame⟩
        · exact ⟨_, List.mem_append_right _ (List.mem_singleton.mpr rfl), htouches, hnow.symm⟩
        · rcases uploads_call s.manager c h.consistent hid with hstarted | hbefore
          · exact absurd ⟨now, touch, c, _, rfl, rfl, Or.inl hstarted⟩ hnot
          · obtain ⟨e, he, htouches, hdate⟩ := h.touched id hbefore
            exact ⟨e, List.mem_append_left _ he, htouches, hdate.trans hsame.symm⟩
      · rcases List.mem_append.mp he with he | he
        · rcases updatedAt_call s now touch c past id with ⟨-, hnow⟩ | ⟨-, hsame⟩
          · rw [hnow]
            exact hclock e he
          · rw [hsame]
            exact h.latest id e he htouches
        · obtain rfl := List.mem_singleton.mp he
          rcases updatedAt_call s now touch c past id with ⟨-, hnow⟩ | ⟨hnot, -⟩
          · rw [hnow]
            exact Int.le_refl _
          · exact absurd htouches hnot
  | cleanupStaleUploads now io maxAgeSeconds =>
      obtain ⟨hconsistent, hdeclared, hupdated⟩ :=
        cleanupStaleUploads_keeps s now io maxAgeSeconds h.consistent
      refine ⟨hconsistent, fun id hid => ?_, fun id e he htouches => ?_⟩
      · obtain ⟨e, he, htouches, hdate⟩ := h.touched id (hdeclared id hid)
        refine ⟨e, List.mem_append_left _ he, htouches, ?_⟩
        show e.input.now = (s.cleanupStaleUploads now io maxAgeSeconds).1.updatedAt id
        rw [hupdated, hdate]
      · show e.input.now ≤ (s.cleanupStaleUploads now io maxAgeSeconds).1.updatedAt id
        rw [hupdated]
        rcases List.mem_append.mp he with he | he
        · exact h.latest id e he htouches
        · obtain rfl := List.mem_singleton.mp he
          obtain ⟨_, _, _, _, hinput, -⟩ := htouches
          cases hinput

/-- The dates hold wherever an event begins, if the clock does not go back. -/
theorem dated_before (config : ChunkManagerConfig) (storage : LocalStorage)
    (calls : List TimedCall) {A C : List TimedEvent} {c : TimedEvent}
    (hrun : events timedStep (new config storage) calls = A ++ c :: C)
    (hclock : ((events timedStep (new config storage) calls).map (·.input.now)).Pairwise (· ≤ ·)) :
    Dated A c.before := by
  have hstart : Dated [] (new config storage) :=
    ⟨UploadTables.consistent_empty, fun _ h => (by cases h), fun _ _ he => (by cases he)⟩
  refine eventsFrom_history Dated (fun A e => ∀ e' ∈ A, e'.input.now ≤ e.input.now)
    (fun A e => Dated A e.before) ?_ hstart ?_ hrun
  · intro A past s call h hok
    exact ⟨dated_step h past call hok, h⟩
  · intro B e C hB e' he'
    have hevents : events timedStep (new config storage) calls = B ++ e :: C := hB
    rw [hevents, List.map_append, List.pairwise_append] at hclock
    exact hclock.2.2 _ (List.mem_map.mpr ⟨e', he', rfl⟩) _ (List.mem_cons_self ..)

/-- A touched upload has an id that names a directory. -/
theorem plain_of_touches {calls : List TimedCall} {s : TimedUploads} {id : ByteString}
    {e : TimedEvent} (he : e ∈ events timedStep s calls) (h : Touches id e) : Plain id := by
  obtain ⟨now, touch, c, out, hinput, houtput, htouches⟩ := h
  have hout := eventsFrom_output he
  rw [hinput, houtput] at hout
  obtain rfl : out = (e.before.manager.progressStep c).2 := TimedOutput.multipart.inj hout
  have hpart : ∀ (cm : ChunkManager) io id n data,
      (cm.uploadPart io id n data).2.success = true → Plain id := by
    intro cm io id n data hok
    rcases (ChunkManager.uploadPart_spec cm io id n data).2.2 with ⟨hfailed, -⟩ | ⟨-, hplain, -⟩
    · rw [hfailed] at hok
      cases hok
    · exact hplain
  cases c with
  | call c =>
      cases c with
      | init io params =>
          obtain ⟨-, -, -, hrows⟩ := ChunkManager.initMultipart_spec e.before.manager io params
          have hstarted : startedId (.started (e.before.manager.initMultipart io params).2)
              = some id := htouches.resolve_right (fun h => by cases h.2)
          rcases hrows with ⟨-, herror⟩ | ⟨u, hok, hplain, -⟩
          · cases hresult : (e.before.manager.initMultipart io params).2 with
            | error err =>
                rw [hresult] at hstarted
                cases hstarted
            | ok u => exact absurd hresult (herror u)
          · rw [hok] at hstarted
            rw [← Option.some.inj hstarted]
            exact hplain
      | uploadPart io uploadId n data =>
          obtain ⟨-, haccepted⟩ := htouches.resolve_left (fun h => by cases h)
          have hif : (if (e.before.manager.uploadPart io uploadId n data).2.success = true
              then some uploadId else none) = some id := haccepted
          split at hif
          · rename_i hok
            rw [← Option.some.inj hif]
            exact hpart _ io uploadId n data hok
          · cases hif
      | complete io uploadId => exact htouches.elim (fun h => by cases h) (fun h => by cases h.2)
      | abort io uploadId => exact htouches.elim (fun h => by cases h) (fun h => by cases h.2)
  | retry ios uploadId n data =>
      obtain ⟨-, haccepted⟩ := htouches.resolve_left (fun h => by cases h)
      have hif : (if (e.before.manager.retryUploadPart ios uploadId n data).2.success = true
          then some uploadId else none) = some id := haccepted
      split at hif
      · rename_i hok
        rw [← Option.some.inj hif]
        obtain ⟨-, ⟨-, hplain⟩ | ⟨hfailed, -⟩⟩ := ChunkManager.retryUploadPart_rule ios data
          (fun _ => True) (fun _ => Plain uploadId) (fun cm io _ => by
            cases hsuccess : (cm.uploadPart io uploadId n data).2.success with
            | true => exact Or.inl ⟨rfl, hpart cm io uploadId n data hsuccess⟩
            | false => exact Or.inr ⟨rfl, trivial⟩) trivial
        · exact hplain
        · rw [hfailed] at hok
          cases hok
      · cases hif

/-- Two uploads are started; of the first one a part is accepted before the sweep. -/
def sweptCalls : List TimedCall :=
  [.call 0 none (.call (.init {} ChunkManager.sampleParams)),
    .call 10 none (.call (.init { storage := { now := 1 } } ChunkManager.sampleParams)),
    .call 90 none (.call (.uploadPart {} (ascii "0-0000000000000000") 1 (ascii "abc"))),
    .cleanupStaleUploads 100 {} 60]

end TimedUploads

end VHono
