import VHono.ByteString
import VHono.InsertionMap
import Mathlib.Data.List.Sort

/-! # The database tables of multipart uploads

    The rows by their unique columns.  A statement of the database may fail;
    the text of its error is an argument of the operation.  Texts are stored
    as they are given: what a quote in a text does to a statement is not part
    of this model.  The columns for row ids and times are left out. -/

namespace VHono

open ByteString

inductive MultipartStatus
  | uploading
  | completed
  | aborted
  deriving DecidableEq, Repr

def MultipartStatus.str (status : MultipartStatus) : ByteString :=
  match status with
  | uploading => ascii "uploading"
  | completed => ascii "completed"
  | aborted => ascii "aborted"

/-- A row of `multipart_uploads`. -/
structure MultipartUpload where
  uploadId    : ByteString
  fileUuid    : ByteString
  fileName    : ByteString
  fileSize    : Int
  chunkSize   : Int
  totalChunks : Int
  bucket      : ByteString
  objectKey   : ByteString
  contentType : ByteString
  status      : MultipartStatus
  deriving DecidableEq, Repr

/-- A row of `uploaded_parts`. -/
structure UploadedPart where
  uploadId   : ByteString
  partNumber : Int
  etag       : ByteString
  size       : Int
  deriving DecidableEq, Repr

/-- A row of `file_info`. -/
structure FileInfo where
  fileUuid    : ByteString
  fileHash    : ByteString
  fileName    : ByteString
  fileSize    : Int
  fileType    : ByteString
  storageType : ByteString
  bucket      : ByteString
  objectKey   : ByteString
  metadata    : ByteString
  deriving DecidableEq, Repr

/-- The tables: uploads by `upload_id`, ETag and size of the parts by `upload_id` and
    `part_number`, files by `file_uuid`. -/
structure UploadTables where
  uploads : InsertionMap ByteString MultipartUpload
  parts   : InsertionMap (ByteString × Int) (ByteString × Int)
  files   : InsertionMap ByteString FileInfo

namespace UploadTables

def empty : UploadTables := ⟨.empty, .empty, .empty⟩

/-- What an insertion meets: a generated id in case none is given, the error of the statement,
    and the error of a violated unique column. -/
structure InsertIo where
  uploadId   : ByteString := []
  fileUuid   : ByteString := []
  exec       : Option ByteString := none
  constraint : ByteString := []

/-- The row as it is inserted: with ids, and in the state `uploading`. -/
def newUpload (io : InsertIo) (upload : MultipartUpload) : MultipartUpload :=
  { upload with
    uploadId := if upload.uploadId ≠ [] then upload.uploadId else io.uploadId
    fileUuid := if upload.fileUuid ≠ [] then upload.fileUuid else io.fileUuid
    status := .uploading }

def createMultipartUpload (t : UploadTables) (io : InsertIo) (upload : MultipartUpload) :
    UploadTables × Except ByteString MultipartUpload :=
  let row := newUpload io upload
  match io.exec with
  | some err => (t, .error (ascii "Failed to create multipart upload: " ++ err))
  | none =>
    if (t.uploads.get? row.uploadId).isSome = true then
      (t, .error (ascii "Failed to create multipart upload: " ++ io.constraint))
    else ({ t with uploads := t.uploads.insert row.uploadId row }, .ok row)

def getMultipartUpload (t : UploadTables) (exec : Option ByteString) (uploadId : ByteString) :
    Except ByteString MultipartUpload :=
  match exec with
  | some err => .error (ascii "Failed to query multipart upload: " ++ err)
  | none =>
    match t.uploads.get? uploadId with
    | some upload => .ok upload
    | none => .error (ascii "Multipart upload not found")

def updateMultipartStatus (t : UploadTables) (exec : Option ByteString) (uploadId : ByteString)
    (status : MultipartStatus) : UploadTables × Except ByteString Unit :=
  match exec with
  | some err => (t, .error (ascii "Failed to update multipart status: " ++ err))
  | none =>
    match t.uploads.get? uploadId with
    | some upload =>
      ({ t with uploads := t.uploads.insert uploadId { upload with status := status } }, .ok ())
    | none => (t, .ok ())

/-- The parts first, then the upload. -/
def deleteMultipartUpload (t : UploadTables) (execParts execUpload : Option ByteString)
    (uploadId : ByteString) : UploadTables × Except ByteString Unit :=
  match execParts with
  | some err => (t, .error (ascii "Failed to delete uploaded parts: " ++ err))
  | none =>
    let t := { t with parts := t.parts.filterKeys (fun key => decide (key.1 ≠ uploadId)) }
    match execUpload with
    | some err => (t, .error (ascii "Failed to delete multipart upload: " ++ err))
    | none => ({ t with uploads := t.uploads.erase uploadId }, .ok ())

/-- `INSERT OR REPLACE` -/
def recordUploadedPart (t : UploadTables) (exec : Option ByteString) (uploadId : ByteString)
    (partNumber : Int) (etag : ByteString) (size : Int) :
    UploadTables × Except ByteString UploadedPart :=
  match exec with
  | some err => (t, .error (ascii "Failed to record uploaded part: " ++ err))
  | none => ({ t with parts := t.parts.insert (uploadId, partNumber) (etag, size) },
      .ok ⟨uploadId, partNumber, etag, size⟩)

/-- Sorted by part number. -/
def sortByPart {α : Type} (number : α → Int) (rows : List α) : List α :=
  rows.insertionSort (fun a b => number a ≤ number b)

/-- The rows of an upload, in the order of the table. -/
def partRows (t : UploadTables) (uploadId : ByteString) : List UploadedPart :=
  (t.parts.entries.filter (fun e => decide (e.1.1 = uploadId))).map
    (fun e => ⟨e.1.1, e.1.2, e.2.1, e.2.2⟩)

/-- `SELECT … ORDER BY part_number ASC` -/
def getUploadedParts (t : UploadTables) (exec : Option ByteString) (uploadId : ByteString) :
    Except ByteString (List UploadedPart) :=
  match exec with
  | some err => .error (ascii "Failed to get uploaded parts: " ++ err)
  | none => .ok (sortByPart (·.partNumber) (t.partRows uploadId))

def insertFile (t : UploadTables) (io : InsertIo) (file : FileInfo) :
    UploadTables × Except ByteString FileInfo :=
  let row := { file with fileUuid := if file.fileUuid ≠ [] then file.fileUuid else io.fileUuid }
  match io.exec with
  | some err => (t, .error (ascii "Failed to insert file info: " ++ err))
  | none =>
    if (t.files.get? row.fileUuid).isSome = true then
      (t, .error (ascii "Failed to insert file info: " ++ io.constraint))
    else ({ t with files := t.files.insert row.fileUuid row }, .ok row)

/-! ## The part rows -/

/-- A row is listed exactly if it is in the table. -/
theorem mem_partRows {t : UploadTables} {uploadId : ByteString} {row : UploadedPart} :
    row ∈ t.partRows uploadId ↔ row.uploadId = uploadId ∧
      t.parts.get? (uploadId, row.partNumber) = some (row.etag, row.size) := by
  rw [partRows, List.mem_map, InsertionMap.get?_eq_some_iff]
  constructor
  · rintro ⟨⟨⟨id, n⟩, etag, size⟩, he, rfl⟩
    obtain ⟨hmem, hid⟩ := List.mem_filter.mp he
    obtain rfl := of_decide_eq_true hid
    exact ⟨rfl, hmem⟩
  · rintro ⟨rfl, hmem⟩
    exact ⟨_, List.mem_filter.mpr ⟨hmem, decide_eq_true rfl⟩, rfl⟩

/-- Every part number is listed once. -/
theorem nodup_partRows (t : UploadTables) (uploadId : ByteString) :
    ((t.partRows uploadId).map (·.partNumber)).Nodup := by
  rw [partRows, List.map_map]
  have hkeys : ((t.parts.entries.filter (fun e => decide (e.1.1 = uploadId))).map Prod.fst).Nodup :=
    t.parts.nodup.sublist (List.Sublist.map Prod.fst List.filter_sublist)
  rw [List.nodup_map_iff_inj_on hkeys.of_map]
  intro a ha b hb hab
  have hid : a.1.1 = b.1.1 := (of_decide_eq_true (List.mem_filter.mp ha).2).trans
    (of_decide_eq_true (List.mem_filter.mp hb).2).symm
  exact List.inj_on_of_nodup_map hkeys ha hb (Prod.ext hid hab)

theorem perm_sortByPart {α : Type} (number : α → Int) (rows : List α) :
    (sortByPart number rows).Perm rows := List.perm_insertionSort _ rows

/-- Rows of different numbers are sorted strictly. -/
theorem pairwise_sortByPart {α : Type} {number : α → Int} {rows : List α}
    (h : (rows.map number).Nodup) : ((sortByPart number rows).map number).Pairwise (· < ·) := by
  have hle : ((sortByPart number rows).map number).Pairwise (· ≤ ·) := by
    rw [List.pairwise_map]
    exact List.pairwise_insertionSort _ rows
  have hnodup : ((sortByPart number rows).map number).Nodup :=
    ((perm_sortByPart number rows).map number).nodup_iff.mpr h
  exact (hle.and hnodup).imp (fun hab => lt_of_le_of_ne hab.1 hab.2)

/-- What is sorted already stays as it is. -/
theorem sortByPart_sorted {α : Type} {number : α → Int} {rows : List α}
    (h : (rows.map number).Pairwise (· < ·)) : sortByPart number rows = rows := by
  refine List.Pairwise.insertionSort_eq ?_
  rw [List.pairwise_map] at h
  exact h.imp (fun hab => Int.le_of_lt hab)

/-! ## What the operations do to the rows -/

/-- The row of an upload as it was inserted. -/
def declared (t : UploadTables) (uploadId : ByteString) : Option MultipartUpload :=
  (t.uploads.get? uploadId).map (fun upload => { upload with status := .uploading })

/-- Every part belongs to an upload. -/
def Consistent (t : UploadTables) : Prop :=
  ∀ uploadId n row, t.parts.get? (uploadId, n) = some row → (t.declared uploadId).isSome = true

theorem consistent_empty : Consistent empty := by
  intro uploadId n row h
  cases h

theorem Consistent.congr {t t' : UploadTables} (h : Consistent t)
    (hdeclared : t'.declared = t.declared) (hparts : t'.parts = t.parts) : Consistent t' := by
  intro uploadId n row hrow
  rw [hparts] at hrow
  rw [hdeclared]
  exact h uploadId n row hrow

theorem createMultipartUpload_spec (t : UploadTables) (io : InsertIo) (upload : MultipartUpload) :
    (t.createMultipartUpload io upload).1.parts = t.parts ∧
    (((t.createMultipartUpload io upload).1 = t ∧
        ∀ row, (t.createMultipartUpload io upload).2 ≠ .ok row) ∨
      ((t.createMultipartUpload io upload).2 = .ok (newUpload io upload) ∧
        t.declared (newUpload io upload).uploadId = none ∧
        ∀ id, (t.createMultipartUpload io upload).1.declared id
          = if id = (newUpload io upload).uploadId then some (newUpload io upload)
            else t.declared id)) := by
  rw [createMultipartUpload]
  cases io.exec with
  | some err => exact ⟨rfl, Or.inl ⟨rfl, by rintro _ ⟨⟩⟩⟩
  | none =>
      dsimp only
      split
      · exact ⟨rfl, Or.inl ⟨rfl, by rintro _ ⟨⟩⟩⟩
      · rename_i hexists
        refine ⟨rfl, Or.inr ⟨rfl, ?_, ?_⟩⟩
        · rw [Bool.not_eq_true, Option.isSome_eq_false_iff, Option.isNone_iff_eq_none] at hexists
          rw [declared, hexists]
          rfl
        · intro id
          rw [declared, InsertionMap.get?_insert]
          split
          · rfl
          · rfl

theorem updateMultipartStatus_spec (t : UploadTables) (exec : Option ByteString)
    (uploadId : ByteString) (status : MultipartStatus) :
    (t.updateMultipartStatus exec uploadId status).1.parts = t.parts ∧
    (t.updateMultipartStatus exec uploadId status).1.declared = t.declared := by
  fun_cases updateMultipartStatus t exec uploadId status with
  | case1 err => exact ⟨rfl, rfl⟩
  | case2 upload hget =>
      refine ⟨rfl, ?_⟩
      funext id
      rw [declared, declared, InsertionMap.get?_insert]
      split
      · rename_i hid
        rw [hid, hget]
        rfl
      · rfl
  | case3 hget => exact ⟨rfl, rfl⟩

theorem deleteMultipartUpload_spec (t : UploadTables) (execParts execUpload : Option ByteString)
    (uploadId : ByteString) (hconsistent : Consistent t) :
    Consistent (t.deleteMultipartUpload execParts execUpload uploadId).1 ∧
    (∀ id row, (t.deleteMultipartUpload execParts execUpload uploadId).1.declared id = some row →
      t.declared id = some row) ∧
    ∀ key row, (t.deleteMultipartUpload execParts execUpload uploadId).1.parts.get? key = some row →
      t.parts.get? key = some row := by
  have hfilter : ∀ key row,
      (t.parts.filterKeys (fun key => decide (key.1 ≠ uploadId))).get? key = some row →
      key.1 ≠ uploadId ∧ t.parts.get? key = some row := by
    intro key row h
    obtain ⟨htest, hget⟩ := InsertionMap.get?_filterKeys.mp h
    exact ⟨of_decide_eq_true htest, hget⟩
  fun_cases deleteMultipartUpload t execParts execUpload uploadId with
  | case1 err => exact ⟨hconsistent, fun _ _ h => h, fun _ _ h => h⟩
  | case2 deleted err =>
      refine ⟨?_, fun _ _ h => h, fun key row h => (hfilter key row h).2⟩
      intro id n row h
      exact hconsistent id n row (hfilter (id, n) row h).2
  | case3 deleted =>
      refine ⟨?_, ?_, fun key row h => (hfilter key row h).2⟩
      · intro id n row h
        obtain ⟨hother, hget⟩ := hfilter (id, n) row h
        have hrow := hconsistent id n row hget
        rw [declared] at hrow ⊢
        rw [InsertionMap.get?_erase, if_neg hother]
        exact hrow
      · intro id row h
        rw [declared, InsertionMap.get?_erase] at h
        split at h
        · cases h
        · exact h

theorem insertFile_spec (t : UploadTables) (io : InsertIo) (file : FileInfo) :
    (t.insertFile io file).1.parts = t.parts ∧
    (t.insertFile io file).1.declared = t.declared := by
  fun_cases insertFile t io file with
  | case1 err hexec => exact ⟨rfl, rfl⟩
  | case2 hexec row hexists => exact ⟨rfl, rfl⟩
  | case3 hexec row hexists => exact ⟨rfl, rfl⟩

theorem declared_of_get {t : UploadTables} {uploadId : ByteString} {upload : MultipartUpload}
    (h : t.uploads.get? uploadId = some upload) :
    t.declared uploadId = some { upload with status := .uploading } := by
  rw [declared, h]
  rfl

theorem getMultipartUpload_ok {t : UploadTables} {exec : Option ByteString}
    {uploadId : ByteString} {upload : MultipartUpload}
    (h : t.getMultipartUpload exec uploadId = .ok upload) :
    t.uploads.get? uploadId = some upload := by
  cases exec with
  | some err => cases h
  | none =>
      rw [getMultipartUpload] at h
      split at h
      · rename_i hget
        rw [hget, Except.ok.inj h]
      · cases h

theorem getUploadedParts_ok {t : UploadTables} {exec : Option ByteString} {uploadId : ByteString}
    {rows : List UploadedPart} (h : t.getUploadedParts exec uploadId = .ok rows) :
    rows = sortByPart (·.partNumber) (t.partRows uploadId) := by
  cases exec with
  | some err => cases h
  | none => exact (Except.ok.inj h).symm

end UploadTables

end VHono
