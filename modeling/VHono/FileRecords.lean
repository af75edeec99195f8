import VHono.UploadTables

/-! # The records of files

    The queries and statements over the rows of `file_info`, which are kept in
    the order in which they were inserted.  A query by hash answers with the
    first row it meets.  As for the other tables, a statement may fail. -/

namespace VHono

open ByteString

namespace UploadTables

def getFileByUuid (t : UploadTables) (exec : Option ByteString) (fileUuid : ByteString) :
    Except ByteString FileInfo :=
  match exec with
  | some err => .error (ascii "Failed to query file info: " ++ err)
  | none =>
    match t.files.get? fileUuid with
    | some file => .ok file
    | none => .error (ascii "File not found")

/-- The rows with a hash, oldest first. -/
def rowsByHash (t : UploadTables) (fileHash : ByteString) : List FileInfo :=
  (t.files.entries.map Prod.snd).filter (fun file => decide (file.fileHash = fileHash))

def getFileByHash (t : UploadTables) (exec : Option ByteString) (fileHash : ByteString) :
    Except ByteString FileInfo :=
  match exec with
  | some err => .error (ascii "Failed to query file info: " ++ err)
  | none =>
    match t.rowsByHash fileHash with
    | file :: _ => .ok file
    | [] => .error (ascii "File not found")

def deleteFile (t : UploadTables) (exec : Option ByteString) (fileUuid : ByteString) :
    UploadTables × Except ByteString Unit :=
  match exec with
  | some err => (t, .error (ascii "Failed to delete file info: " ++ err))
  | none => ({ t with files := t.files.erase fileUuid }, .ok ())

/-- The errors of the update and of the query that reads the row back. -/
structure UpdateIo where
  exec : Option ByteString := none
  find : Option ByteString := none

def updateFile (t : UploadTables) (io : UpdateIo) (fileUuid fileName fileType metadata : ByteString) :
    UploadTables × Except ByteString FileInfo :=
  match io.exec with
  | some err => (t, .error (ascii "Failed to update file info: " ++ err))
  | none =>
    let updated := match t.files.get? fileUuid with
      | some file =>
        let row := { file with fileName := fileName, fileType := fileType, metadata := metadata }
        { t with files := t.files.insert fileUuid row }
      | none => t
    (updated, updated.getFileByUuid io.find fileUuid)

/-! ## What the operations do to the rows -/

/-- What an insertion does: nothing, or a row under an id that was free. -/
theorem insertFile_rows (t : UploadTables) (io : InsertIo) (file : FileInfo) :
    ((t.insertFile io file).1.files = t.files ∧
      ∀ row, (t.insertFile io file).2 ≠ .ok row) ∨
    ∃ row, (t.insertFile io file).2 = .ok row ∧
      row = { file with fileUuid := row.fileUuid } ∧ t.files.get? row.fileUuid = none ∧
      (t.insertFile io file).1.files = t.files.insert row.fileUuid row := by
  fun_cases insertFile t io file with
  | case1 err hexec => exact Or.inl ⟨rfl, by rintro _ ⟨⟩⟩
  | case2 row hexec hexists => exact Or.inl ⟨rfl, by rintro _ ⟨⟩⟩
  | case3 row hexec hexists =>
      rw [Bool.not_eq_true, Option.isSome_eq_false_iff, Option.isNone_iff_eq_none] at hexists
      exact Or.inr ⟨row, rfl, rfl, hexists, rfl⟩

theorem getFileByUuid_ok {t : UploadTables} {exec : Option ByteString} {fileUuid : ByteString}
    {file : FileInfo} (h : t.getFileByUuid exec fileUuid = .ok file) :
    t.files.get? fileUuid = some file := by
  cases exec with
  | some err => cases h
  | none =>
      rw [getFileByUuid] at h
      split at h
      · rename_i hget
        rw [hget, Except.ok.inj h]
      · cases h

theorem getFileByUuid_of_get {t : UploadTables} {fileUuid : ByteString} {file : FileInfo}
    (h : t.files.get? fileUuid = some file) : t.getFileByUuid none fileUuid = .ok file := by
  rw [getFileByUuid, h]

end UploadTables

end VHono
