import VHono.LikePatterns
import VHono.LiteralIntegrity
import VHono.OffsetPages

/-! # Listing the records of files

    `list_files` counts the rows that meet the conditions and asks for one page
    of them.  What SQLite answers is a relation: it selects by LIKE, orders by
    a column, rows of equal value in any order, and cuts out the page. -/

namespace VHono

open ByteString SqliteLexer

/-- A row of `file_info` with all of its columns. -/
structure FileRow where
  id        : Int
  file      : FileInfo
  createdAt : Int
  updatedAt : Int
  deriving DecidableEq, Repr

/-- The table: `file_uuid` is unique. -/
structure FileTable where
  rows   : List FileRow
  unique : (rows.map (fun row => row.file.fileUuid)).Nodup

structure FileListResult where
  files      : List FileRow
  totalCount : Int
  hasMore    : Bool
  deriving DecidableEq, Repr

/-- `s.int()` of a printed number, which stops at the bounds of an `int`. -/
def printedInt (n : Int) : Int := max (-2 ^ 31) (min n (2 ^ 31 - 1))

/-- The record that is read from a row. -/
def readRow (row : FileRow) : FileRow := { row with id := printedInt row.id }

/-- What the two statements of a listing are answered with. -/
structure ListAnswer where
  count : Except ByteString (List Int)
  rows  : Except ByteString (List FileRow)

def listFiles (options : FileListOptions) (answer : ListAnswer) : Except ByteString FileListResult :=
  match answer.count with
  | .error err => .error (ascii "Failed to count files: " ++ err)
  | .ok counts =>
    let totalCount := match counts with
      | [] => 0
      | n :: _ => printedInt n
    match answer.rows with
    | .error err => .error (ascii "Failed to list files: " ++ err)
    | .ok rows =>
      let files := rows.map readRow
      .ok ⟨files, totalCount,
        decide ((options.offset + (files.length : Int)).bmod (2 ^ 32) < totalCount)⟩

/-! ## What SQLite answers -/

inductive FileColumn
  | id
  | fileUuid
  | fileHash
  | fileName
  | fileSize
  | fileType
  | storageType
  | bucket
  | objectKey
  | createdAt
  | updatedAt
  | metadata
  deriving DecidableEq, Repr

namespace FileColumn

def name : FileColumn → ByteString
  | id => ascii "id"
  | fileUuid => ascii "file_uuid"
  | fileHash => ascii "file_hash"
  | fileName => ascii "file_name"
  | fileSize => ascii "file_size"
  | fileType => ascii "file_type"
  | storageType => ascii "storage_type"
  | bucket => ascii "bucket"
  | objectKey => ascii "object_key"
  | createdAt => ascii "created_at"
  | updatedAt => ascii "updated_at"
  | metadata => ascii "metadata"

/-- Numbers are compared as numbers and come before texts, which are compared byte by byte. -/
abbrev Value := Int ⊕ₗ List Nat

def int (n : Int) : Value := toLex (Sum.inl n)

def text (s : ByteString) : Value := toLex (Sum.inr (s.map UInt8.toNat))

def value (column : FileColumn) (row : FileRow) : Value :=
  match column with
  | id => int row.id
  | fileUuid => text row.file.fileUuid
  | fileHash => text row.file.fileHash
  | fileName => text row.file.fileName
  | fileSize => int row.file.fileSize
  | fileType => text row.file.fileType
  | storageType => text row.file.storageType
  | bucket => text row.file.bucket
  | objectKey => text row.file.objectKey
  | createdAt => int row.createdAt
  | updatedAt => int row.updatedAt
  | metadata => text row.file.metadata

end FileColumn

/-- The row meets the conditions of the query. -/
def FileListOptions.selects (options : FileListOptions) (row : FileRow) : Bool :=
  (options.bucket = [] || row.file.bucket = options.bucket) &&
  (options.pfx = [] || LikePatterns.like (options.pfx ++ ascii "%") row.file.objectKey) &&
  (options.storageType = [] || row.file.storageType = options.storageType)

def FileTable.selected (t : FileTable) (options : FileListOptions) : List FileRow :=
  t.rows.filter options.selects

/-- A token of the statement is none of SQLite's. -/
def Refused (ps : List SqlPart) : Prop := ∃ bad, .illegal bad ∈ lex (renderSql ps)

/-- The answers of SQLite.  A statement that is lexed as it is meant is answered, one with an
    illegal token is refused; of any other nothing is said. -/
structure Answers (t : FileTable) (options : FileListOptions) (answer : ListAnswer) : Prop where
  count         : Intact .lenient options.countSql →
    answer.count = .ok [((t.selected options).length : Int)]
  count_refused : ¬ Intact .lenient options.countSql → Refused options.countSql →
    ∃ err, answer.count = .error err
  rows          : ∀ column : FileColumn, column.name = options.orderBy →
    Intact .lenient options.pageSql →
    ∃ s, OffsetPages.OrderedBy column.value options.orderDesc (t.selected options) s ∧
      answer.rows = .ok (OffsetPages.window s options.offset.toNat options.pageLimit.toNat)
  rows_refused  : ¬ Intact .lenient options.pageSql → Refused options.pageSql →
    ∃ err, answer.rows = .error err

/-! ## All pages -/

/-- The options of the `k`th page of a listing by prefix. -/
def listOptions (pfx : ByteString) (column : FileColumn) (desc : Bool) (limit : Int) (k : Nat) :
    FileListOptions where
  pfx := pfx
  limit := limit
  offset := k * limit
  orderBy := column.name
  orderDesc := desc

/-- The files of the pages from the `k`th on, as long as there are more; at most so many pages. -/
def follow (page : Nat → Except ByteString FileListResult) :
    Nat → Nat → Option (Except ByteString (List FileRow))
  | 0, _ => none
  | fuel + 1, k =>
    match page k with
    | .error err => some (.error err)
    | .ok result =>
      if result.hasMore then
        (follow page fuel (k + 1)).map (fun rest => rest.map (fun files => result.files ++ files))
      else some (.ok result.files)

/-- The rows whose key starts with the prefix. -/
def FileTable.under (t : FileTable) (pfx : ByteString) : List FileRow :=
  t.rows.filter (fun row => startsWith row.file.objectKey pfx)

/-- The pages, whatever the limit and the order of equal rows, are the rows under the prefix. -/
def ListsUnder (t : FileTable) (pfx : ByteString) (column : FileColumn) (desc : Bool) : Prop :=
  ∀ limit : Int, 1 ≤ limit → limit < 2 ^ 31 → ∀ db : Nat → ListAnswer,
    (∀ k, Answers t (listOptions pfx column desc limit k) (db k)) →
    ∃ fuel files,
      follow (fun k => listFiles (listOptions pfx column desc limit k) (db k)) fuel 0
        = some (.ok files) ∧
      files.Perm ((t.under pfx).map readRow)

/-- No key is taken for one under the prefix, or missed; the column tells the rows apart, and they
    can be counted. -/
structure Listable (t : FileTable) (pfx : ByteString) (column : FileColumn) : Prop where
  printable : 0 ∉ pfx
  like_eq   : ∀ row ∈ t.rows,
    LikePatterns.like (pfx ++ ascii "%") row.file.objectKey = startsWith row.file.objectKey pfx
  distinct  : ((t.under pfx).map column.value).Nodup
  countable : (t.under pfx).length < 2 ^ 31

end VHono
