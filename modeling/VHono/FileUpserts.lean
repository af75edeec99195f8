import VHono.FileRecords
import VHono.MachineRuns

/-! # Records inserted or updated

    A file is recorded under its hash, bucket and object key.  Whether its
    record is updated is decided by the first row with its hash: if that row is
    of another bucket or key, a new row is inserted, also when a later row with
    the hash is of the same bucket and key. -/

namespace VHono

open ByteString MachineRuns

/-- The arguments of `insert_or_update_file`. -/
structure UpsertRequest where
  fileHash    : ByteString
  fileName    : ByteString
  fileSize    : Int
  fileType    : ByteString
  storageType : ByteString
  bucket      : ByteString
  objectKey   : ByteString
  deriving DecidableEq, Repr

/-- The record made of the arguments. -/
def UpsertRequest.file (request : UpsertRequest) (fileUuid : ByteString) : FileInfo where
  fileUuid := fileUuid
  fileHash := request.fileHash
  fileName := request.fileName
  fileSize := request.fileSize
  fileType := request.fileType
  storageType := request.storageType
  bucket := request.bucket
  objectKey := request.objectKey
  metadata := []

namespace UploadTables

/-- What the statements meet: the error of the lookup, and what the insertion and the update
    meet. -/
structure UpsertIo where
  query  : Option ByteString := none
  insert : InsertIo := {}
  update : UpdateIo := {}

/-- `FileInfo{}` -/
def noFile : FileInfo := ⟨[], [], [], 0, [], [], [], [], []⟩

def insertOrUpdateFile (t : UploadTables) (io : UpsertIo) (request : UpsertRequest) :
    UploadTables × Except ByteString FileInfo :=
  let existing := match t.getFileByHash io.query request.fileHash with
    | .ok file => file
    | .error _ => noFile
  if existing.fileUuid ≠ [] ∧ existing.bucket = request.bucket ∧
      existing.objectKey = request.objectKey then
    t.updateFile io.update existing.fileUuid request.fileName request.fileType existing.metadata
  else
    t.insertFile io.insert (request.file [])

/-- The arguments that `insert_or_update_file_simple` passes on. -/
def simpleRequest (fileHash fileName : ByteString) (fileSize : Int) (fileType : ByteString) :
    UpsertRequest :=
  ⟨fileHash, fileName, fileSize, fileType, ascii "local", ascii "default", fileName⟩

def insertOrUpdateFileSimple (t : UploadTables) (io : UpsertIo) (fileHash fileName : ByteString)
    (fileSize : Int) (fileType : ByteString) : UploadTables × Except ByteString FileInfo :=
  t.insertOrUpdateFile io (simpleRequest fileHash fileName fileSize fileType)

/-! ## Runs -/

inductive UpsertCall
  | insertOrUpdateFile (io : UpsertIo) (request : UpsertRequest)
  | insertOrUpdateFileSimple (io : UpsertIo) (fileHash fileName : ByteString) (fileSize : Int)
      (fileType : ByteString)

namespace UpsertCall

def io : UpsertCall → UpsertIo
  | .insertOrUpdateFile io _ => io
  | .insertOrUpdateFileSimple io _ _ _ _ => io

/-- The arguments of a call, those that a simple one leaves out filled in. -/
def request : UpsertCall → UpsertRequest
  | .insertOrUpdateFile _ request => request
  | .insertOrUpdateFileSimple _ fileHash fileName fileSize fileType =>
      simpleRequest fileHash fileName fileSize fileType

end UpsertCall

def upsert (t : UploadTables) : UpsertCall → UploadTables × Except ByteString FileInfo
  | .insertOrUpdateFile io request => t.insertOrUpdateFile io request
  | .insertOrUpdateFileSimple io fileHash fileName fileSize fileType =>
      t.insertOrUpdateFileSimple io fileHash fileName fileSize fileType

/-- The tables, and the arguments of the calls that have been answered with a record. -/
abbrev Recorded := UploadTables × List UpsertRequest

def upsertStep (s : Recorded) (call : UpsertCall) : Recorded × Except ByteString FileInfo :=
  match s.1.upsert call with
  | (t, .ok file) => ((t, call.request :: s.2), .ok file)
  | (t, .error err) => ((t, s.2), .error err)

theorem upsert_eq (t : UploadTables) (call : UpsertCall) :
    t.upsert call = t.insertOrUpdateFile call.io call.request := by
  cases call <;> rfl

/-! ## Identities -/

/-- The row is of the file that the arguments name. -/
def Names (request : UpsertRequest) (row : FileInfo) : Prop :=
  row.fileHash = request.fileHash ∧ row.bucket = request.bucket ∧ row.objectKey = request.objectKey

/-- At most one row has any file hash, bucket and object key. -/
def UniqueFiles (t : UploadTables) : Prop :=
  ∀ u₁ u₂ row₁ row₂, t.files.get? u₁ = some row₁ → t.files.get? u₂ = some row₂ →
    row₁.fileHash = row₂.fileHash → row₁.bucket = row₂.bucket → row₁.objectKey = row₂.objectKey →
    u₁ = u₂

/-- A call with the arguments of one that was answered leaves the number of rows. -/
def RepeatsKeep (e : Event Recorded UpsertCall (Except ByteString FileInfo)) : Prop :=
  e.input.request ∈ e.before.2 →
    (upsertStep e.before e.input).1.1.files.len = e.before.1.files.len

/-- If a row is of the file already, the lookup by hash finds it: the query is answered, and the
    first row with the hash has an id and is of that bucket and key.  Or the insertion that
    follows fails. -/
def FindsRow (t : UploadTables) (call : UpsertCall) : Prop :=
  (∃ u row, t.files.get? u = some row ∧ Names call.request row) →
    (call.io.query = none ∧ ∃ row rows, t.rowsByHash call.request.fileHash = row :: rows ∧
      row.fileUuid ≠ [] ∧ row.bucket = call.request.bucket ∧
      row.objectKey = call.request.objectKey) ∨
    call.io.insert.exec ≠ none ∨ (t.files.get? call.io.insert.fileUuid).isSome = true

/-- Every row is kept under its own id. -/
def Keyed (t : UploadTables) : Prop := ∀ u row, t.files.get? u = some row → row.fileUuid = u

theorem rowsByHash_head {t : UploadTables} {fileHash : ByteString} {row : FileInfo}
    {rows : List FileInfo} (hkeyed : Keyed t) (h : t.rowsByHash fileHash = row :: rows) :
    t.files.get? row.fileUuid = some row ∧ row.fileHash = fileHash := by
  have hmem : row ∈ t.rowsByHash fileHash := by
    rw [h]
    exact List.mem_cons_self ..
  obtain ⟨hentry, hhash⟩ := List.mem_filter.mp hmem
  obtain ⟨⟨u, row'⟩, hin, rfl⟩ := List.mem_map.mp hentry
  have hget := InsertionMap.get?_of_mem_entries hin
  exact ⟨(hkeyed u row' hget).symm ▸ hget, of_decide_eq_true hhash⟩

/-- An insertion without an id of its own: it fails, or the row is kept under the generated id. -/
theorem insertFile_generated (t : UploadTables) (io : InsertIo) (file : FileInfo)
    (hid : file.fileUuid = []) :
    ((io.exec ≠ none ∨ (t.files.get? io.fileUuid).isSome = true) ∧
      (t.insertFile io file).1.files = t.files ∧ ∀ row, (t.insertFile io file).2 ≠ .ok row) ∨
    (io.exec = none ∧ t.files.get? io.fileUuid = none ∧
      (t.insertFile io file).1.files
        = t.files.insert io.fileUuid { file with fileUuid := io.fileUuid }) := by
  have huuid : (if file.fileUuid ≠ [] then file.fileUuid else io.fileUuid) = io.fileUuid := by
    rw [hid]
    exact if_neg (fun h => h rfl)
  fun_cases insertFile t io file with
  | case1 err hexec =>
      exact Or.inl ⟨Or.inl (by rw [hexec]; exact Option.some_ne_none err), rfl, by rintro _ ⟨⟩⟩
  | case2 row hexec hexists =>
      rw [show row.fileUuid = io.fileUuid from huuid] at hexists
      exact Or.inl ⟨Or.inr hexists, rfl, by rintro _ ⟨⟩⟩
  | case3 row hexec hexists =>
      have hrow : row = { file with fileUuid := io.fileUuid } := by rw [← huuid]
      rw [hrow] at hexists ⊢
      rw [Bool.not_eq_true, Option.isSome_eq_false_iff, Option.isNone_iff_eq_none] at hexists
      exact Or.inr ⟨hexec, hexists, rfl⟩

/-- **WHAT AN UPSERT DOES.**  It updates the row that the lookup finds, which stays a row of the
    file; or, where the lookup finds no row of the file, it inserts one; or it fails. -/
theorem insertOrUpdateFile_spec {t : UploadTables} (hkeyed : Keyed t) (io : UpsertIo)
    (request : UpsertRequest) :
    (∃ row rows row', io.query = none ∧ t.rowsByHash request.fileHash = row :: rows ∧
      row.fileUuid ≠ [] ∧ Names request row ∧ Names request row' ∧ row'.fileUuid = row.fileUuid ∧
      t.files.get? row.fileUuid = some row ∧
      ((t.insertOrUpdateFile io request).1.files = t.files ∨
        (t.insertOrUpdateFile io request).1.files = t.files.insert row.fileUuid row')) ∨
    (¬ (io.query = none ∧ ∃ row rows, t.rowsByHash request.fileHash = row :: rows ∧
        row.fileUuid ≠ [] ∧ row.bucket = request.bucket ∧ row.objectKey = request.objectKey)) ∧
      (((io.insert.exec ≠ none ∨ (t.files.get? io.insert.fileUuid).isSome = true) ∧
          (t.insertOrUpdateFile io request).1.files = t.files ∧
          ∀ row, (t.insertOrUpdateFile io request).2 ≠ .ok row) ∨
        ∃ row, Names request row ∧ row.fileUuid = io.insert.fileUuid ∧
          io.insert.exec = none ∧ t.files.get? row.fileUuid = none ∧
          (t.insertOrUpdateFile io request).1.files = t.files.insert row.fileUuid row) := by
  rw [insertOrUpdateFile]
  by_cases hfinds : io.query = none ∧ ∃ row rows, t.rowsByHash request.fileHash = row :: rows ∧
      row.fileUuid ≠ [] ∧ row.bucket = request.bucket ∧ row.objectKey = request.objectKey
  · obtain ⟨hquery, row, rows, hrows, hid, hbucket, hkey⟩ := hfinds
    obtain ⟨hget, hhash⟩ := rowsByHash_head hkeyed hrows
    have hfound : t.getFileByHash io.query request.fileHash = .ok row := by
      rw [hquery, getFileByHash, hrows]
    left
    refine ⟨row, rows, { row with fileName := request.fileName, fileType := request.fileType },
      hquery, hrows, hid, ⟨hhash, hbucket, hkey⟩, ⟨hhash, hbucket, hkey⟩, rfl, hget, ?_⟩
    rw [hfound]
    dsimp only
    rw [if_pos ⟨hid, hbucket, hkey⟩, updateFile]
    split
    · exact Or.inl rfl
    · right
      rw [hget]
  · right
    refine ⟨hfinds, ?_⟩
    rw [if_neg]
    · obtain ⟨hfails, hfiles, herror⟩ | ⟨hexec, hfree, hfiles⟩ :=
        insertFile_generated t io.insert (request.file []) rfl
      · exact Or.inl ⟨hfails, hfiles, herror⟩
      · exact Or.inr ⟨request.file io.insert.fileUuid, ⟨rfl, rfl, rfl⟩, rfl, hexec, hfree, hfiles⟩
    · rintro ⟨hid, hbucket, hkey⟩
      refine hfinds ?_
      cases hquery : io.query with
      | some err =>
          rw [hquery] at hid
          exact absurd rfl hid
      | none =>
          rw [hquery, getFileByHash] at hid hbucket hkey
          cases hrows : t.rowsByHash request.fileHash with
          | nil =>
              rw [hrows] at hid
              exact absurd rfl hid
          | cons row rows =>
              rw [hrows] at hid hbucket hkey
              exact ⟨rfl, row, rows, rfl, hid, hbucket, hkey⟩

/-! ## Steps -/

/-- Some row is of the file that the arguments name. -/
def HasRow (t : UploadTables) (request : UpsertRequest) : Prop :=
  ∃ u row, t.files.get? u = some row ∧ Names request row

theorem names_unique {t : UploadTables} (h : UniqueFiles t) {request : UpsertRequest} {u₁ u₂ : ByteString}
    {row₁ row₂ : FileInfo} (hget₁ : t.files.get? u₁ = some row₁) (hget₂ : t.files.get? u₂ = some row₂)
    (hnames₁ : Names request row₁) (hnames₂ : Names request row₂) : u₁ = u₂ :=
  h u₁ u₂ row₁ row₂ hget₁ hget₂ (hnames₁.1.trans hnames₂.1.symm)
    (hnames₁.2.1.trans hnames₂.2.1.symm) (hnames₁.2.2.trans hnames₂.2.2.symm)

/-- The rows after one is written: it, and those under other ids. -/
theorem get?_written {t t' : UploadTables} {id : ByteString} {new : FileInfo}
    (hfiles : t'.files = t.files.insert id new) (u : ByteString) :
    t'.files.get? u = if u = id then some new else t.files.get? u := by
  rw [hfiles, InsertionMap.get?_insert]

theorem keyed_written {t t' : UploadTables} {id : ByteString} {new : FileInfo} (hkeyed : Keyed t)
    (hfiles : t'.files = t.files.insert id new) (hid : new.fileUuid = id) : Keyed t' := by
  intro u row hget
  rw [get?_written hfiles] at hget
  split at hget
  · next hu =>
      obtain rfl := Option.some.inj hget
      rw [hid, hu]
  · exact hkeyed u row hget

/-- A row written over one of the same file, or where there is none of it, leaves the files
    unique. -/
theorem unique_written {t t' : UploadTables} {id : ByteString} {new : FileInfo}
    {request : UpsertRequest} (h : UniqueFiles t) (hfiles : t'.files = t.files.insert id new)
    (hnew : Names request new)
    (honly : ∀ u row, t.files.get? u = some row → Names request row → u = id) : UniqueFiles t' := by
  intro u₁ u₂ row₁ row₂ hget₁ hget₂ hhash hbucket hkey
  rw [get?_written hfiles] at hget₁ hget₂
  split at hget₁
  · next hu₁ =>
      obtain rfl := Option.some.inj hget₁
      split at hget₂
      · next hu₂ => rw [hu₁, hu₂]
      · rw [hu₁]
        exact (honly u₂ row₂ hget₂
          ⟨hhash.symm.trans hnew.1, hbucket.symm.trans hnew.2.1, hkey.symm.trans hnew.2.2⟩).symm
  · split at hget₂
    · next hu₂ =>
        obtain rfl := Option.some.inj hget₂
        rw [hu₂]
        exact honly u₁ row₁ hget₁ ⟨hhash.trans hnew.1, hbucket.trans hnew.2.1, hkey.trans hnew.2.2⟩
    · exact h u₁ u₂ row₁ row₂ hget₁ hget₂ hhash hbucket hkey

/-- The files that rows are of stay, where the row that is written over is of the same file. -/
theorem hasRow_written {t t' : UploadTables} {id : ByteString} {new : FileInfo}
    {request : UpsertRequest} (hfiles : t'.files = t.files.insert id new)
    (hold : ∀ old, t.files.get? id = some old → Names request old → Names request new)
    (h : HasRow t request) : HasRow t' request := by
  obtain ⟨u, row, hget, hnames⟩ := h
  by_cases hu : u = id
  · refine ⟨id, new, ?_, hold row (hu ▸ hget) hnames⟩
    rw [get?_written hfiles, if_pos rfl]
  · refine ⟨u, row, ?_, hnames⟩
    rw [get?_written hfiles, if_neg hu]
    exact hget

theorem hasRow_new {t' t : UploadTables} {id : ByteString} {new : FileInfo} {request : UpsertRequest}
    (hfiles : t'.files = t.files.insert id new) (hnew : Names request new) : HasRow t' request :=
  ⟨id, new, by rw [get?_written hfiles, if_pos rfl], hnew⟩

/-- The rows that an upsert leaves. -/
structure Upserted (t t' : UploadTables) (call : UpsertCall) : Prop where
  keyed   : Keyed t'
  keeps   : ∀ request, HasRow t request → HasRow t' request
  same    : FindsRow t call → HasRow t call.request → t'.files.len = t.files.len
  unique  : FindsRow t call → UniqueFiles t → UniqueFiles t'
  finds   : UniqueFiles t' → FindsRow t call

/-- **ONE UPSERT** keeps the files unique exactly if it finds the row of its file. -/
theorem upsert_spec {t : UploadTables} (hkeyed : Keyed t) (call : UpsertCall) :
    Upserted t (t.upsert call).1 call ∧
      ∀ file, (t.upsert call).2 = .ok file → HasRow (t.upsert call).1 call.request := by
  rw [upsert_eq]
  obtain ⟨row, rows, row', hquery, hrows, hid, hnames, hnames', hid', hget, hfiles⟩ |
    ⟨hmisses, ⟨hfails, hfiles, herror⟩ | ⟨row, hnames, hid, hexec, hfree, hfiles⟩⟩ :=
      insertOrUpdateFile_spec hkeyed call.io call.request
  · -- the row of the file is found and written over, or the update fails
    have hfinds : FindsRow t call :=
      fun _ => Or.inl ⟨hquery, row, rows, hrows, hid, hnames.2.1, hnames.2.2⟩
    rcases hfiles with hsame | hwritten
    · have hget' : ∀ u, (t.insertOrUpdateFile call.io call.request).1.files.get? u = t.files.get? u :=
        fun u => by rw [hsame]
      refine ⟨⟨?_, ?_, fun _ _ => by rw [hsame], ?_, fun _ => hfinds⟩, ?_⟩
      · intro u row hrow
        exact hkeyed u row (hget' u ▸ hrow)
      · rintro request ⟨u, row, hrow, hn⟩
        exact ⟨u, row, (hget' u).trans hrow, hn⟩
      · intro _ hunique u₁ u₂ row₁ row₂ h₁ h₂
        exact hunique u₁ u₂ row₁ row₂ (hget' u₁ ▸ h₁) (hget' u₂ ▸ h₂)
      · intro _ _
        exact ⟨row.fileUuid, row, (hget' _).trans hget, hnames⟩
    · refine ⟨⟨keyed_written hkeyed hwritten hid', ?_, ?_, ?_, fun _ => hfinds⟩, ?_⟩
      · intro request
        refine hasRow_written hwritten ?_
        intro old hold hn
        obtain rfl := Option.some.inj (hget.symm.trans hold)
        exact ⟨hnames'.1.trans (hnames.1.symm.trans hn.1),
          hnames'.2.1.trans (hnames.2.1.symm.trans hn.2.1),
          hnames'.2.2.trans (hnames.2.2.symm.trans hn.2.2)⟩
      · intro _ _
        rw [hwritten]
        exact InsertionMap.len_insert_of_get? hget row'
      · intro _ hunique
        exact unique_written hunique hwritten hnames'
          (fun u row₀ hrow₀ hn => names_unique hunique hrow₀ hget hn hnames)
      · intro _ _
        exact hasRow_new hwritten hnames'
  · -- the insertion fails
    have hget' : ∀ u, (t.insertOrUpdateFile call.io call.request).1.files.get? u = t.files.get? u :=
      fun u => by rw [hfiles]
    refine ⟨⟨?_, ?_, fun _ _ => by rw [hfiles], ?_, fun _ _ => Or.inr hfails⟩, ?_⟩
    · intro u row hrow
      exact hkeyed u row (hget' u ▸ hrow)
    · rintro request ⟨u, row, hrow, hn⟩
      exact ⟨u, row, (hget' u).trans hrow, hn⟩
    · intro _ hunique u₁ u₂ row₁ row₂ h₁ h₂
      exact hunique u₁ u₂ row₁ row₂ (hget' u₁ ▸ h₁) (hget' u₂ ▸ h₂)
    · intro file hok
      exact absurd hok (herror file)
  · -- a row is inserted although the lookup found none
    have hnone : FindsRow t call → ¬ HasRow t call.request := by
      intro hfinds hrow
      rcases hfinds hrow with hfound | hexec' | htaken
      · exact hmisses hfound
      · exact hexec' hexec
      · rw [← hid, hfree] at htaken
        cases htaken
    refine ⟨⟨keyed_written hkeyed hfiles rfl, ?_, ?_, ?_, ?_⟩, fun _ _ => hasRow_new hfiles hnames⟩
    · intro request
      refine hasRow_written hfiles ?_
      intro old hold
      exact nomatch hfree.symm.trans hold
    · intro hfinds hrow
      exact absurd hrow (hnone hfinds)
    · intro hfinds hunique
      refine unique_written hunique hfiles hnames ?_
      intro u row₀ hrow₀ hn
      exact absurd ⟨u, row₀, hrow₀, hn⟩ (hnone hfinds)
    · rintro hunique ⟨u, row₀, hrow₀, hn⟩
      have hne : u ≠ row.fileUuid := by
        rintro rfl
        exact nomatch hfree.symm.trans hrow₀
      refine absurd (names_unique hunique ?_ ?_ hn hnames) hne
      · rw [get?_written hfiles, if_neg hne]
        exact hrow₀
      · rw [get?_written hfiles, if_pos rfl]

/-! ## Runs of upserts -/

/-- What a run of upserts that find their rows keeps. -/
structure Faithful (s : Recorded) : Prop where
  keyed  : Keyed s.1
  unique : UniqueFiles s.1
  held   : ∀ request ∈ s.2, HasRow s.1 request

theorem upsertStep_tables (s : Recorded) (call : UpsertCall) :
    (upsertStep s call).1.1 = (s.1.upsert call).1 ∧
      ∀ request ∈ (upsertStep s call).1.2, request ∈ s.2 ∨
        (request = call.request ∧ ∃ file, (s.1.upsert call).2 = .ok file) := by
  rw [upsertStep]
  cases hout : s.1.upsert call with
  | mk t output =>
      cases output with
      | error err => exact ⟨rfl, fun _ h => Or.inl h⟩
      | ok file =>
          refine ⟨rfl, ?_⟩
          intro request h
          rcases List.mem_cons.mp h with rfl | hmem
          · exact Or.inr ⟨rfl, file, rfl⟩
          · exact Or.inl hmem

theorem faithful_step {s : Recorded} (h : Faithful s) {call : UpsertCall}
    (hfinds : FindsRow s.1 call) (past : List UpsertCall) :
    Faithful (upsertStep s call).1 ∧ RepeatsKeep ⟨past, s, call, (upsertStep s call).2⟩ := by
  obtain ⟨htables, hdone⟩ := upsertStep_tables s call
  obtain ⟨hspec, hok⟩ := upsert_spec h.keyed call
  rw [← htables] at hspec hok
  refine ⟨⟨hspec.keyed, hspec.unique hfinds h.unique, ?_⟩, ?_⟩
  · intro request hmem
    rcases hdone request hmem with hold | ⟨rfl, file, hfile⟩
    · exact hspec.keeps request (h.held request hold)
    · exact hok file hfile
  · intro hrepeat
    exact hspec.same hfinds (h.held _ hrepeat)

/-- One content under two keys, and under the second again. -/
def sampleUpserts : List UpsertCall :=
  [.insertOrUpdateFile { insert := { fileUuid := ascii "u" } }
      ⟨ascii "h", ascii "a", 1, ascii "t", ascii "local", ascii "b", ascii "k1"⟩,
    .insertOrUpdateFile { insert := { fileUuid := ascii "v" } }
      ⟨ascii "h", ascii "a", 1, ascii "t", ascii "local", ascii "b", ascii "k2"⟩,
    .insertOrUpdateFile { insert := { fileUuid := ascii "w" } }
      ⟨ascii "h", ascii "a", 1, ascii "t", ascii "local", ascii "b", ascii "k2"⟩]

end UploadTables

end VHono
