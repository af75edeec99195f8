import VHono.FileNames
import VHono.FileRecords
import VHono.LocalStorage
import VHono.MachineRuns
import VHono.StorageConfig

/-! # The file service

    A file is an object of the current provider and a record that names it.
    The key of the object is made of the day, the hash of the content and the
    extension of the file name.  A provider keeps its objects by their
    locations; what a bucket and a key locate, and which provider a
    configuration makes, are parameters. -/

namespace VHono

open ByteString

structure FileServiceConfig where
  defaultBucket : ByteString := ascii "default"
  maxFileSize   : Int := 5 * 1024 * 1024 * 1024

structure UploadParams where
  bucket      : ByteString
  filename    : ByteString
  contentType : ByteString
  metadata    : ByteString

structure UploadResult where
  fileUuid    : ByteString
  fileHash    : ByteString
  fileName    : ByteString
  fileSize    : Int
  fileType    : ByteString
  storageType : ByteString
  bucket      : ByteString
  objectKey   : ByteString
  etag        : ByteString
  deriving DecidableEq, Repr

/-- The storage providers: the one that a configuration makes, its name, and where it keeps the
    object of a bucket and a key. -/
structure Providers (π κ : Type) where
  create       : StorageConfig → π
  providerName : π → ByteString
  locate       : π → ByteString → ByteString → κ

/-- The service, with the objects that the providers keep and the digest function of the crypto
    module. -/
structure FileService (π κ : Type) where
  providers     : Providers π κ
  md5           : ByteString → ByteString
  config        : FileServiceConfig
  provider      : π
  currentConfig : StorageConfig
  objects       : π → κ → Option ByteString
  db            : UploadTables

namespace FileService

variable {π κ : Type}

def calculateMd5Hash (fs : FileService π κ) (data : ByteString) : ByteString :=
  LocalStorage.hexStr (fs.md5 data)

/-- `generate_object_key` on a day, given as `YYYY/MM/DD`. -/
def generateObjectKey (datePrefix filename fileHash : ByteString) : ByteString :=
  datePrefix ++ ascii "/" ++ fileHash.take 8 ++ ascii "/" ++ fileHash ++ fileExt filename

/-! ## The current provider -/

/-- The location of an object in the current provider. -/
def locate (fs : FileService π κ) (bucket key : ByteString) : κ :=
  fs.providers.locate fs.provider bucket key

/-- The object as the current provider keeps it. -/
def object (fs : FileService π κ) (bucket key : ByteString) : Option ByteString :=
  fs.objects fs.provider (fs.locate bucket key)

def notFoundMsg (fs : FileService π κ) (bucket key : ByteString) : ByteString :=
  (newNotFoundError (fs.providers.providerName fs.provider) bucket key).msg

/-- The error of a download. -/
def providerDownload (fs : FileService π κ) (error : Option ByteString) (bucket key : ByteString) :
    Except ByteString ByteString :=
  match error with
  | some err => .error err
  | none =>
    match fs.object bucket key with
    | some data => .ok data
    | none => .error (fs.notFoundMsg bucket key)

/-! ## The operations -/

/-- What an upload meets: the day, the error of the provider or its ETag, and the insertion of
    the record. -/
structure UploadIo where
  datePrefix : ByteString := []
  store      : Option ByteString := none
  etag       : ByteString := []
  insert     : UploadTables.InsertIo := {}

/-- The bucket of an upload. -/
def bucketOf (fs : FileService π κ) (params : UploadParams) : ByteString :=
  if params.bucket ≠ [] then params.bucket else fs.config.defaultBucket

/-- The key of an upload. -/
def keyOf (fs : FileService π κ) (io : UploadIo) (params : UploadParams) (data : ByteString) :
    ByteString :=
  generateObjectKey io.datePrefix params.filename (fs.calculateMd5Hash data)

/-- The record of an upload, without an id. -/
def recordOf (fs : FileService π κ) (io : UploadIo) (params : UploadParams) (data : ByteString) :
    FileInfo where
  fileUuid := []
  fileHash := fs.calculateMd5Hash data
  fileName := params.filename
  fileSize := data.length
  fileType := if params.contentType ≠ [] then params.contentType
    else inferContentType params.filename
  storageType := fs.providers.providerName fs.provider
  bucket := fs.bucketOf params
  objectKey := fs.keyOf io params data
  metadata := params.metadata

/-- The result of an upload, from its record. -/
def resultOf (info : FileInfo) (etag : ByteString) : UploadResult where
  fileUuid := info.fileUuid
  fileHash := info.fileHash
  fileName := info.fileName
  fileSize := info.fileSize
  fileType := info.fileType
  storageType := info.storageType
  bucket := info.bucket
  objectKey := info.objectKey
  etag := etag

/-- The errors of the query and of the provider. -/
structure DownloadIo where
  find  : Option ByteString := none
  fetch : Option ByteString := none

def downloadFile (fs : FileService π κ) (io : DownloadIo) (fileUuid : ByteString) :
    Except ByteString ByteString :=
  match fs.db.getFileByUuid io.find fileUuid with
  | .error err => .error err
  | .ok fileInfo => fs.providerDownload io.fetch fileInfo.bucket fileInfo.objectKey

/-- The error that the creation of the provider meets is an argument.  The manager of chunked
    uploads, which is replaced too, is not part of the service here. -/
def switchProvider (fs : FileService π κ) (create : Option ByteString) (config : StorageConfig) :
    FileService π κ × Except ByteString Unit :=
  let validation := validateStorageConfig config
  if validation.valid = false then (fs, .error validation.errorMessage)
  else
    match create with
    | some err => (fs, .error err)
    | none => ({ fs with provider := fs.providers.create config, currentConfig := config }, .ok ())

/-- A service without files, over providers that may keep objects already. -/
def new (providers : Providers π κ) (md5 : ByteString → ByteString) (config : FileServiceConfig)
    (storage : StorageConfig) (objects : π → κ → Option ByteString) : FileService π κ where
  providers := providers
  md5 := md5
  config := config
  provider := providers.create storage
  currentConfig := storage
  objects := objects
  db := .empty

/-- A switch that is refused, or fails, changes nothing. -/
theorem switchProvider_same (fs : FileService π κ) {create : Option ByteString}
    {config : StorageConfig} (h : ¬ ((validateStorageConfig config).valid = true ∧ create = none)) :
    (fs.switchProvider create config).1 = fs := by
  fun_cases switchProvider fs create config with
  | case1 validation hvalid => rfl
  | case2 validation hvalid err => rfl
  | case3 validation hvalid =>
      rw [Bool.not_eq_false] at hvalid
      exact absurd ⟨hvalid, rfl⟩ h

/-! ## Operations that change objects -/

variable [DecidableEq π] [DecidableEq κ]

/-- An object of the current provider replaced. -/
def setObject (fs : FileService π κ) (bucket key : ByteString) (content : Option ByteString) :
    FileService π κ :=
  let kept := Function.update (fs.objects fs.provider) (fs.locate bucket key) content
  { fs with objects := Function.update fs.objects fs.provider kept }

/-- The error of a deletion, and whether the deletion of an object that is not there is
    accepted. -/
structure RemoveIo where
  error          : Option ByteString := none
  acceptsMissing : Bool := false

def providerDelete (fs : FileService π κ) (io : RemoveIo) (bucket key : ByteString) :
    FileService π κ × Except ByteString Unit :=
  match io.error with
  | some err => (fs, .error err)
  | none =>
    if (fs.object bucket key).isSome = true then (fs.setObject bucket key none, .ok ())
    else if io.acceptsMissing = true then (fs, .ok ())
    else (fs, .error (fs.notFoundMsg bucket key))

def uploadFile (fs : FileService π κ) (io : UploadIo) (params : UploadParams) (data : ByteString) :
    FileService π κ × Except ByteString UploadResult :=
  if (data.length : Int) > fs.config.maxFileSize then
    (fs, .error (ascii "File size exceeds maximum allowed size: " ++ decimal data.length ++
      ascii " > " ++ intStr fs.config.maxFileSize))
  else
    let info := fs.recordOf io params data
    match io.store with
    | some err => (fs, .error err)
    | none =>
      let stored := fs.setObject info.bucket info.objectKey (some data)
      let inserted := stored.db.insertFile io.insert info
      ({ stored with db := inserted.1 },
        match inserted.2 with
        | .error err => .error err
        | .ok fileInfo => .ok (resultOf { info with fileUuid := fileInfo.fileUuid } io.etag))

structure DeleteIo where
  find      : Option ByteString := none
  remove    : RemoveIo := {}
  deleteRow : Option ByteString := none

/-- The object first, then the record. -/
def deleteFile (fs : FileService π κ) (io : DeleteIo) (fileUuid : ByteString) :
    FileService π κ × Except ByteString Unit :=
  match fs.db.getFileByUuid io.find fileUuid with
  | .error err => (fs, .error err)
  | .ok fileInfo =>
    let removed := fs.providerDelete io.remove fileInfo.bucket fileInfo.objectKey
    match removed.2 with
    | .error err => (removed.1, .error err)
    | .ok _ =>
      let deleted := removed.1.db.deleteFile io.deleteRow fileUuid
      ({ removed.1 with db := deleted.1 }, deleted.2)

end FileService

/-! ## The machine -/

inductive FileCall
  | upload (io : FileService.UploadIo) (params : UploadParams) (data : ByteString)
  | switch (create : Option ByteString) (config : StorageConfig)
  | delete (io : FileService.DeleteIo) (fileUuid : ByteString)

inductive FileOutput
  | uploaded (result : Except ByteString UploadResult)
  | switched (result : Except ByteString Unit)
  | deleted (result : Except ByteString Unit)

namespace FileService

variable {π κ : Type} [DecidableEq π] [DecidableEq κ]

def step (fs : FileService π κ) (call : FileCall) : FileService π κ × FileOutput :=
  match call with
  | .upload io params data =>
    let out := fs.uploadFile io params data
    (out.1, .uploaded out.2)
  | .switch create config =>
    let out := fs.switchProvider create config
    (out.1, .switched out.2)
  | .delete io fileUuid =>
    let out := fs.deleteFile io fileUuid
    (out.1, .deleted out.2)

/-! ## What a call does -/

theorem setObject_objects (fs : FileService π κ) (bucket key : ByteString)
    (content : Option ByteString) (p : π) (l : κ) :
    (fs.setObject bucket key content).objects p l
      = if p = fs.provider ∧ l = fs.locate bucket key then content else fs.objects p l := by
  show Function.update fs.objects fs.provider _ p l = _
  by_cases hp : p = fs.provider
  · subst hp
    rw [Function.update_self, Function.update_apply]
    simp only [true_and]
  · rw [Function.update_of_ne hp, if_neg (fun h => hp h.1)]

/-- An object that is not there stays so when it is removed. -/
theorem setObject_none (fs : FileService π κ) {bucket key : ByteString}
    (h : fs.object bucket key = none) : (fs.setObject bucket key none).objects = fs.objects := by
  funext p l
  rw [setObject_objects]
  split
  · rename_i hpl
    obtain ⟨rfl, rfl⟩ := hpl
    exact h.symm
  · rfl

/-- The upload reaches the provider, and that stores it. -/
def Stores (fs : FileService π κ) (io : UploadIo) (data : ByteString) : Prop :=
  (data.length : Int) ≤ fs.config.maxFileSize ∧ io.store = none

/-- **WHAT AN UPLOAD DOES.**  One that is not stored changes nothing.  One that is replaces the
    object of its record, and enters the record under a free id or fails. -/
theorem uploadFile_spec (fs : FileService π κ) (io : UploadIo) (params : UploadParams)
    (data : ByteString) :
    (fs.uploadFile io params data).1.provider = fs.provider ∧
    (fs.uploadFile io params data).1.providers = fs.providers ∧
    ((¬ fs.Stores io data ∧ (fs.uploadFile io params data).1 = fs ∧
        ∀ result, (fs.uploadFile io params data).2 ≠ .ok result) ∨
      (fs.Stores io data ∧
        (fs.uploadFile io params data).1.objects
          = (fs.setObject (fs.bucketOf params) (fs.keyOf io params data) (some data)).objects ∧
        (((fs.uploadFile io params data).1.db.files = fs.db.files ∧
            ∀ result, (fs.uploadFile io params data).2 ≠ .ok result) ∨
          ∃ row result, (fs.uploadFile io params data).2 = .ok result ∧
            row = { fs.recordOf io params data with fileUuid := row.fileUuid } ∧
            result.fileUuid = row.fileUuid ∧ result.bucket = fs.bucketOf params ∧
            result.objectKey = fs.keyOf io params data ∧
            fs.db.files.get? row.fileUuid = none ∧
            (fs.uploadFile io params data).1.db.files = fs.db.files.insert row.fileUuid row))) := by
  fun_cases uploadFile fs io params data with
  | case1 hsize =>
      refine ⟨rfl, rfl, Or.inl ⟨?_, rfl, fun _ h => (by cases h)⟩⟩
      rintro ⟨hle, -⟩
      omega
  | case2 hsize err hstore =>
      refine ⟨rfl, rfl, Or.inl ⟨?_, rfl, fun _ h => (by cases h)⟩⟩
      rintro ⟨-, hnone⟩
      exact nomatch hstore.symm.trans hnone
  | case3 hsize info hstore stored inserted =>
      refine ⟨rfl, rfl, Or.inr ⟨⟨by omega, hstore⟩, rfl, ?_⟩⟩
      rcases UploadTables.insertFile_rows stored.db io.insert info with
        ⟨hsame, herror⟩ | ⟨row, hok, hrow, hfree, hfiles⟩
      · refine Or.inl ⟨hsame, ?_⟩
        intro result
        cases hresult : inserted.2 with
        | error err => exact fun h => (by cases h)
        | ok row => exact absurd hresult (herror row)
      · have hresult : inserted.2 = .ok row := hok
        refine Or.inr ⟨row, resultOf { info with fileUuid := row.fileUuid } io.etag, ?_, hrow,
          rfl, rfl, rfl, hfree, hfiles⟩
        rw [hresult]

/-- The provider removes the object, or accepts that it is not there. -/
def Removable (fs : FileService π κ) (io : RemoveIo) (bucket key : ByteString) : Prop :=
  io.error = none ∧ ((fs.object bucket key).isSome = true ∨ io.acceptsMissing = true)

theorem providerDelete_spec (fs : FileService π κ) (io : RemoveIo) (bucket key : ByteString) :
    (fs.providerDelete io bucket key).1.provider = fs.provider ∧
    (fs.providerDelete io bucket key).1.providers = fs.providers ∧
    (fs.providerDelete io bucket key).1.db = fs.db ∧
    ((¬ fs.Removable io bucket key ∧ (fs.providerDelete io bucket key).1 = fs ∧
        (fs.providerDelete io bucket key).2 ≠ .ok ()) ∨
      (fs.Removable io bucket key ∧ (fs.providerDelete io bucket key).2 = .ok () ∧
        (fs.providerDelete io bucket key).1.objects = (fs.setObject bucket key none).objects)) := by
  fun_cases providerDelete fs io bucket key with
  | case1 err herror =>
      refine ⟨rfl, rfl, rfl, Or.inl ⟨?_, rfl, fun h => (by cases h)⟩⟩
      rintro ⟨hnone, -⟩
      exact nomatch herror.symm.trans hnone
  | case2 herror hsome => exact ⟨rfl, rfl, rfl, Or.inr ⟨⟨herror, Or.inl hsome⟩, rfl, rfl⟩⟩
  | case3 herror hsome haccepts =>
      rw [Bool.not_eq_true, Option.isSome_eq_false_iff, Option.isNone_iff_eq_none] at hsome
      exact ⟨rfl, rfl, rfl,
        Or.inr ⟨⟨herror, Or.inr haccepts⟩, rfl, (fs.setObject_none hsome).symm⟩⟩
  | case4 herror hsome haccepts =>
      refine ⟨rfl, rfl, rfl, Or.inl ⟨?_, rfl, fun h => (by cases h)⟩⟩
      rintro ⟨-, hsome' | haccepts'⟩
      · exact hsome hsome'
      · exact haccepts haccepts'

/-- The deletion finds the record, and its object is removed. -/
def Removes (fs : FileService π κ) (io : DeleteIo) (fileUuid : ByteString) (info : FileInfo) : Prop :=
  io.find = none ∧ fs.db.files.get? fileUuid = some info ∧
    fs.Removable io.remove info.bucket info.objectKey

/-- **WHAT A DELETION DOES.**  One that removes no object changes nothing.  One that does removes
    the object that the current provider keeps under the bucket and the key of the record, and
    then the record, or fails. -/
theorem deleteFile_spec (fs : FileService π κ) (io : DeleteIo) (fileUuid : ByteString) :
    (fs.deleteFile io fileUuid).1.provider = fs.provider ∧
    (fs.deleteFile io fileUuid).1.providers = fs.providers ∧
    (((∀ info, ¬ fs.Removes io fileUuid info) ∧ (fs.deleteFile io fileUuid).1 = fs ∧
        (fs.deleteFile io fileUuid).2 ≠ .ok ()) ∨
      ∃ info, fs.Removes io fileUuid info ∧
        (fs.deleteFile io fileUuid).1.objects
          = (fs.setObject info.bucket info.objectKey none).objects ∧
        ((io.deleteRow ≠ none ∧ (fs.deleteFile io fileUuid).1.db.files = fs.db.files ∧
            (fs.deleteFile io fileUuid).2 ≠ .ok ()) ∨
          (io.deleteRow = none ∧
            (fs.deleteFile io fileUuid).1.db.files = fs.db.files.erase fileUuid ∧
            (fs.deleteFile io fileUuid).2 = .ok ()))) := by
  fun_cases deleteFile fs io fileUuid with
  | case1 err hfind =>
      refine ⟨rfl, rfl, Or.inl ⟨?_, rfl, fun h => (by cases h)⟩⟩
      rintro info ⟨hnone, hget, -⟩
      rw [hnone, UploadTables.getFileByUuid_of_get hget] at hfind
      cases hfind
  | case2 info hfind removed err hremoved =>
      have hget := UploadTables.getFileByUuid_ok hfind
      obtain ⟨hprovider, hproviders, -, ⟨hkept, hsame, -⟩ | ⟨-, hok, -⟩⟩ :=
        fs.providerDelete_spec io.remove info.bucket info.objectKey
      · refine ⟨hprovider, hproviders, Or.inl ⟨?_, hsame, fun h => (by cases h)⟩⟩
        rintro info' ⟨-, hget', hremovable⟩
        obtain rfl := Option.some.inj (hget.symm.trans hget')
        exact hkept hremovable
      · exact nomatch hremoved.symm.trans hok
  | case3 info hfind removed ok hremoved deleted =>
      have hget := UploadTables.getFileByUuid_ok hfind
      have hnone : io.find = none := by
        cases hio : io.find with
        | none => rfl
        | some err =>
            rw [hio] at hfind
            cases hfind
      obtain ⟨hprovider, hproviders, hdb, ⟨-, -, herror⟩ | ⟨hremovable, -, hobjects⟩⟩ :=
        fs.providerDelete_spec io.remove info.bucket info.objectKey
      · exact absurd hremoved herror
      · refine ⟨hprovider, hproviders, Or.inr ⟨info, ⟨hnone, hget, hremovable⟩, hobjects, ?_⟩⟩
        have hdeleted : deleted = fs.db.deleteFile io.deleteRow fileUuid := by rw [← hdb]
        cases hrow : io.deleteRow with
        | some err =>
            rw [hdeleted, hrow]
            exact Or.inl ⟨(fun h => by cases h), rfl, fun h => (by cases h)⟩
        | none =>
            rw [hdeleted, hrow]
            exact Or.inr ⟨rfl, rfl, rfl⟩

end FileService

end VHono
