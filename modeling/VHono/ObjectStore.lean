import VHono.FileTrees
import VHono.MachineRuns
import VHono.StorageCalls

/-! # Objects in a local storage

    What the operations on objects are meant to do: a map from buckets and keys
    to contents, and for every upload in progress the last body of each part.
    Beside it the operations themselves, run on a file tree with the answers
    that the operating system gives there. -/

namespace VHono

open ByteString PathSegments FileTrees

/-! ## The map -/

structure ObjectStore where
  objects : ByteString → ByteString → Option ByteString
  uploads : ByteString → Option (Int → Option ByteString)

inductive ObjectOp
  | upload (bucket key data : ByteString)
  | download (bucket key : ByteString)
  | delete (bucket key : ByteString)
  | objectExists (bucket key : ByteString)
  | copy (srcBucket srcKey dstBucket dstKey : ByteString)
  | initMultipart (now : Int) (random : Option ByteString) (bucket key contentType : ByteString)
  | uploadPart (bucket key uploadId : ByteString) (partNumber : Int) (data : ByteString)
  | completeMultipart (bucket key uploadId : ByteString) (parts : List PartInfo)
  | abortMultipart (bucket key uploadId : ByteString)

inductive ObjectAnswer
  | stored (result : Except ByteString StorageResult)
  | content (result : Except ByteString ByteString)
  | done (result : Except ByteString Unit)
  | there (result : Except ByteString Bool)
  | uploadId (result : Except ByteString ByteString)
  | etag (result : Except ByteString ByteString)
  deriving DecidableEq

namespace ObjectStore

/-- Nothing stored, nothing in progress. -/
def empty : ObjectStore := ⟨fun _ _ => none, fun _ => none⟩

def etagOf (md5 : ByteString → ByteString) (data : ByteString) : ByteString :=
  ascii "\"" ++ LocalStorage.hexStr (md5 data) ++ ascii "\""

def setObject (store : ObjectStore) (bucket key : ByteString) (content : Option ByteString) :
    ObjectStore :=
  { store with objects := fun b k => if b = bucket ∧ k = key then content else store.objects b k }

def setUpload (store : ObjectStore) (uploadId : ByteString)
    (parts : Option (Int → Option ByteString)) : ObjectStore :=
  { store with uploads := Function.update store.uploads uploadId parts }

theorem setUpload_self (store : ObjectStore) (uploadId : ByteString)
    (parts : Option (Int → Option ByteString)) :
    (store.setUpload uploadId parts).uploads uploadId = parts :=
  Function.update_self ..

theorem setUpload_other (store : ObjectStore) {uploadId id : ByteString}
    (parts : Option (Int → Option ByteString)) (h : id ≠ uploadId) :
    (store.setUpload uploadId parts).uploads id = store.uploads id :=
  Function.update_of_ne h _ _

/-- An upload that differs from what was just set is another, and as it was. -/
theorem setUpload_before {store : ObjectStore} {uploadId id : ByteString}
    {parts parts' : Option (Int → Option ByteString)} (hne : parts ≠ parts')
    (h : (store.setUpload uploadId parts).uploads id = parts') :
    id ≠ uploadId ∧ store.uploads id = parts' := by
  have hother : id ≠ uploadId := by
    rintro rfl
    exact hne ((store.setUpload_self id parts).symm.trans h)
  exact ⟨hother, (store.setUpload_other parts hother).symm.trans h⟩

/-- The listed parts joined, or the first of them that was not received. -/
def concatenation (parts : Int → Option ByteString) (listed : List PartInfo) :
    Except Int ByteString :=
  match listed.find? (fun part => (parts part.partNumber).isNone) with
  | some part => .error part.partNumber
  | none => .ok (listed.flatMap (fun part => (parts part.partNumber).getD []))

/-- One operation on the map. -/
def step (md5 : ByteString → ByteString) (store : ObjectStore) :
    ObjectOp → ObjectStore × ObjectAnswer
  | .upload bucket key data =>
    (store.setObject bucket key (some data), .stored (.ok ⟨key, etagOf md5 data, data.length⟩))
  | .download bucket key =>
    match store.objects bucket key with
    | none => (store, .content (DiskStorage.objectMissing bucket key))
    | some data => (store, .content (.ok data))
  | .delete bucket key =>
    match store.objects bucket key with
    | none => (store, .done (DiskStorage.objectMissing bucket key))
    | some _ => (store.setObject bucket key none, .done (.ok ()))
  | .objectExists bucket key => (store, .there (.ok (store.objects bucket key).isSome))
  | .copy srcBucket srcKey dstBucket dstKey =>
    match store.objects srcBucket srcKey with
    | none => (store, .stored (DiskStorage.objectMissing srcBucket srcKey))
    | some data =>
      (store.setObject dstBucket dstKey (some data),
        .stored (.ok ⟨dstKey, etagOf md5 data, data.length⟩))
  | .initMultipart now random _ _ _ =>
    let uploadId := LocalStorage.generateUploadId now random
    (store.setUpload uploadId (some fun _ => none), .uploadId (.ok uploadId))
  | .uploadPart _ _ uploadId partNumber data =>
    match store.uploads uploadId with
    | none => (store, .etag (DiskStorage.uploadMissing uploadId "upload_part"))
    | some parts =>
      (store.setUpload uploadId (some (Function.update parts partNumber (some data))),
        .etag (.ok (etagOf md5 data)))
  | .completeMultipart bucket key uploadId listed =>
    match store.uploads uploadId with
    | none => (store, .stored (DiskStorage.uploadMissing uploadId "complete_multipart"))
    | some parts =>
      match concatenation parts listed with
      | .error n =>
        (store, .stored
          (DiskStorage.failure .objectNotFound "Part not found: " "complete_multipart" (intStr n)))
      | .ok data =>
        ((store.setObject bucket key (some data)).setUpload uploadId none,
          .stored (.ok ⟨key, etagOf md5 data, data.length⟩))
  | .abortMultipart _ _ uploadId =>
    match store.uploads uploadId with
    | none => (store, .done (DiskStorage.uploadMissing uploadId "abort_multipart"))
    | some _ => (store.setUpload uploadId none, .done (.ok ()))

end ObjectStore

namespace ObjectOp

/-- The objects that an operation names; starting an upload makes the bucket's directory. -/
def named : ObjectOp → List (ByteString × ByteString)
  | upload bucket key _ => [(bucket, key)]
  | download bucket key => [(bucket, key)]
  | delete bucket key => [(bucket, key)]
  | objectExists bucket key => [(bucket, key)]
  | copy srcBucket srcKey dstBucket dstKey => [(srcBucket, srcKey), (dstBucket, dstKey)]
  | initMultipart _ _ bucket key _ => [(bucket, key)]
  | uploadPart _ _ _ _ _ => []
  | completeMultipart bucket key _ _ => [(bucket, key)]
  | abortMultipart _ _ _ => []

/-- The objects that an operation may store or delete. -/
def targets : ObjectOp → List (ByteString × ByteString)
  | upload bucket key _ => [(bucket, key)]
  | delete bucket key => [(bucket, key)]
  | copy _ _ dstBucket dstKey => [(dstBucket, dstKey)]
  | completeMultipart bucket key _ _ => [(bucket, key)]
  | download _ _ | objectExists _ _ | initMultipart _ _ _ _ _ | uploadPart _ _ _ _ _
  | abortMultipart _ _ _ => []

/-- The upload that an operation is about. -/
def upload? : ObjectOp → Option ByteString
  | initMultipart now random _ _ _ => some (LocalStorage.generateUploadId now random)
  | uploadPart _ _ uploadId _ _ => some uploadId
  | completeMultipart _ _ uploadId _ => some uploadId
  | abortMultipart _ _ uploadId => some uploadId
  | upload _ _ _ | download _ _ | delete _ _ | objectExists _ _ | copy _ _ _ _ => none

/-- The id of an upload that an operation starts. -/
def started : ObjectOp → Option ByteString
  | initMultipart now random _ _ _ => some (LocalStorage.generateUploadId now random)
  | upload _ _ _ | download _ _ | delete _ _ | objectExists _ _ | copy _ _ _ _
  | uploadPart _ _ _ _ _ | completeMultipart _ _ _ _ | abortMultipart _ _ _ => none

/-- An upload that is started gets an id that no upload in progress has. -/
def Fresh (store : ObjectStore) : ObjectOp → Prop
  | initMultipart now random _ _ _ =>
      store.uploads (LocalStorage.generateUploadId now random) = none
  | upload _ _ _ | download _ _ | delete _ _ | objectExists _ _ | copy _ _ _ _
  | uploadPart _ _ _ _ _ | completeMultipart _ _ _ _ | abortMultipart _ _ _ => True

end ObjectOp

/-- So it is wherever the operations of a run start an upload. -/
def ObjectStore.FreshIds (md5 : ByteString → ByteString) : ObjectStore → List ObjectOp → Prop
  | _, [] => True
  | store, call :: calls => call.Fresh store ∧ FreshIds md5 (store.step md5 call).1 calls

/-! ## The disk -/

abbrev Disk := Tree ByteString ByteString

/-- What the operating system answers beside the tree: the texts of its errors, times of
    modification and the order of entries. -/
structure OsRest where
  message : OsCall → ByteString
  mtime   : Disk → Path → Int
  ls      : Disk → Path → Except ByteString (List EntryName)

/-- A change of the tree, if it is possible. -/
def OsEffect.apply (cwd : Path) (d : Disk) : OsEffect → Option Disk
  | mkdirAll path => d.mkdirAll (resolveText cwd path)
  | writeFileArray path data => d.write (resolveText cwd path) data
  | cp src dst => d.copy (resolveText cwd src) (resolveText cwd dst)
  | rm path => d.remove (resolveText cwd path)
  | rmdir path => d.removeDir (resolveText cwd path)
  | rmdirAll path => d.removeAll (resolveText cwd path)

/-- One call with its answer. -/
def OsCall.answer (os : OsRest) (cwd : Path) (d : Disk) : (c : OsCall) → c.Answer × Disk
  | effect e =>
    match e.apply cwd d with
    | some d' => ((.ok () : Except ByteString Unit), d')
    | none => ((.error (os.message (effect e)) : Except ByteString Unit), d)
  | pathExists path => ((d.node (resolveText cwd path)).isSome, d)
  | isFile path => ((d.content (resolveText cwd path)).isSome, d)
  | isDir path => (d.isDir (resolveText cwd path), d)
  | fileSize path => ((((d.content (resolveText cwd path)).getD []).length : Int), d)
  | fileLastModUnix path => (os.mtime d (resolveText cwd path), d)
  | readBytes path =>
    match d.content (resolveText cwd path) with
    | some data => ((.ok data : Except ByteString ByteString), d)
    | none => ((.error (os.message (readBytes path)) : Except ByteString ByteString), d)
  | ls path => (os.ls d (resolveText cwd path), d)

namespace OsProgram

/-- A program run on a disk. -/
def run {ρ : Type} (os : OsRest) (cwd : Path) : OsProgram ρ → Disk → ρ × Disk
  | .done result, d => (result, d)
  | .ask c next, d => run os cwd (next (c.answer os cwd d).1) (c.answer os cwd d).2

end OsProgram

namespace DiskStorage

/-- An operation that leaves the storage object as it is. -/
def keeping {α : Type} (s : DiskStorage) (wrap : α → ObjectAnswer) (out : α × Disk) :
    (DiskStorage × Disk) × ObjectAnswer := ((s, out.2), wrap out.1)

/-- An operation that changes it. -/
def changing {α : Type} (wrap : α → ObjectAnswer) (out : (DiskStorage × α) × Disk) :
    (DiskStorage × Disk) × ObjectAnswer := ((out.1.1, out.2), wrap out.1.2)

/-- One operation on a storage and its disk. -/
def step (os : OsRest) (cwd : Path) (state : DiskStorage × Disk) :
    ObjectOp → (DiskStorage × Disk) × ObjectAnswer
  | .upload bucket key data =>
    state.1.keeping .stored ((state.1.upload bucket key data).run os cwd state.2)
  | .download bucket key =>
    state.1.keeping .content ((state.1.download bucket key).run os cwd state.2)
  | .delete bucket key =>
    state.1.keeping .done ((state.1.delete bucket key).run os cwd state.2)
  | .objectExists bucket key =>
    state.1.keeping .there ((state.1.objectExists bucket key).run os cwd state.2)
  | .copy srcBucket srcKey dstBucket dstKey =>
    state.1.keeping .stored ((state.1.copy srcBucket srcKey dstBucket dstKey).run os cwd state.2)
  | .initMultipart now random bucket key contentType =>
    changing .uploadId
      ((state.1.initMultipart now random bucket key contentType).run os cwd state.2)
  | .uploadPart _ _ uploadId partNumber data =>
    changing .etag ((state.1.uploadPart uploadId partNumber data).run os cwd state.2)
  | .completeMultipart bucket key uploadId parts =>
    changing .stored ((state.1.completeMultipart bucket key uploadId parts).run os cwd state.2)
  | .abortMultipart _ _ uploadId =>
    changing .done ((state.1.abortMultipart uploadId).run os cwd state.2)

end DiskStorage

end VHono
