import VHono.StorageCalls

/-! # Where the local storage reaches

    The paths of an operation are its bucket and key joined to the base path,
    and nothing looks at their segments.  So an operation stays below the base
    path exactly if its bucket and key do when followed from there; an upload
    also makes the directory that the key is in. -/

namespace VHono

open ByteString PathSegments

/-- The operations of the local storage with their arguments. -/
inductive StorageCall
  | upload (bucket key data : ByteString)
  | uploadStream (bucket key data : ByteString)
  | download (bucket key : ByteString)
  | downloadStream (write : ByteString → Except ByteString Int) (bucket key : ByteString)
  | delete (bucket key : ByteString)
  | objectExists (bucket key : ByteString)
  | head (bucket key : ByteString)
  | copy (srcBucket srcKey dstBucket dstKey : ByteString)
  | presignUrl (bucket key : ByteString) (options : PresignOptions)
  | list (depth : Nat) (bucket : ByteString) (options : ListOptions)
  | initMultipart (now : Int) (random : Option ByteString) (bucket key contentType : ByteString)
  | uploadPart (uploadId : ByteString) (partNumber : Int) (data : ByteString)
  | completeMultipart (bucket key uploadId : ByteString) (parts : List PartInfo)
  | abortMultipart (uploadId : ByteString)
  | createBucket (bucket : ByteString)
  | deleteBucket (bucket : ByteString)
  | bucketExists (bucket : ByteString)

/-- Whatever the operating system answers, the operation makes only such calls. -/
def StorageCall.Only (s : DiskStorage) (P : OsCall → Prop) : StorageCall → Prop
  | upload bucket key data => (s.upload bucket key data).Only P
  | uploadStream bucket key data => (s.uploadStream bucket key data).Only P
  | download bucket key => (s.download bucket key).Only P
  | downloadStream write bucket key => (s.downloadStream write bucket key).Only P
  | delete bucket key => (s.delete bucket key).Only P
  | objectExists bucket key => (s.objectExists bucket key).Only P
  | head bucket key => (s.head bucket key).Only P
  | copy srcBucket srcKey dstBucket dstKey => (s.copy srcBucket srcKey dstBucket dstKey).Only P
  | presignUrl bucket key options => (s.presignUrl bucket key options).Only P
  | list depth bucket options => (s.list depth bucket options).Only P
  | initMultipart now random bucket key contentType =>
      (s.initMultipart now random bucket key contentType).Only P
  | uploadPart uploadId partNumber data => (s.uploadPart uploadId partNumber data).Only P
  | completeMultipart bucket key uploadId parts => (s.completeMultipart bucket key uploadId parts).Only P
  | abortMultipart uploadId => (s.abortMultipart uploadId).Only P
  | createBucket bucket => (s.createBucket bucket).Only P
  | deleteBucket bucket => (s.deleteBucket bucket).Only P
  | bucketExists bucket => (s.bucketExists bucket).Only P

namespace DiskStorage

variable (s : DiskStorage) (cwd : Path)

/-- What the base path names. -/
def base : Path := resolveText cwd s.config.basePath

/-- Every path of the call is below the base path. -/
def Below (osCall : OsCall) : Prop := ∀ path ∈ osCall.paths, s.base cwd <+: resolveText cwd path

/-- **CONFINEMENT** of an operation: it reads, writes and removes only what is below the base
    path. -/
def Confined (call : StorageCall) : Prop := call.Only s (s.Below cwd)

def bucketStays (bucket : ByteString) : Prop := StaysBelow (s.base cwd) (partSegments [bucket])

def objectStays (bucket key : ByteString) : Prop :=
  StaysBelow (s.base cwd) (partSegments [bucket, key])

/-- The directory that an object is in stays below the base path too; without a bucket and a key
    it is the one that the base path is in. -/
def directoryStays (bucket key : ByteString) : Prop :=
  if bucket = [] ∧ key = [] then
    dirOf (joinPath s.config.basePath []) = ascii "." ∨
      s.base cwd <+: resolveText cwd (dirOf (joinPath s.config.basePath []))
  else StaysBelow (s.base cwd) (partSegments [bucket, key]).dropLast

/-- What an operation that stores an object asks of it. -/
def storedStays (bucket key : ByteString) : Prop :=
  s.objectStays cwd bucket key ∧ s.directoryStays cwd bucket key

/-- What the bucket and the key of an operation have to be like. -/
def ArgumentsStay : StorageCall → Prop
  | .upload bucket key _ =>
      (s.config.createDirs = true → s.bucketStays cwd bucket) ∧ s.storedStays cwd bucket key
  | .uploadStream bucket key _ =>
      (s.config.createDirs = true → s.bucketStays cwd bucket) ∧ s.storedStays cwd bucket key
  | .download bucket key => s.objectStays cwd bucket key
  | .downloadStream _ bucket key => s.objectStays cwd bucket key
  | .delete bucket key => s.objectStays cwd bucket key
  | .objectExists bucket key => s.objectStays cwd bucket key
  | .head bucket key => s.objectStays cwd bucket key
  | .copy srcBucket srcKey dstBucket dstKey =>
      s.objectStays cwd srcBucket srcKey ∧
        (s.config.createDirs = true → s.bucketStays cwd dstBucket) ∧
        s.storedStays cwd dstBucket dstKey
  | .presignUrl bucket key options => options.method = ascii "GET" → s.objectStays cwd bucket key
  | .list _ bucket _ => s.bucketStays cwd bucket
  | .initMultipart _ _ bucket _ _ => s.config.createDirs = true → s.bucketStays cwd bucket
  | .uploadPart _ _ _ => True
  | .completeMultipart bucket key uploadId _ =>
      (s.multipartUploads.get? uploadId).isSome = true → s.storedStays cwd bucket key
  | .abortMultipart _ => True
  | .createBucket bucket => s.bucketStays cwd bucket
  | .deleteBucket bucket => s.bucketStays cwd bucket
  | .bucketExists bucket => s.bucketStays cwd bucket

end DiskStorage

/-! ## The calls of the parts of an operation -/

namespace OsProgram

variable {ρ : Type} {P : OsCall → Prop}

theorem only_attempt {e : OsEffect} {failed : ByteString → ρ} {rest : OsProgram ρ} :
    (attempt e failed rest).Only P ↔ P (.effect e) ∧ rest.Only P := by
  constructor
  · intro h
    exact ⟨h.1, h.2 (Except.ok ())⟩
  · rintro ⟨he, hrest⟩
    refine ⟨he, ?_⟩
    intro answer
    cases (answer : Except ByteString Unit) with
    | error err => trivial
    | ok result => exact hrest

theorem only_readBytes {path : ByteString} {failed : ByteString → ρ}
    {rest : ByteString → OsProgram ρ} :
    (readBytes path failed rest).Only P ↔ P (.readBytes path) ∧ ∀ data, (rest data).Only P := by
  constructor
  · intro h
    exact ⟨h.1, fun data => h.2 (Except.ok data)⟩
  · rintro ⟨hread, hrest⟩
    refine ⟨hread, ?_⟩
    intro answer
    cases (answer : Except ByteString ByteString) with
    | error err => trivial
    | ok data => exact hrest data

theorem only_mustExist {path : ByteString} {missing : ρ} {rest : OsProgram ρ} :
    (mustExist path missing rest).Only P ↔ P (.pathExists path) ∧ rest.Only P := by
  constructor
  · intro h
    exact ⟨h.1, h.2 true⟩
  · rintro ⟨hexists, hrest⟩
    refine ⟨hexists, ?_⟩
    intro answer
    cases (answer : Bool) with
    | false => trivial
    | true => exact hrest

theorem only_ensureParent {path : ByteString} {failed : ByteString → ρ} {rest : OsProgram ρ} :
    (ensureParent path failed rest).Only P ↔
      (dirOf path = ascii "." ∨ P (.effect (.mkdirAll (dirOf path)))) ∧ rest.Only P := by
  rw [ensureParent]
  by_cases hdot : dirOf path = ascii "."
  · rw [if_neg (fun h => h.2 hdot)]
    exact ⟨fun h => ⟨Or.inl hdot, h⟩, fun h => h.2⟩
  · rw [if_pos ⟨dirOf_ne_nil path, hdot⟩, only_attempt, or_iff_right hdot]

end OsProgram

namespace DiskStorage

variable {s : DiskStorage} {cwd : Path} {ρ : Type}

theorem below_effect {e : OsEffect} {path : ByteString} (h : e.paths = [path]) :
    s.Below cwd (.effect e) ↔ s.base cwd <+: resolveText cwd path := by
  rw [Below, show (OsCall.effect e).paths = [path] from h, List.forall_mem_singleton]

theorem below_read {osCall : OsCall} {path : ByteString} (h : osCall.paths = [path]) :
    s.Below cwd osCall ↔ s.base cwd <+: resolveText cwd path := by
  rw [Below, h, List.forall_mem_singleton]

/-- A program whose calls are all about one path. -/
theorem only_on_path {program : OsProgram ρ} {path : ByteString}
    (hask : ∃ osCall next, program = .ask osCall next)
    (hpaths : program.Only (fun osCall => osCall.paths = [path])) :
    program.Only (s.Below cwd) ↔ s.base cwd <+: resolveText cwd path := by
  constructor
  · intro h
    obtain ⟨osCall, next, rfl⟩ := hask
    exact (below_read hpaths.1).mp h.1
  · intro hpath
    refine CallProgram.only_iff.mpr ?_
    intro osCall hmakes
    exact (below_read (CallProgram.only_iff.mp hpaths osCall hmakes)).mpr hpath

theorem bucketPath_below {bucket : ByteString} :
    s.base cwd <+: resolveText cwd (s.getBucketPath bucket) ↔ s.bucketStays cwd bucket :=
  joinPath_below_iff cwd s.config.basePath [bucket]

theorem fullPath_below {bucket key : ByteString} :
    s.base cwd <+: resolveText cwd (s.getFullPath bucket key) ↔ s.objectStays cwd bucket key :=
  joinPath_below_iff cwd s.config.basePath [bucket, key]

theorem partSegments_eq_nil {bucket key : ByteString} :
    partSegments [bucket, key] = [] ↔ bucket = [] ∧ key = [] := by
  by_cases hbucket : bucket = []
  · by_cases hkey : key = []
    · simp [partSegments, hbucket, hkey]
    · simp [partSegments, hbucket, hkey, segments_ne_nil]
  · simp [partSegments, hbucket, segments_ne_nil]

/-- The directory made for an object. -/
theorem parent_below {bucket key : ByteString} :
    (dirOf (s.getFullPath bucket key) = ascii "." ∨
      s.base cwd <+: resolveText cwd (dirOf (s.getFullPath bucket key))) ↔
        s.directoryStays cwd bucket key := by
  rw [directoryStays]
  by_cases hempty : bucket = [] ∧ key = []
  · rw [if_pos hempty, getFullPath, hempty.1, hempty.2]
    rfl
  · have hparts : partSegments [bucket, key] ≠ [] := mt partSegments_eq_nil.mp hempty
    rw [if_neg hempty, base, ← dirOf_joinPath_below_iff cwd s.config.basePath hparts]
    refine or_iff_right_of_imp ?_
    intro hdot
    have hbase : resolveText cwd s.config.basePath <+: cwd := below_of_dirOf_eq_dot hparts hdot
    rw [hdot]
    exact hbase

theorem only_ensureBucket {bucket : ByteString} {failed : ByteString → ρ} {rest : OsProgram ρ} :
    (s.ensureBucket bucket failed rest).Only (s.Below cwd) ↔
      (s.config.createDirs = true → s.bucketStays cwd bucket) ∧ rest.Only (s.Below cwd) := by
  rw [ensureBucket]
  by_cases hcreate : s.config.createDirs = true
  · rw [if_pos hcreate, OsProgram.only_attempt, below_effect rfl, bucketPath_below]
    exact and_congr_left' ⟨fun h _ => h, fun h => h hcreate⟩
  · rw [if_neg hcreate]
    exact ⟨fun h => ⟨fun hc => absurd hc hcreate, h⟩, fun h => h.2⟩

/-- An object stored and then something that stays below. -/
theorem only_store {bucket key data : ByteString} {failed failed' : ByteString → ρ}
    {rest : OsProgram ρ} (hrest : rest.Only (s.Below cwd)) :
    (OsProgram.ensureParent (s.getFullPath bucket key) failed
      (OsProgram.attempt (.writeFileArray (s.getFullPath bucket key) data) failed' rest)).Only
        (s.Below cwd) ↔ s.storedStays cwd bucket key := by
  rw [OsProgram.only_ensureParent, OsProgram.only_attempt, below_effect rfl, below_effect rfl,
    parent_below, fullPath_below, storedStays]
  constructor
  · rintro ⟨hparent, hobject, -⟩
    exact ⟨hobject, hparent⟩
  · rintro ⟨hobject, hparent⟩
    exact ⟨hparent, hobject, hrest⟩

/-! ## Names that stay below -/

theorem partSegments_name (name : EntryName) : partSegments [name.text] = [name.text] := by
  rw [partSegments, List.filter_cons_of_pos (by simpa using name.plain.nonempty), List.filter_nil,
    List.flatMap_singleton, slashed_eq_self name.noBackslash,
    segments_singleton name.plain.noSlash]

/-- An entry of a directory below the base path is below it. -/
theorem entry_below {path : ByteString} (h : s.base cwd <+: resolveText cwd path)
    (entry : EntryName) : s.base cwd <+: resolveText cwd (joinPath path [entry.text]) := by
  have hparts := partSegments_name entry
  rw [(resolveText_joinPath cwd path (by rw [hparts]; exact List.cons_ne_nil _ _)).1, hparts,
    resolve_plain (fun t ht => List.mem_singleton.mp ht ▸ entry.plain)]
  exact h.trans (List.prefix_append _ _)

def multipartName : EntryName where
  text := ascii ".multipart"
  plain := ⟨by decide, by decide, by decide, by decide⟩
  noBackslash := by decide

def partName (n : Int) : EntryName where
  text := intStr n
  plain := plain_intStr n
  noBackslash := not_backslash_mem_intStr n

/-- The directory of an upload is below the base path. -/
theorem tempDir_below (s : DiskStorage) (cwd : Path) (uploadId : EntryName) :
    s.base cwd <+: resolveText cwd (s.tempDir uploadId.text) := by
  have hparts : partSegments [ascii ".multipart", uploadId.text]
      = [ascii ".multipart", uploadId.text] := by
    show partSegments ([multipartName.text] ++ [uploadId.text]) = _
    rw [partSegments, List.filter_append, List.flatMap_append]
    exact congrArg₂ (· ++ ·) (partSegments_name multipartName) (partSegments_name uploadId)
  rw [tempDir, (resolveText_joinPath cwd _ (by rw [hparts]; exact List.cons_ne_nil _ _)).1, hparts,
    resolve_plain]
  · exact List.prefix_append _ _
  · intro t ht
    rcases List.mem_cons.mp ht with rfl | hmem
    · exact multipartName.plain
    · exact List.mem_singleton.mp hmem ▸ uploadId.plain

theorem partPath_below (s : DiskStorage) (cwd : Path) (uploadId : EntryName) (n : Int) :
    s.base cwd <+: resolveText cwd (s.partPath uploadId.text n) :=
  entry_below (tempDir_below s cwd uploadId) (partName n)

/-! ## The walk -/

theorem only_listEntry {basePath currentPath : ByteString} {options : ListOptions}
    {walk : ByteString → List ObjectInfo × List ByteString →
      OsProgram (List ObjectInfo × List ByteString)}
    (hpath : s.base cwd <+: resolveText cwd currentPath)
    (hwalk : ∀ path, s.base cwd <+: resolveText cwd path → ∀ acc, (walk path acc).Only (s.Below cwd))
    (acc : List ObjectInfo × List ByteString) (entry : EntryName) :
    (s.listEntry basePath currentPath options walk acc entry).Only (s.Below cwd) := by
  have hentry := entry_below hpath entry
  rw [listEntry]
  split
  · trivial
  · dsimp only
    split
    · trivial
    · refine ⟨(below_read rfl).mpr hentry, ?_⟩
      intro directory
      dsimp only
      split
      · split
        · trivial
        · exact hwalk _ hentry acc
      · refine ⟨(below_read rfl).mpr hentry, fun _ => ⟨(below_read rfl).mpr hentry, fun _ => ?_⟩⟩
        exact OsProgram.only_readBytes.mpr ⟨(below_read rfl).mpr hentry, fun _ => trivial⟩

/-- **THE WALK** from a directory below the base path stays below it. -/
theorem only_listDirectoryRecursive (basePath : ByteString) (options : ListOptions) (depth : Nat) :
    ∀ currentPath, s.base cwd <+: resolveText cwd currentPath → ∀ acc,
      (s.listDirectoryRecursive basePath options depth currentPath acc).Only (s.Below cwd) := by
  induction depth with
  | zero => intro currentPath _ acc; trivial
  | succ depth ih =>
      intro currentPath hpath acc
      rw [listDirectoryRecursive]
      split
      · trivial
      · refine ⟨(below_read rfl).mpr hpath, ?_⟩
        intro answer
        cases (answer : Except ByteString (List EntryName)) with
        | error err => trivial
        | ok entries =>
            exact CallProgram.only_fold (fun acc entry _ => only_listEntry hpath ih acc entry) acc

/-! ## Multipart uploads -/

/-- The parts of an upload are below the base path, so only what follows them counts. -/
theorem only_readParts {uploadId : EntryName} {missing : Int → ρ} {rest : ByteString → OsProgram ρ}
    (stays : Prop) (hrest : ∀ data, (rest data).Only (s.Below cwd) ↔ stays) (parts : List PartInfo) :
    ∀ finalData, (s.readParts uploadId.text missing rest parts finalData).Only (s.Below cwd) ↔
      stays := by
  induction parts with
  | nil => intro finalData; exact hrest finalData
  | cons part parts ih =>
      intro finalData
      rw [readParts, OsProgram.only_readBytes]
      constructor
      · rintro ⟨-, hnext⟩
        exact (ih _).mp (hnext [])
      · intro h
        exact ⟨(below_read rfl).mpr (partPath_below s cwd uploadId part.partNumber),
          fun data => (ih _).mpr h⟩

theorem confined_uploadPart (uploadId : ByteString) (partNumber : Int) (data : ByteString) :
    (s.uploadPart uploadId partNumber data).Only (s.Below cwd) := by
  fun_cases uploadPart s uploadId partNumber data with
  | case1 h => trivial
  | case2 state h =>
      obtain ⟨name, rfl⟩ := s.namedIds uploadId state h
      exact OsProgram.only_attempt.mpr
        ⟨(below_effect rfl).mpr (partPath_below s cwd name partNumber), trivial⟩

theorem confined_completeMultipart (bucket key uploadId : ByteString) (parts : List PartInfo) :
    (s.completeMultipart bucket key uploadId parts).Only (s.Below cwd) ↔
      ((s.multipartUploads.get? uploadId).isSome = true → s.storedStays cwd bucket key) := by
  rw [completeMultipart]
  cases hget : s.multipartUploads.get? uploadId with
  | none => exact iff_of_true trivial (fun h => by cases h)
  | some state =>
      obtain ⟨name, rfl⟩ := s.namedIds uploadId state hget
      refine (only_readParts (s.storedStays cwd bucket key) ?_ parts []).trans
        ⟨fun h _ => h, fun h => h rfl⟩
      intro data
      exact only_store ⟨(below_effect rfl).mpr (tempDir_below s cwd name), fun _ => trivial⟩

theorem confined_abortMultipart (uploadId : ByteString) :
    (s.abortMultipart uploadId).Only (s.Below cwd) := by
  rw [abortMultipart]
  cases hget : s.multipartUploads.get? uploadId with
  | none => trivial
  | some state =>
      obtain ⟨name, rfl⟩ := s.namedIds uploadId state hget
      exact ⟨(below_effect rfl).mpr (tempDir_below s cwd name), fun _ => trivial⟩

/-! ## The paths of the storage model -/

/-- The texts resolve to the paths under which the storage keeps its files. -/
theorem resolve_fullPath {s : DiskStorage} {cwd : Path} {model : LocalStorage}
    (hbase : model.config.basePath = s.base cwd) {bucket key : ByteString}
    (h : ¬ (bucket = [] ∧ key = [])) :
    resolveText cwd (s.getFullPath bucket key) = model.getFullPath bucket key := by
  rw [LocalStorage.getFullPath, hbase]
  exact (resolveText_joinPath cwd s.config.basePath (mt partSegments_eq_nil.mp h)).1

end DiskStorage

end VHono
