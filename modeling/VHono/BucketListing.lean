import VHono.ByteCompare
import VHono.FileNames
import VHono.LocalStorage
import VHono.MarkerPages

/-! # Listing a bucket of the local storage

    The walk over the directory of a bucket, in the order in which the
    operating system lists the entries.  The key of an entry is its path with
    the path of the bucket cut out; entries whose key fails the test for the
    prefix, or does not come after the marker, are passed over, and so is all
    that is below them. -/

namespace VHono

open ByteString PathSegments

/-- The name of a directory entry. -/
structure EntryName where
  text        : ByteString
  plain       : Plain text
  noBackslash : byte '\\' ∉ text

/-- The entries of a directory in the order of `os.ls`: files with their content and time of
    modification, and directories with their own entries. -/
inductive Entries
  | nil
  | file (name : EntryName) (content : ByteString) (mtime : Int) (rest : Entries)
  | dir (name : EntryName) (children : Entries) (rest : Entries)

/-- The directory of a bucket.  Its path is in the form that `os.join_path` leaves as it is
    when it appends a name. -/
structure BucketDir where
  path     : ByteString
  entries  : Entries
  nonempty : path ≠ []
  normal   : ∀ s ∈ (segments path).tail, s ≠ [] ∧ s ≠ ascii "."

structure ObjectInfo where
  key          : ByteString
  size         : Int
  etag         : ByteString
  contentType  : ByteString
  lastModified : Int
  deriving DecidableEq, Repr

structure ListOptions where
  keyPrefix  : ByteString := []
  delimiter  : ByteString := []
  maxKeys    : Int := 1000
  startAfter : ByteString := []

structure ListResult where
  objects        : List ObjectInfo
  commonPrefixes : List ByteString
  isTruncated    : Bool
  nextMarker     : ByteString
  deriving DecidableEq, Repr

/-- The files that cannot be read, and the directories that cannot be listed. -/
structure ListIo where
  unreadable : ByteString → Bool := fun _ => false
  unlistable : ByteString → Bool := fun _ => false

/-- `os.join_path` of a directory and an entry -/
def entryPath (currentPath : ByteString) (entry : EntryName) : ByteString :=
  currentPath ++ ascii "/" ++ entry.text

/-- Every occurrence of the bucket's path is cut out. -/
def relativeKey (basePath path : ByteString) : ByteString :=
  replaceStr path (basePath ++ ascii "/") []

/-- The tests that make the walk pass over an entry. -/
def ListOptions.skips (options : ListOptions) (key : ByteString) : Bool :=
  (decide (options.keyPrefix ≠ []) && !startsWith key options.keyPrefix) ||
    (decide (options.startAfter ≠ []) && !precedes options.startAfter key)

namespace LocalStorage

/-- The entries from one on, with the objects and the prefixes collected so far. -/
def listDirectoryRecursive (s : LocalStorage) (io : ListIo) (basePath : ByteString)
    (options : ListOptions) : ByteString → Entries → List ObjectInfo × List ByteString →
      List ObjectInfo × List ByteString
  | _, .nil, acc => acc
  | currentPath, .file name content mtime rest, acc =>
    if (acc.1.length : Int) ≥ options.maxKeys then acc
    else
      let path := entryPath currentPath name
      let key := relativeKey basePath path
      if options.skips key = true ∨ io.unreadable path = true then
        listDirectoryRecursive s io basePath options currentPath rest acc
      else
        let object : ObjectInfo :=
          ⟨key, content.length, s.calculateEtag content, inferContentType key, mtime⟩
        listDirectoryRecursive s io basePath options currentPath rest (acc.1 ++ [object], acc.2)
  | currentPath, .dir name children rest, acc =>
    if (acc.1.length : Int) ≥ options.maxKeys then acc
    else
      let path := entryPath currentPath name
      let key := relativeKey basePath path
      if options.skips key = true then
        listDirectoryRecursive s io basePath options currentPath rest acc
      else if options.delimiter ≠ [] then
        let prefixKey := key ++ ascii "/"
        listDirectoryRecursive s io basePath options currentPath rest
          (acc.1, if prefixKey ∈ acc.2 then acc.2 else acc.2 ++ [prefixKey])
      else if io.unlistable path = true then
        listDirectoryRecursive s io basePath options currentPath rest acc
      else
        listDirectoryRecursive s io basePath options currentPath rest
          (listDirectoryRecursive s io basePath options path children acc)

/-- The listing of a bucket, if its directory is there. -/
def list (s : LocalStorage) (io : ListIo) (bucket : ByteString) (dir : Option BucketDir)
    (options : ListOptions) : Except ByteString ListResult :=
  match dir with
  | none => .error (newBucketNotFoundError (ascii "local") bucket).msg
  | some dir =>
    let out := if io.unlistable dir.path = true then ([], [])
      else s.listDirectoryRecursive io dir.path options dir.path dir.entries ([], [])
    let isTruncated := decide ((out.1.length : Int) ≥ options.maxKeys)
    .ok
      { objects := out.1
        commonPrefixes := out.2
        isTruncated := isTruncated
        nextMarker := if isTruncated = true ∧ out.1.length > 0 then (out.1.getLast?.map (·.key)).getD []
          else [] }

end LocalStorage

/-! ## The walk without a delimiter -/

namespace Entries

/-- The keys of the files, in the order of the walk, below what leads to the directory. -/
def keysFrom : ByteString → Entries → List ByteString
  | _, .nil => []
  | lead, .file name _ _ rest => (lead ++ name.text) :: keysFrom lead rest
  | lead, .dir name children rest =>
    keysFrom (lead ++ name.text ++ ascii "/") children ++ keysFrom lead rest

def keys (entries : Entries) : List ByteString := keysFrom [] entries

/-- The keys that the walk collects if nothing stops it, with the keys as it computes them. -/
def survivors (strip : ByteString → ByteString) (skips : ByteString → Bool) :
    ByteString → Entries → List ByteString
  | _, .nil => []
  | lead, .file name _ _ rest =>
    if skips (strip (lead ++ name.text)) = true then survivors strip skips lead rest
    else strip (lead ++ name.text) :: survivors strip skips lead rest
  | lead, .dir name children rest =>
    if skips (strip (lead ++ name.text)) = true then survivors strip skips lead rest
    else survivors strip skips (lead ++ name.text ++ ascii "/") children
      ++ survivors strip skips lead rest

end Entries

/-- The key that the walk computes for a key. -/
def BucketDir.strip (dir : BucketDir) (key : ByteString) : ByteString :=
  replaceStr key (dir.path ++ ascii "/") []

theorem BucketDir.path_ne (dir : BucketDir) : dir.path ++ ascii "/" ≠ [] := by
  simp [ascii]

theorem BucketDir.relativeKey_eq (dir : BucketDir) (key : ByteString) :
    relativeKey dir.path (dir.path ++ ascii "/" ++ key) = dir.strip key :=
  replaceStr_append dir.path_ne key

/-- **THE WALK COLLECTS THE SURVIVORS, AS MANY AS IT MAY.** -/
theorem LocalStorage.listDirectoryRecursive_keys (s : LocalStorage) (dir : BucketDir)
    (options : ListOptions) (hdelimiter : options.delimiter = []) (entries : Entries) :
    ∀ (currentPath lead : ByteString) (acc : List ObjectInfo × List ByteString),
      currentPath ++ ascii "/" = dir.path ++ ascii "/" ++ lead →
      (s.listDirectoryRecursive {} dir.path options currentPath entries acc).1.map (·.key)
        = acc.1.map (·.key) ++ (entries.survivors dir.strip options.skips lead).take
            (options.maxKeys.toNat - acc.1.length) := by
  induction entries with
  | nil =>
      intro currentPath lead acc _
      rw [Entries.survivors, List.take_nil, List.append_nil]
      rfl
  | file name content mtime rest ih =>
      intro currentPath lead acc hpath
      have hkey : relativeKey dir.path (entryPath currentPath name) = dir.strip (lead ++ name.text) := by
        rw [entryPath, hpath, List.append_assoc, dir.relativeKey_eq]
      rw [listDirectoryRecursive, Entries.survivors]
      dsimp only
      rw [hkey]
      by_cases hfull : (acc.1.length : Int) ≥ options.maxKeys
      · rw [if_pos hfull, show options.maxKeys.toNat - acc.1.length = 0 by omega, List.take_zero,
          List.append_nil]
      · rw [if_neg hfull]
        by_cases hskip : options.skips (dir.strip (lead ++ name.text)) = true
        · rw [if_pos (Or.inl hskip), if_pos hskip]
          exact ih currentPath lead acc hpath
        · rw [if_neg (by simp [hskip]), if_neg hskip, ih currentPath lead _ hpath]
          obtain ⟨k, hk⟩ : ∃ k, options.maxKeys.toNat - acc.1.length = k + 1 :=
            ⟨options.maxKeys.toNat - acc.1.length - 1, by omega⟩
          rw [hk, List.take_succ_cons, List.length_append, List.length_singleton, List.map_append,
            List.append_assoc, show options.maxKeys.toNat - (acc.1.length + 1) = k by omega]
          rfl
  | dir name children rest ihChildren ihRest =>
      intro currentPath lead acc hpath
      have hentry : entryPath currentPath name = dir.path ++ ascii "/" ++ (lead ++ name.text) := by
        rw [entryPath, hpath, List.append_assoc]
      have hkey : relativeKey dir.path (entryPath currentPath name) = dir.strip (lead ++ name.text) := by
        rw [hentry, dir.relativeKey_eq]
      rw [listDirectoryRecursive, Entries.survivors]
      dsimp only
      rw [hkey]
      by_cases hfull : (acc.1.length : Int) ≥ options.maxKeys
      · rw [if_pos hfull, show options.maxKeys.toNat - acc.1.length = 0 by omega, List.take_zero,
          List.append_nil]
      · rw [if_neg hfull]
        by_cases hskip : options.skips (dir.strip (lead ++ name.text)) = true
        · rw [if_pos hskip, if_pos hskip]
          exact ihRest currentPath lead acc hpath
        · rw [if_neg hskip, if_neg hskip, if_neg (not_not.mpr hdelimiter), if_neg (by decide)]
          have hchildren := ihChildren (entryPath currentPath name) (lead ++ name.text ++ ascii "/") acc
            (by rw [hentry]; simp only [List.append_assoc])
          have hlength := congrArg List.length hchildren
          rw [List.length_map, List.length_append, List.length_map, List.length_take] at hlength
          rw [ihRest currentPath lead _ hpath, hchildren, List.append_assoc]
          refine congrArg (acc.1.map (·.key) ++ ·) ?_
          rw [List.take_append]
          refine congrArg (_ ++ List.take · _) ?_
          omega

end VHono
