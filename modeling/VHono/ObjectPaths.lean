import VHono.Confinement
import VHono.ObjectStore

/-! # The paths of objects and uploads

    Where the storage keeps an object and the parts of an upload, and when
    these places do not get in each other's way: no object's path begins with
    another's, or with the directory of the uploads.  A disk represents the map
    if the named objects are its files and every upload in progress has its
    directory with its parts; each change of the disk that the operations make
    is one of the map. -/

namespace PathSegments

open ByteString

/-! ## The directory of a joined text -/

theorem filter_squeeze (path : List ByteString) :
    (squeeze path).filter (fun s => !idle s) = path.filter (fun s => !idle s) := by
  cases path with
  | nil => rfl
  | cons first rest =>
      have hrest : (rest.dropLast.filter (fun s => !idle s) ++ rest.getLast?.toList).filter
          (fun s => !idle s) = rest.filter (fun s => !idle s) := by
        rw [List.filter_append, List.filter_filter, ← dropLast_append_getLast rest,
          List.filter_append, dropLast_append_getLast rest]
        simp only [Bool.and_self]
      rw [squeeze, List.filter_cons, List.filter_cons, hrest]

theorem filter_idle {path : List ByteString} (h : ∀ s ∈ path, idle s = true) :
    path.filter (fun s => !idle s) = [] := by
  refine List.filter_eq_nil_iff.mpr ?_
  intro s hs
  rw [h s hs]
  exact Bool.false_ne_true

/-- The segments of a joined text that lead somewhere. -/
theorem filter_segments_joinPath (base : ByteString) (dirs : List ByteString) :
    (segments (joinPath base dirs)).filter (fun s => !idle s)
      = (segments (slashed (base.rdropWhile isSeparator))).filter (fun s => !idle s)
        ++ (partSegments dirs).filter (fun s => !idle s) := by
  have hnormal : (segments (normalizePath (base.rdropWhile isSeparator
      ++ dirs.flatMap (fun d => if d = [] then [] else byte '/' :: d)))).filter (fun s => !idle s)
        = (segments (slashed (base.rdropWhile isSeparator))).filter (fun s => !idle s)
          ++ (partSegments dirs).filter (fun s => !idle s) := by
    rw [segments_normalizePath, filter_squeeze, segments_joined, List.filter_append]
  rw [joinPath]
  split
  · obtain ⟨slashes, hidle, hdrop⟩ := segments_dropWhile (normalizePath (base.rdropWhile isSeparator
      ++ dirs.flatMap (fun d => if d = [] then [] else byte '/' :: d)))
    rw [hdrop, List.filter_append, filter_idle hidle, List.nil_append] at hnormal
    exact hnormal
  · exact hnormal

/-- What is joined of two segments or more is not in the working directory by its text. -/
theorem dirOf_joinPath_ne_dot {base : ByteString} {dirs : List ByteString}
    (h : 2 ≤ ((partSegments dirs).filter (fun s => !idle s)).length) :
    dirOf (joinPath base dirs) ≠ ascii "." := by
  have hcount : 2 ≤ ((segments (joinPath base dirs)).filter (fun s => !idle s)).length := by
    rw [filter_segments_joinPath, List.length_append]
    omega
  intro hdot
  rw [dirOf] at hdot
  split at hdot
  · rename_i hslash
    rw [segments_singleton hslash] at hcount
    have hle := List.length_filter_le (fun s => !idle s) [joinPath base dirs]
    rw [List.length_singleton] at hle
    omega
  · dsimp only at hdot
    split at hdot
    · exact absurd hdot (by decide)
    · have hne : (segments (joinPath base dirs)).dropLast ≠ [] := by
        intro hnil
        rw [hnil] at hdot
        exact absurd hdot (by decide)
      have hfront : (segments (joinPath base dirs)).dropLast = [ascii "."] := by
        rw [← segments_unite hne (fun t ht => not_slash_of_mem_segments t (List.mem_of_mem_dropLast ht)),
          hdot]
        rfl
      rw [← List.dropLast_append_getLast (segments_ne_nil (joinPath base dirs)), hfront,
        List.filter_append, filter_idle (by decide), List.nil_append] at hcount
      have hle := List.length_filter_le (fun s => !idle s)
        [(segments (joinPath base dirs)).getLast (segments_ne_nil _)]
      rw [List.length_singleton] at hle
      omega

theorem Plain.not_idle {s : ByteString} (h : Plain s) : idle s = false := by
  rw [idle, decide_eq_false h.nonempty, decide_eq_false h.noDot]
  rfl

theorem plain_iff {s : ByteString} :
    Plain s ↔ byte '/' ∉ s ∧ s ≠ [] ∧ s ≠ ascii "." ∧ s ≠ ascii ".." :=
  ⟨fun h => ⟨h.noSlash, h.nonempty, h.noDot, h.noDotDot⟩,
    fun ⟨hslash, hne, hdot, hdots⟩ => ⟨hslash, hne, hdot, hdots⟩⟩

instance (s : ByteString) : Decidable (Plain s) := decidable_of_iff _ plain_iff.symm

end PathSegments

namespace VHono

open ByteString PathSegments FileTrees

/-! ## Places -/

/-- The segments of an object's path; a backslash separates like a slash. -/
def objectSegments (o : ByteString × ByteString) : List ByteString :=
  segments (slashed o.1) ++ segments (slashed o.2)

/-- Objects whose places do not get in each other's way. -/
structure SeparateObjects (named : List (ByteString × ByteString)) : Prop where
  plain   : ∀ o ∈ named, ∀ t ∈ objectSegments o, Plain t
  apart   : ∀ o ∈ named, ∀ o' ∈ named, objectSegments o <+: objectSegments o' → o = o'
  outside : ∀ o ∈ named, (objectSegments o).head? ≠ some (ascii ".multipart")

def objectPath (base : Path) (o : ByteString × ByteString) : Path := base ++ objectSegments o

/-- A place in the directory of the uploads. -/
def uploadPath (base : Path) (path : List ByteString) : Path :=
  base ++ ascii ".multipart" :: path

section Places

variable {base : Path} {named : List (ByteString × ByteString)} {o o' : ByteString × ByteString}

theorem objectSegments_ne_nil (o : ByteString × ByteString) : objectSegments o ≠ [] :=
  fun h => segments_ne_nil _ (List.append_eq_nil_iff.mp h).1

theorem objectPath_ne_nil : objectPath base o ≠ [] :=
  fun h => objectSegments_ne_nil o (List.append_eq_nil_iff.mp h).2

theorem uploadPath_ne_nil {path : List ByteString} : uploadPath base path ≠ [] :=
  fun h => List.cons_ne_nil _ _ (List.append_eq_nil_iff.mp h).2

theorem uploadPath_prefix_iff {path path' : List ByteString} :
    uploadPath base path <+: uploadPath base path' ↔ path <+: path' := by
  rw [uploadPath, uploadPath, List.prefix_append_right_inj, List.prefix_cons_inj]

theorem uploadPath_inj {path path' : List ByteString}
    (h : uploadPath base path = uploadPath base path') : path = path' :=
  (List.cons.inj (List.append_cancel_left h)).2

theorem SeparateObjects.object_prefix (h : SeparateObjects named) (ho : o ∈ named) (ho' : o' ∈ named)
    (hbelow : objectPath base o <+: objectPath base o') : o = o' :=
  h.apart o ho o' ho' ((List.prefix_append_right_inj base).mp hbelow)

theorem SeparateObjects.not_upload_prefix (h : SeparateObjects named) (ho : o ∈ named) (path : List ByteString) :
    ¬ uploadPath base path <+: objectPath base o := by
  intro hbelow
  obtain ⟨rest, hrest⟩ := (List.prefix_append_right_inj base).mp hbelow
  refine h.outside o ho ?_
  rw [← hrest]
  rfl

theorem SeparateObjects.not_prefix_upload (h : SeparateObjects named) (ho : o ∈ named) (path : List ByteString) :
    ¬ objectPath base o <+: uploadPath base path := by
  intro hbelow
  obtain ⟨rest, hrest⟩ := (List.prefix_append_right_inj base).mp hbelow
  obtain ⟨first, tail, hsegments⟩ := List.exists_cons_of_ne_nil (objectSegments_ne_nil o)
  rw [hsegments, List.cons_append] at hrest
  refine h.outside o ho ?_
  rw [hsegments, (List.cons.inj hrest).1]
  rfl

end Places

/-! ## The texts of the places -/

namespace DiskStorage

variable {s : DiskStorage} (cwd : Path) {bucket key : ByteString}

theorem ne_nil_of_plain {s : ByteString} (h : ∀ t ∈ segments (slashed s), Plain t) : s ≠ [] := by
  rintro rfl
  exact (h [] (List.mem_singleton.mpr rfl)).nonempty rfl

theorem partSegments_object (h : ∀ t ∈ objectSegments (bucket, key), Plain t) :
    partSegments [bucket, key] = objectSegments (bucket, key) := by
  have hbucket : bucket ≠ [] := ne_nil_of_plain (fun t ht => h t (List.mem_append_left _ ht))
  have hkey : key ≠ [] := ne_nil_of_plain (fun t ht => h t (List.mem_append_right _ ht))
  simp [partSegments, objectSegments, hbucket, hkey]

theorem resolve_objectPath (h : ∀ t ∈ objectSegments (bucket, key), Plain t) :
    resolveText cwd (s.getFullPath bucket key) = objectPath (s.base cwd) (bucket, key) := by
  have hparts := partSegments_object h
  rw [getFullPath, (resolveText_joinPath cwd _ (by rw [hparts]; exact objectSegments_ne_nil _)).1,
    hparts, resolve_plain h]
  rfl

/-- An object's directory is made by its path. -/
theorem resolve_parent (h : ∀ t ∈ objectSegments (bucket, key), Plain t) :
    dirOf (s.getFullPath bucket key) ≠ ascii "." ∧
      resolveText cwd (dirOf (s.getFullPath bucket key))
        = (objectPath (s.base cwd) (bucket, key)).dropLast := by
  have hparts := partSegments_object h
  constructor
  · refine dirOf_joinPath_ne_dot ?_
    have hall : (objectSegments (bucket, key)).filter (fun s => !idle s)
        = objectSegments (bucket, key) := by
      refine List.filter_eq_self.mpr (fun t ht => ?_)
      rw [(h t ht).not_idle]
      rfl
    have hbucket := List.length_pos_of_ne_nil (segments_ne_nil (slashed bucket))
    have hkey := List.length_pos_of_ne_nil (segments_ne_nil (slashed key))
    rw [hparts, hall, objectSegments, List.length_append]
    exact Nat.add_le_add hbucket hkey
  · rw [getFullPath, (resolveText_joinPath cwd _ (by rw [hparts]; exact objectSegments_ne_nil _)).2,
      hparts, resolve_plain (fun t ht => h t (List.mem_of_mem_dropLast ht)), objectPath,
      List.dropLast_append_of_ne_nil (objectSegments_ne_nil _)]
    rfl

/-- A bucket's directory is on the way to its objects. -/
theorem resolve_bucketPath (h : ∀ t ∈ objectSegments (bucket, key), Plain t) :
    resolveText cwd (s.getBucketPath bucket) <+: objectPath (s.base cwd) (bucket, key) ∧
      resolveText cwd (s.getBucketPath bucket) ≠ objectPath (s.base cwd) (bucket, key) := by
  have hplain : ∀ t ∈ segments (slashed bucket), Plain t :=
    fun t ht => h t (List.mem_append_left _ ht)
  have hbucket : bucket ≠ [] := ne_nil_of_plain hplain
  have hparts : partSegments [bucket] = segments (slashed bucket) := by
    simp [partSegments, hbucket]
  have hpath : resolveText cwd (s.getBucketPath bucket)
      = s.base cwd ++ segments (slashed bucket) := by
    rw [getBucketPath, (resolveText_joinPath cwd _ (by rw [hparts]; exact segments_ne_nil _)).1,
      hparts, resolve_plain hplain]
    rfl
  rw [hpath, objectPath, objectSegments, ← List.append_assoc]
  refine ⟨List.prefix_append _ _, fun heq => ?_⟩
  exact segments_ne_nil _ (List.self_eq_append_right.mp heq)

theorem resolve_tempDir (id : EntryName) :
    resolveText cwd (s.tempDir id.text) = uploadPath (s.base cwd) [id.text] := by
  have hparts : partSegments [ascii ".multipart", id.text] = [ascii ".multipart", id.text] := by
    show partSegments ([multipartName.text] ++ [id.text]) = _
    rw [partSegments, List.filter_append, List.flatMap_append]
    exact congrArg₂ (· ++ ·) (partSegments_name multipartName) (partSegments_name id)
  rw [tempDir, (resolveText_joinPath cwd _ (by rw [hparts]; exact List.cons_ne_nil _ _)).1, hparts,
    resolve_plain]
  · rfl
  · intro t ht
    rcases List.mem_cons.mp ht with rfl | hmem
    · exact multipartName.plain
    · exact List.mem_singleton.mp hmem ▸ id.plain

theorem resolve_partPath (id : EntryName) (n : Int) :
    resolveText cwd (s.partPath id.text n) = uploadPath (s.base cwd) [id.text, intStr n] := by
  have hparts := partSegments_name (partName n)
  rw [partPath, (resolveText_joinPath cwd _ (by
      show partSegments [(partName n).text] ≠ []
      rw [hparts]
      exact List.cons_ne_nil _ _)).1, resolve_tempDir]
  show resolve _ (partSegments [(partName n).text]) = _
  rw [hparts, resolve_plain (fun t ht => List.mem_singleton.mp ht ▸ (partName n).plain), uploadPath,
    List.append_assoc]
  rfl

end DiskStorage

end VHono
