import Mathlib.Data.List.DropRight
import VHono.PathSegments

/-! # Paths as texts

    A path as a text is joined from parts, of which either separator may end
    one, and cut before its last segment to name the directory that it is in.
    What it names is found by following its segments.  Joining resolves to
    following the parts one after the other, whatever they are, so a part that
    goes up leads out of the directory that it is joined to. -/

namespace PathSegments

open ByteString

/-- The backslash is a separator too. -/
def slashed (s : ByteString) : ByteString :=
  s.map (fun b => if b = byte '\\' then byte '/' else b)

/-- A segment that stays where it is. -/
def idle (segment : ByteString) : Bool := segment = [] || segment = ascii "."

/-- The idle segments between the first and the last one dropped. -/
def squeeze : List ByteString → List ByteString
  | [] => []
  | first :: rest => first :: (rest.dropLast.filter (fun s => !idle s) ++ rest.getLast?.toList)

def unite (path : List ByteString) : ByteString := [byte '/'].intercalate path

/-- `/./` and `//` become `/`. -/
def normalizePath (s : ByteString) : ByteString := unite (squeeze (segments (slashed s)))

def isSeparator (b : UInt8) : Bool := b = byte '/' || b = byte '\\'

/-- `os.join_path` -/
def joinPath (base : ByteString) (dirs : List ByteString) : ByteString :=
  let joined := base.rdropWhile isSeparator
    ++ dirs.flatMap (fun d => if d = [] then [] else byte '/' :: d)
  if base = [] then (normalizePath joined).dropWhile (· = byte '/') else normalizePath joined

/-- `os.dir` -/
def dirOf (path : ByteString) : ByteString :=
  if byte '/' ∉ path then ascii "."
  else
    let parent := unite (segments path).dropLast
    if parent = [] then ascii "/" else parent

/-- Where the first segment of a text is followed from. -/
def start (cwd : Path) (text : ByteString) : Path :=
  if text.head? = some (byte '/') then [] else cwd

/-- What a text names, seen from the working directory. -/
def resolveText (cwd : Path) (text : ByteString) : Path :=
  resolve (start cwd (slashed text)) (segments (slashed text))

/-- The segments of parts that are joined. -/
def partSegments (dirs : List ByteString) : List ByteString :=
  (dirs.filter (· ≠ [])).flatMap (fun d => segments (slashed d))

/-! ## Segments -/

theorem segments_append (a b : ByteString) :
    segments (a ++ byte '/' :: b) = segments a ++ segments b :=
  List.splitOn_append_cons_self a b

theorem segments_ne_nil (s : ByteString) : segments s ≠ [] := List.splitOn_ne_nil _ _

theorem segments_slash (s : ByteString) : segments (byte '/' :: s) = [] :: segments s :=
  segments_append [] s

theorem segments_singleton {s : ByteString} (h : byte '/' ∉ s) : segments s = [s] :=
  List.splitOn_eq_singleton h

theorem segments_unite {path : List ByteString} (hne : path ≠ []) (h : ∀ s ∈ path, byte '/' ∉ s) :
    segments (unite path) = path :=
  List.splitOn_intercalate _ h hne

theorem unite_segments (s : ByteString) : unite (segments s) = s :=
  List.intercalate_splitOn _

theorem not_slash_of_mem_segments {s : ByteString} : ∀ t ∈ segments s, byte '/' ∉ t := by
  induction s with
  | nil =>
      intro t ht
      rw [segments, List.splitOn_nil, List.mem_singleton] at ht
      rw [ht]
      exact List.not_mem_nil
  | cons b s ih =>
      by_cases hb : b = byte '/'
      · intro t ht
        rw [hb, segments_slash] at ht
        rcases List.mem_cons.mp ht with rfl | hmem
        · exact List.not_mem_nil
        · exact ih t hmem
      · intro t ht
        rw [segments, List.splitOn_cons_eq_if_modifyHead, if_neg (by simpa using hb)] at ht
        cases hs : List.splitOn (byte '/') s with
        | nil => exact absurd hs (List.splitOn_ne_nil _ _)
        | cons first rest =>
            rw [hs, List.modifyHead_cons] at ht
            have hfirst : ∀ u ∈ first :: rest, byte '/' ∉ u := by
              rw [← hs]
              exact ih
            rcases List.mem_cons.mp ht with rfl | hmem
            · intro hslash
              rcases List.mem_cons.mp hslash with heq | hin
              · exact hb heq.symm
              · exact hfirst first (List.mem_cons_self ..) hin
            · exact hfirst t (List.mem_cons_of_mem _ hmem)

theorem slashed_append (a b : ByteString) : slashed (a ++ b) = slashed a ++ slashed b :=
  List.map_append

theorem slashed_eq_self {s : ByteString} (h : byte '\\' ∉ s) : slashed s = s := by
  refine (List.map_congr_left ?_).trans (List.map_id s)
  intro b hb
  refine if_neg ?_
  rintro rfl
  exact h hb

theorem not_backslash_mem_slashed (s : ByteString) : byte '\\' ∉ slashed s := by
  intro h
  obtain ⟨b, -, hb⟩ := List.mem_map.mp h
  split at hb
  · exact absurd hb (by decide)
  · next hne => exact hne hb

/-! ## Following segments -/

theorem resolve_append (dir : Path) (a b : List ByteString) :
    resolve dir (a ++ b) = resolve (resolve dir a) b :=
  List.foldl_append

theorem enter_idle {dir : Path} {s : ByteString} (h : idle s = true) : enter dir s = dir := by
  rw [idle, Bool.or_eq_true, decide_eq_true_iff, decide_eq_true_iff] at h
  exact if_pos h

theorem resolve_idle {path : List ByteString} :
    ∀ {dir : Path}, (∀ s ∈ path, idle s = true) → resolve dir path = dir := by
  induction path with
  | nil => intro dir _; rfl
  | cons s path ih =>
      intro dir h
      show resolve (enter dir s) path = dir
      rw [enter_idle (h s (List.mem_cons_self ..))]
      exact ih (fun t ht => h t (List.mem_cons_of_mem _ ht))

theorem resolve_filter (path : List ByteString) :
    ∀ dir : Path, resolve dir (path.filter (fun s => !idle s)) = resolve dir path := by
  induction path with
  | nil => intro dir; rfl
  | cons s path ih =>
      intro dir
      rw [List.filter_cons]
      cases hs : idle s with
      | true =>
          show resolve dir (path.filter _) = resolve (enter dir s) path
          rw [enter_idle hs]
          exact ih dir
      | false => exact ih (enter dir s)

theorem dropLast_append_getLast (rest : List ByteString) :
    rest.dropLast ++ rest.getLast?.toList = rest := by
  cases rest using List.reverseRecOn with
  | nil => rfl
  | append_singleton rest last => rw [List.dropLast_concat, List.getLast?_concat]; rfl

/-- Squeezing leaves where the segments lead, and where those before the last one lead. -/
theorem resolve_squeeze (dir : Path) (path : List ByteString) :
    resolve dir (squeeze path) = resolve dir path ∧
      resolve dir (squeeze path).dropLast = resolve dir path.dropLast := by
  cases path with
  | nil => exact ⟨rfl, rfl⟩
  | cons first rest =>
      cases rest using List.reverseRecOn with
      | nil => exact ⟨rfl, rfl⟩
      | append_singleton rest last =>
          rw [squeeze, List.dropLast_concat, List.getLast?_concat]
          constructor
          · show resolve (enter dir first) (_ ++ [last]) = resolve (enter dir first) (rest ++ [last])
            rw [resolve_append, resolve_append, resolve_filter]
          · rw [← List.cons_append, Option.toList_some, ← List.cons_append, List.dropLast_concat,
              List.dropLast_concat]
            exact resolve_filter rest (enter dir first)

/-! ## Where texts start -/

/-- Where the first of some segments is followed from. -/
def origin (cwd : Path) : List ByteString → Path
  | [] :: _ :: _ => []
  | _ => cwd

theorem start_eq_origin (cwd : Path) (s : ByteString) : start cwd s = origin cwd (segments s) := by
  cases s with
  | nil => rfl
  | cons b s =>
      by_cases hb : b = byte '/'
      · rw [hb, segments_slash]
        obtain ⟨first, rest, hs⟩ := List.exists_cons_of_ne_nil (segments_ne_nil s)
        rw [hs]
        exact if_pos rfl
      · have hstart : start cwd (b :: s) = cwd := if_neg (fun h => hb (Option.some.inj h))
        rw [hstart, segments, List.splitOn_cons_eq_if_modifyHead, if_neg (by simpa using hb)]
        obtain ⟨first, rest, hs⟩ := List.exists_cons_of_ne_nil (segments_ne_nil s)
        rw [segments] at hs
        rw [hs, List.modifyHead_cons]
        rfl

theorem origin_squeeze (cwd : Path) (path : List ByteString) :
    origin cwd (squeeze path) = origin cwd path := by
  cases path with
  | nil => rfl
  | cons first rest =>
      cases rest using List.reverseRecOn with
      | nil => rfl
      | append_singleton rest last =>
          rw [squeeze, List.dropLast_concat, List.getLast?_concat, Option.toList_some]
          cases first with
          | cons b first => rfl
          | nil =>
              have hcons : ∀ l : List ByteString, origin cwd ([] :: (l ++ [last])) = [] := by
                intro l
                cases l with
                | nil => rfl
                | cons s l => rfl
              rw [hcons, hcons]

theorem squeeze_ne_nil {path : List ByteString} (h : path ≠ []) : squeeze path ≠ [] := by
  cases path with
  | nil => exact absurd rfl h
  | cons first rest => exact List.cons_ne_nil _ _

theorem mem_of_mem_squeeze {path : List ByteString} {t : ByteString} (h : t ∈ squeeze path) :
    t ∈ path := by
  cases path with
  | nil => exact h
  | cons first rest =>
      rcases List.mem_cons.mp h with rfl | hmem
      · exact List.mem_cons_self ..
      · refine List.mem_cons_of_mem _ ?_
        rw [← dropLast_append_getLast rest]
        rcases List.mem_append.mp hmem with hmiddle | hlast
        · exact List.mem_append_left _ (List.mem_of_mem_filter hmiddle)
        · exact List.mem_append_right _ hlast

theorem segments_normalizePath (s : ByteString) :
    segments (normalizePath s) = squeeze (segments (slashed s)) :=
  segments_unite (squeeze_ne_nil (segments_ne_nil _))
    (fun t ht => not_slash_of_mem_segments t (mem_of_mem_squeeze ht))

theorem mem_unite {path : List ByteString} {b : UInt8} (hb : b ≠ byte '/') :
    b ∈ unite path ↔ ∃ s ∈ path, b ∈ s := by
  induction path with
  | nil => simp [unite, List.intercalate_nil]
  | cons first rest ih =>
      cases rest with
      | nil => simp [unite, List.intercalate_singleton]
      | cons next rest =>
          have hrest : b ∈ [byte '/'].intercalate (next :: rest) ↔ ∃ s ∈ next :: rest, b ∈ s := ih
          rw [unite, List.intercalate_cons_cons, List.mem_append, List.mem_append, hrest]
          simp [hb]

theorem not_backslash_mem_normalizePath (s : ByteString) : byte '\\' ∉ normalizePath s := by
  intro h
  obtain ⟨t, ht, hb⟩ := (mem_unite (by decide)).mp h
  refine not_backslash_mem_slashed s ?_
  rw [← unite_segments (slashed s)]
  exact (mem_unite (by decide)).mpr ⟨t, mem_of_mem_squeeze ht, hb⟩

theorem resolveText_of_segments {cwd : Path} {s : ByteString} (h : byte '\\' ∉ s) :
    resolveText cwd s = resolve (origin cwd (segments s)) (segments s) := by
  rw [resolveText, slashed_eq_self h, start_eq_origin]

/-- **NORMALIZING** a text leaves what it names. -/
theorem resolveText_normalizePath (cwd : Path) (s : ByteString) :
    resolveText cwd (normalizePath s) = resolveText cwd s := by
  rw [resolveText_of_segments (not_backslash_mem_normalizePath s), segments_normalizePath,
    origin_squeeze, (resolve_squeeze _ _).1, resolveText, start_eq_origin]

/-- **THE DIRECTORY** of a text is what all its segments but the last one lead to. -/
theorem resolveText_dirOf {cwd : Path} {s : ByteString} (h : byte '\\' ∉ s) :
    resolveText cwd (dirOf s) = resolve (origin cwd (segments s)) (segments s).dropLast := by
  rw [dirOf]
  by_cases hslash : byte '/' ∉ s
  · rw [if_pos hslash, segments_singleton hslash]
    cases s <;> rfl
  · rw [if_neg hslash]
    obtain ⟨a, b, rfl⟩ := List.append_of_mem (not_not.mp hslash)
    rw [segments_append]
    obtain ⟨first, rest, ha⟩ := List.exists_cons_of_ne_nil (segments_ne_nil a)
    have hb := segments_ne_nil b
    have hdrop : (segments a ++ segments b).dropLast = segments a ++ (segments b).dropLast :=
      List.dropLast_append_of_ne_nil hb
    have hplain : ∀ t ∈ segments a ++ (segments b).dropLast, byte '/' ∉ t := by
      intro t ht
      rcases List.mem_append.mp ht with hta | htb
      · exact not_slash_of_mem_segments t hta
      · exact not_slash_of_mem_segments t (List.mem_of_mem_dropLast htb)
    have hne : segments a ++ (segments b).dropLast ≠ [] := by
      rw [ha]
      exact List.cons_ne_nil _ _
    dsimp only
    rw [hdrop]
    by_cases hroot : unite (segments a ++ (segments b).dropLast) = []
    · -- the text is a slash and one segment
      have hsingle : segments a ++ (segments b).dropLast = [[]] := by
        rw [← segments_unite hne hplain, hroot]
        rfl
      rw [if_pos hroot, hsingle]
      have hab : segments a = [[]] := by
        rw [ha] at hsingle ⊢
        obtain ⟨hfirst, hrest⟩ := List.cons.inj hsingle
        rw [hfirst, (List.append_eq_nil_iff.mp hrest).1]
      obtain ⟨last, tail, hbc⟩ := List.exists_cons_of_ne_nil hb
      rw [hab, hbc]
      rfl
    · have hback : byte '\\' ∉ unite (segments a ++ (segments b).dropLast) := by
        intro hmem
        obtain ⟨t, ht, hbt⟩ := (mem_unite (by decide)).mp hmem
        refine h ?_
        rw [← unite_segments (a ++ byte '/' :: b), segments_append]
        refine (mem_unite (by decide)).mpr ⟨t, ?_, hbt⟩
        rcases List.mem_append.mp ht with hta | htb
        · exact List.mem_append_left _ hta
        · exact List.mem_append_right _ (List.mem_of_mem_dropLast htb)
      rw [if_neg hroot, resolveText_of_segments hback, segments_unite hne hplain]
      refine congrArg (resolve · _) ?_
      rw [ha, List.cons_append, List.cons_append]
      cases first with
      | cons c first => rfl
      | nil =>
          cases hrest : rest ++ (segments b).dropLast with
          | nil =>
              refine absurd ?_ hroot
              rw [ha, List.cons_append, hrest]
              rfl
          | cons t tail =>
              obtain ⟨last, more, hbc⟩ := List.exists_cons_of_ne_nil hb
              cases rest with
              | nil => rw [hbc]; rfl
              | cons u rest => rfl

/-! ## Joining -/

theorem segments_slashes {s : ByteString} (h : ∀ b ∈ s, b = byte '/') :
    ∀ t ∈ segments s, idle t = true := by
  induction s with
  | nil =>
      intro t ht
      rw [segments, List.splitOn_nil, List.mem_singleton] at ht
      rw [ht]
      rfl
  | cons b s ih =>
      obtain rfl := h b (List.mem_cons_self ..)
      intro t ht
      rw [segments_slash] at ht
      rcases List.mem_cons.mp ht with rfl | hmem
      · rfl
      · exact ih (fun c hc => h c (List.mem_cons_of_mem _ hc)) t hmem

/-- Separators at the end of a text lead nowhere. -/
theorem resolve_trailing (dir : Path) (s : ByteString) {slashes : ByteString}
    (h : ∀ b ∈ slashes, b = byte '/') :
    resolve dir (segments (s ++ slashes)) = resolve dir (segments s) := by
  cases slashes with
  | nil => rw [List.append_nil]
  | cons b slashes =>
      obtain rfl := h b (List.mem_cons_self ..)
      rw [segments_append, resolve_append]
      exact resolve_idle (segments_slashes (fun c hc => h c (List.mem_cons_of_mem _ hc)))

/-- Separators at the beginning of a text are idle segments. -/
theorem segments_dropWhile (s : ByteString) : ∃ slashes, (∀ t ∈ slashes, idle t = true) ∧
    segments s = slashes ++ segments (s.dropWhile (· = byte '/')) := by
  induction s with
  | nil => exact ⟨[], List.forall_mem_nil _, rfl⟩
  | cons b s ih =>
      by_cases hb : b = byte '/'
      · obtain ⟨slashes, hidle, hs⟩ := ih
        refine ⟨[] :: slashes, ?_, ?_⟩
        · intro t ht
          rcases List.mem_cons.mp ht with rfl | hmem
          · rfl
          · exact hidle t hmem
        · rw [List.dropWhile_cons_of_pos (by simpa using hb), hb, segments_slash, hs]
          rfl
      · refine ⟨[], List.forall_mem_nil _, ?_⟩
        rw [List.dropWhile_cons_of_neg (by simpa using hb), List.nil_append]

theorem start_dropWhile (cwd : Path) (s : ByteString) :
    start cwd (s.dropWhile (· = byte '/')) = cwd := by
  refine if_neg ?_
  intro h
  have hne : s.dropWhile (· = byte '/') ≠ [] := by
    intro hnil
    rw [hnil] at h
    cases h
  have hhead := List.head_dropWhile_not (fun b => decide (b = byte '/')) hne
  rw [List.head?_eq_some_head hne] at h
  rw [Option.some.inj h] at hhead
  exact absurd hhead (by decide)

theorem segments_joined (dirs : List ByteString) :
    ∀ u, segments (slashed (u ++ dirs.flatMap (fun d => if d = [] then [] else byte '/' :: d)))
      = segments (slashed u) ++ partSegments dirs := by
  induction dirs with
  | nil => intro u; rw [List.flatMap_nil, List.append_nil]; exact (List.append_nil _).symm
  | cons d dirs ih =>
      intro u
      by_cases hd : d = []
      · rw [hd, List.flatMap_cons, if_pos rfl, List.nil_append, ih u, partSegments, partSegments]
        rfl
      · have hparts : partSegments (d :: dirs) = segments (slashed d) ++ partSegments dirs := by
          rw [partSegments, List.filter_cons_of_pos (by simpa using hd), List.flatMap_cons]
          rfl
        rw [List.flatMap_cons, if_neg hd, ← List.append_assoc, ih, slashed_append, hparts,
          ← List.append_assoc]
        exact congrArg (· ++ partSegments dirs) (segments_append (slashed u) (slashed d))

theorem start_append {cwd : Path} {u v : ByteString} (hu : u ≠ []) :
    start cwd (slashed (u ++ v)) = start cwd (slashed u) := by
  cases u with
  | nil => exact absurd rfl hu
  | cons b u => rfl

theorem mem_slashed_separators {s : ByteString} (h : ∀ b ∈ s, isSeparator b = true) :
    ∀ b ∈ slashed s, b = byte '/' := by
  intro b hb
  obtain ⟨c, hc, rfl⟩ := List.mem_map.mp hb
  have hsep := h c hc
  rw [isSeparator, Bool.or_eq_true, decide_eq_true_iff, decide_eq_true_iff] at hsep
  rcases hsep with rfl | rfl <;> rfl

/-- The separators that a base ends in lead nowhere, unless it has nothing else. -/
theorem resolveText_trimmed (cwd : Path) (base : ByteString) :
    (base.rdropWhile isSeparator = [] ∧ base ≠ [] ∧ resolveText cwd base = []) ∨
      base = [] ∨
      (base.rdropWhile isSeparator ≠ [] ∧ base ≠ [] ∧
        resolveText cwd base = resolve (start cwd (slashed (base.rdropWhile isSeparator)))
          (segments (slashed (base.rdropWhile isSeparator)))) := by
  have hsplit : base.rdropWhile isSeparator ++ base.rtakeWhile isSeparator = base :=
    List.rdropWhile_append_rtakeWhile
  have hslashes : ∀ b ∈ slashed (base.rtakeWhile isSeparator), b = byte '/' :=
    mem_slashed_separators (fun b hb => List.mem_rtakeWhile_imp hb)
  by_cases hbase : base = []
  · exact Or.inr (Or.inl hbase)
  · by_cases htrimmed : base.rdropWhile isSeparator = []
    · refine Or.inl ⟨htrimmed, hbase, ?_⟩
      have hall : ∀ b ∈ slashed base, b = byte '/' := by
        rw [htrimmed, List.nil_append] at hsplit
        rw [hsplit] at hslashes
        exact hslashes
      rw [resolveText, resolve_idle (segments_slashes hall)]
      obtain ⟨b, tail, rfl⟩ := List.exists_cons_of_ne_nil hbase
      exact if_pos (congrArg some (hall _ (List.mem_cons_self ..)))
    · refine Or.inr (Or.inr ⟨htrimmed, hbase, ?_⟩)
      have heq : resolveText cwd base
          = resolveText cwd (base.rdropWhile isSeparator ++ base.rtakeWhile isSeparator) := by
        rw [hsplit]
      rw [heq, resolveText, start_append htrimmed, slashed_append, resolve_trailing _ _ hslashes]

/-- **JOINED PARTS ARE FOLLOWED** one after the other from the base, and all but the last
    segment of them lead to the directory of the joined text. -/
theorem resolveText_joinPath (cwd : Path) (base : ByteString) {dirs : List ByteString}
    (hdirs : partSegments dirs ≠ []) :
    resolveText cwd (joinPath base dirs) = resolve (resolveText cwd base) (partSegments dirs) ∧
      resolveText cwd (dirOf (joinPath base dirs))
        = resolve (resolveText cwd base) (partSegments dirs).dropLast := by
  have hnormal := fun s => not_backslash_mem_normalizePath s
  by_cases hbase : base = []
  · -- without a base the text is relative to the working directory
    have hjoin : joinPath base dirs = (normalizePath (dirs.flatMap (fun d =>
        if d = [] then [] else byte '/' :: d))).dropWhile (· = byte '/') := by
      rw [joinPath, if_pos hbase, hbase, List.rdropWhile_nil, List.nil_append]
    have hsegments := segments_joined dirs []
    rw [List.nil_append] at hsegments
    obtain ⟨slashes, hidle, hdrop⟩ := segments_dropWhile (normalizePath (dirs.flatMap (fun d =>
      if d = [] then [] else byte '/' :: d)))
    rw [← hjoin, segments_normalizePath, hsegments] at hdrop
    have hback : byte '\\' ∉ joinPath base dirs := by
      rw [hjoin]
      exact fun h => hnormal _ ((List.dropWhile_sublist _).subset h)
    have horigin : origin cwd (segments (joinPath base dirs)) = cwd := by
      rw [← start_eq_origin, hjoin, start_dropWhile]
    have hcwd : resolveText cwd base = cwd := by rw [hbase]; rfl
    obtain ⟨hall, hbut⟩ := resolve_squeeze cwd (segments (slashed []) ++ partSegments dirs)
    rw [hdrop] at hall hbut
    rw [List.dropLast_append_of_ne_nil (segments_ne_nil _), resolve_append, resolve_idle hidle] at hbut
    rw [resolve_append, resolve_idle hidle] at hall
    rw [resolveText_of_segments hback, resolveText_dirOf hback, horigin, hcwd, hall, hbut]
    refine ⟨rfl, ?_⟩
    rw [List.dropLast_append_of_ne_nil hdirs]
    rfl
  · have hjoin : joinPath base dirs = normalizePath (base.rdropWhile isSeparator
        ++ dirs.flatMap (fun d => if d = [] then [] else byte '/' :: d)) := by
      rw [joinPath, if_neg hbase]
    have hsegments := segments_joined dirs (base.rdropWhile isSeparator)
    -- the segments of the trimmed base lead to where the base leads
    have hlead : resolve (origin cwd (segments (slashed (base.rdropWhile isSeparator))
        ++ partSegments dirs)) (segments (slashed (base.rdropWhile isSeparator)))
          = resolveText cwd base := by
      rcases resolveText_trimmed cwd base with ⟨htrimmed, -, hroot⟩ | hnil | ⟨htrimmed, -, hsame⟩
      · obtain ⟨t, tail, hparts⟩ := List.exists_cons_of_ne_nil hdirs
        rw [htrimmed, hroot, hparts]
        rfl
      · exact absurd hnil hbase
      · rw [hsame, ← hsegments, ← start_eq_origin, start_append htrimmed]
    rw [hjoin, resolveText_of_segments (hnormal _), resolveText_dirOf (hnormal _),
      segments_normalizePath, hsegments, origin_squeeze, (resolve_squeeze _ _).1,
      (resolve_squeeze _ _).2, List.dropLast_append_of_ne_nil hdirs, resolve_append,
      resolve_append, hlead]
    exact ⟨rfl, rfl⟩

/-- What is joined to nothing is the base, unless the base is the root. -/
theorem resolveText_joinPath_same (cwd : Path) (base : ByteString) {dirs : List ByteString}
    (hdirs : partSegments dirs = []) :
    resolveText cwd base = [] ∨ resolveText cwd (joinPath base dirs) = resolveText cwd base := by
  have hnone : dirs.flatMap (fun d => if d = [] then [] else byte '/' :: d) = [] := by
    refine List.flatMap_eq_nil_iff.mpr ?_
    intro d hd
    by_cases hnil : d = []
    · exact if_pos hnil
    · have hmem : d ∈ dirs.filter (· ≠ []) := List.mem_filter.mpr ⟨hd, by simpa using hnil⟩
      exact absurd (List.flatMap_eq_nil_iff.mp hdirs d hmem) (segments_ne_nil _)
  rcases resolveText_trimmed cwd base with ⟨-, -, hroot⟩ | hnil | ⟨htrimmed, hbase, hsame⟩
  · exact .inl hroot
  · refine .inr ?_
    rw [joinPath, hnone, hnil]
    rfl
  · refine .inr ?_
    rw [joinPath, if_neg hbase, hnone, List.append_nil, resolveText_normalizePath, hsame]
    rfl

theorem resolveText_joinPath_nil (cwd : Path) (base : ByteString) {dirs : List ByteString}
    (hdirs : partSegments dirs = []) : resolveText cwd base <+: resolveText cwd (joinPath base dirs) := by
  rcases resolveText_joinPath_same cwd base hdirs with hroot | hsame
  · rw [hroot]
    exact List.nil_prefix
  · rewrite [hsame]
    exact List.prefix_refl _

/-! ## Below a directory -/

/-- One segment taken to what is left after cancelling: how often it goes up, and what it then
    goes down. -/
def climbStep (climbed : Nat × List ByteString) (segment : ByteString) : Nat × List ByteString :=
  if idle segment = true then climbed
  else if segment = ascii ".." then
    if climbed.2 = [] then (climbed.1 + 1, []) else (climbed.1, climbed.2.dropLast)
  else (climbed.1, climbed.2 ++ [segment])

def climb (path : List ByteString) : Nat × List ByteString := path.foldl climbStep (0, [])

/-- The segments stay below the directory: as many names of it as they go up they come down
    again. -/
def StaysBelow (dir : Path) (path : List ByteString) : Prop :=
  dir.drop (dir.length - (climb path).1) <+: (climb path).2

instance (dir : Path) (path : List ByteString) : Decidable (StaysBelow dir path) :=
  inferInstanceAs (Decidable (_ <+: _))

theorem enter_climbed (dir : Path) (climbed : Nat × List ByteString) (segment : ByteString) :
    enter (dir.take (dir.length - climbed.1) ++ climbed.2) segment
      = dir.take (dir.length - (climbStep climbed segment).1) ++ (climbStep climbed segment).2 := by
  rw [climbStep]
  by_cases hidle : idle segment = true
  · rw [if_pos hidle, enter_idle hidle]
  · have hgo : ¬ (segment = [] ∨ segment = ascii ".") := by
      rw [idle, Bool.or_eq_true, decide_eq_true_iff, decide_eq_true_iff] at hidle
      exact hidle
    rw [if_neg hidle, enter, if_neg hgo]
    by_cases hup : segment = ascii ".."
    · rw [if_pos hup, if_pos hup]
      by_cases hnone : climbed.2 = []
      · rw [if_pos hnone, hnone, List.append_nil, List.append_nil, List.dropLast_eq_take,
          List.take_take, List.length_take]
        congr 1
        omega
      · rw [if_neg hnone, List.dropLast_append_of_ne_nil hnone]
    · rw [if_neg hup, if_neg hup, List.append_assoc]

/-- **CANCELLING** leaves where the segments lead. -/
theorem resolve_climb (dir : Path) (path : List ByteString) :
    resolve dir path = dir.take (dir.length - (climb path).1) ++ (climb path).2 := by
  have hfold : ∀ climbed : Nat × List ByteString,
      resolve (dir.take (dir.length - climbed.1) ++ climbed.2) path
        = dir.take (dir.length - (path.foldl climbStep climbed).1)
          ++ (path.foldl climbStep climbed).2 := by
    induction path with
    | nil => intro climbed; rfl
    | cons s path ih =>
        intro climbed
        rw [List.foldl_cons, ← ih, ← enter_climbed]
        rfl
  have hstart := hfold (0, [])
  rw [Nat.sub_zero, List.take_length, List.append_nil] at hstart
  exact hstart

theorem prefix_resolve_iff {dir : Path} {path : List ByteString} :
    dir <+: resolve dir path ↔ StaysBelow dir path := by
  rw [resolve_climb, StaysBelow]
  calc dir <+: dir.take (dir.length - (climb path).1) ++ (climb path).2
      ↔ dir.take (dir.length - (climb path).1) ++ dir.drop (dir.length - (climb path).1)
          <+: dir.take (dir.length - (climb path).1) ++ (climb path).2 := by
        rw [List.take_append_drop]
    _ ↔ dir.drop (dir.length - (climb path).1) <+: (climb path).2 :=
        List.prefix_append_right_inj _

/-- Segments that never go up stay below. -/
theorem staysBelow_of_noUp (dir : Path) {path : List ByteString} (h : ascii ".." ∉ path) :
    StaysBelow dir path := by
  have hnone : ∀ climbed : Nat × List ByteString,
      climbed.1 = 0 → (path.foldl climbStep climbed).1 = 0 := by
    induction path with
    | nil => exact fun _ hzero => hzero
    | cons s path ih =>
        intro climbed hzero
        rw [List.mem_cons, not_or] at h
        refine ih h.2 _ ?_
        rw [climbStep]
        split
        · exact hzero
        · rw [if_neg (fun hup => h.1 hup.symm)]
          exact hzero
  rw [StaysBelow, climb, hnone (0, []) rfl, Nat.sub_zero, List.drop_length]
  exact List.nil_prefix

/-- **WHAT IS JOINED** is below the base exactly if its segments stay below it. -/
theorem joinPath_below_iff (cwd : Path) (base : ByteString) (dirs : List ByteString) :
    resolveText cwd base <+: resolveText cwd (joinPath base dirs) ↔
      StaysBelow (resolveText cwd base) (partSegments dirs) := by
  by_cases hdirs : partSegments dirs = []
  · have hstays : StaysBelow (resolveText cwd base) (partSegments dirs) := by
      rw [hdirs]
      show (resolveText cwd base).drop ((resolveText cwd base).length - 0) <+: []
      rw [Nat.sub_zero, List.drop_length]
    exact ⟨fun _ => hstays, fun _ => resolveText_joinPath_nil cwd base hdirs⟩
  · rw [(resolveText_joinPath cwd base hdirs).1, prefix_resolve_iff]

theorem partSegments_append (a b : List ByteString) :
    partSegments (a ++ b) = partSegments a ++ partSegments b := by
  rw [partSegments, List.filter_append, List.flatMap_append]
  rfl

/-- What is joined to something below the base is below it exactly if the segments of both,
    one after the other, stay below it. -/
theorem joinPath_twice_below_iff (cwd : Path) (base : ByteString) {dirs : List ByteString}
    (hdirs : StaysBelow (resolveText cwd base) (partSegments dirs)) (more : List ByteString) :
    resolveText cwd base <+: resolveText cwd (joinPath (joinPath base dirs) more) ↔
      StaysBelow (resolveText cwd base) (partSegments (dirs ++ more)) := by
  have hinner : resolveText cwd base = [] ∨ resolveText cwd (joinPath base dirs)
      = resolve (resolveText cwd base) (partSegments dirs) := by
    by_cases hnone : partSegments dirs = []
    · rw [hnone]
      exact resolveText_joinPath_same cwd base hnone
    · exact .inr (resolveText_joinPath cwd base hnone).1
  rcases hinner with hroot | hinner
  · rw [hroot]
    exact iff_of_true List.nil_prefix (prefix_resolve_iff.mp List.nil_prefix)
  · rw [partSegments_append]
    by_cases hnone : partSegments more = []
    · rw [hnone, List.append_nil]
      refine iff_of_true ?_ hdirs
      have hprefix := resolveText_joinPath_nil cwd (joinPath base dirs) hnone
      rw [hinner] at hprefix
      exact (prefix_resolve_iff.mpr hdirs).trans hprefix
    · rw [(resolveText_joinPath cwd _ hnone).1, hinner, ← resolve_append, prefix_resolve_iff]

theorem dirOf_joinPath_below_iff (cwd : Path) (base : ByteString) {dirs : List ByteString}
    (hdirs : partSegments dirs ≠ []) :
    resolveText cwd base <+: resolveText cwd (dirOf (joinPath base dirs)) ↔
      StaysBelow (resolveText cwd base) (partSegments dirs).dropLast := by
  rw [(resolveText_joinPath cwd base hdirs).2, prefix_resolve_iff]

theorem dirOf_ne_nil (s : ByteString) : dirOf s ≠ [] := by
  rw [dirOf]
  split
  · decide
  · dsimp only
    split
    · decide
    · next hparent => exact hparent

/-- If the directory of a joined text is the working directory, so is the base. -/
theorem below_of_dirOf_eq_dot {cwd : Path} {base : ByteString} {dirs : List ByteString}
    (hdirs : partSegments dirs ≠ []) (h : dirOf (joinPath base dirs) = ascii ".") :
    resolveText cwd base <+: cwd := by
  rcases resolveText_trimmed cwd base with ⟨-, -, hroot⟩ | hnil | ⟨htrimmed, hbase, hsame⟩
  · rw [hroot]
    exact List.nil_prefix
  · rw [hnil]
    exact List.prefix_refl _
  · obtain ⟨first, rest, hU⟩ := List.exists_cons_of_ne_nil
      (segments_ne_nil (slashed (base.rdropWhile isSeparator)))
    have hsegments : segments (joinPath base dirs)
        = squeeze (first :: (rest ++ partSegments dirs)) := by
      rw [joinPath, if_neg hbase, segments_normalizePath, segments_joined, hU, List.cons_append]
    obtain ⟨front, last, hparts⟩ : ∃ front last, partSegments dirs = front ++ [last] :=
      ⟨_, _, (List.dropLast_append_getLast hdirs).symm⟩
    rw [hparts, squeeze, ← List.append_assoc, List.dropLast_concat, List.getLast?_concat,
      Option.toList_some] at hsegments
    -- the segments before the last one are the dot alone
    have hdot : first :: (rest ++ front).filter (fun s => !idle s) = [ascii "."] := by
      have hslash : ¬ byte '/' ∉ joinPath base dirs := by
        intro hno
        rw [segments_singleton hno] at hsegments
        exact List.cons_ne_nil _ _
          (List.append_eq_nil_iff.mp (List.cons.inj hsegments).2.symm).2
      rw [dirOf, if_neg hslash, hsegments, ← List.cons_append, List.dropLast_concat] at h
      dsimp only at h
      split at h
      · exact absurd h (by decide)
      · have hplain : ∀ t ∈ first :: (rest ++ front).filter (fun s => !idle s), byte '/' ∉ t := by
          intro t ht
          refine not_slash_of_mem_segments t (s := joinPath base dirs) ?_
          rw [hsegments, ← List.cons_append]
          exact List.mem_append_left _ ht
        rw [← segments_unite (List.cons_ne_nil _ _) hplain, h]
        rfl
    obtain ⟨hfirst, hrest⟩ := List.cons.inj hdot
    have hidle : ∀ t ∈ first :: rest, idle t = true := by
      intro t ht
      rcases List.mem_cons.mp ht with rfl | hmem
      · rw [hfirst]
        rfl
      · have hfilter := List.filter_eq_nil_iff.mp hrest t (List.mem_append_left _ hmem)
        simpa using hfilter
    rw [hsame, hU, resolve_idle hidle, start]
    split
    · exact List.nil_prefix
    · exact List.prefix_refl _

end PathSegments
