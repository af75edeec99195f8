import VHono.FileNames
import VHono.SlashRuns
import VHono.Trimming

/-! # The validation of file paths

    A path is trimmed, written with slashes, and freed of doubled ones and of
    the last one before it is checked.  The checks are made on the text as a
    whole, on its beginning and on its last segment. -/

namespace VHono.Security

open ByteString PathSegments SlashRuns

/-- `allowed_file_extensions` -/
def allowedFileExtensions : List ByteString :=
  [ascii ".txt", ascii ".md", ascii ".pdf", ascii ".doc", ascii ".docx", ascii ".jpg",
    ascii ".jpeg", ascii ".png", ascii ".gif", ascii ".svg", ascii ".ico", ascii ".webp",
    ascii ".mp3", ascii ".mp4", ascii ".wav", ascii ".avi", ascii ".mov", ascii ".webm",
    ascii ".zip", ascii ".rar", ascii ".7z", ascii ".tar", ascii ".gz", ascii ".html",
    ascii ".htm", ascii ".css", ascii ".js", ascii ".json", ascii ".xml", ascii ".ttf",
    ascii ".otf", ascii ".woff", ascii ".woff2", ascii ".eot"]

/-- `dangerous_chars` -/
def dangerousChars : List ByteString :=
  [ascii "<", ascii ">", ascii "\"", ascii "|", ascii "?", ascii "*", [0], [13], [10]]

/-- `dangerous_patterns` -/
def dangerousPatterns : List ByteString :=
  [ascii "..", ascii "~", ascii "$", ascii "%", ascii "\\\\", ascii "/..", ascii "\\..",
    ascii "../", ascii "..\\"]

structure PathValidationOptions where
  allowAbsolutePaths      : Bool := false
  allowHiddenFiles        : Bool := false
  checkFileExtension      : Bool := true
  maxPathLength           : Int := 260
  allowedBasePaths        : List ByteString := []
  customAllowedExtensions : List ByteString := []

def endsWith (s suffix : ByteString) : Bool := suffix.isSuffixOf s

/-- Without a slash at the end, unless it is all. -/
def dropLastSlash (s : ByteString) : ByteString :=
  if endsWith s (ascii "/") = true ∧ s.length > 1 then s.dropLast else s

def normalizePath (path : ByteString) : ByteString :=
  dropLastSlash (collapseSlashes (replaceStr (trimSpace path) (ascii "\\") (ascii "/")))

def isAbsolutePath (path : ByteString) : Bool :=
  startsWith path (ascii "/") || (decide (path.length ≥ 2) && path[1]? == some (byte ':')) ||
  startsWith path (ascii "//")

/-- Does the last segment begin with a dot? -/
def isHiddenFile (path : ByteString) : Bool :=
  match (segments path).getLast? with
  | none => false
  | some filename =>
    startsWith filename (ascii ".") && filename != ascii "." && filename != ascii ".."

def isAllowedFileType (path : ByteString) (customExtensions : List ByteString) : Bool :=
  let ext := toLower (fileExt path)
  if ext = [] then false
  else if customExtensions.length > 0 then customExtensions.contains ext
  else allowedFileExtensions.contains ext

def isWithinAllowedPaths (path : ByteString) (allowedPaths : List ByteString) : Bool :=
  allowedPaths.any (fun allowedPath => startsWith path (normalizePath allowedPath))

def validateFilePath (path : ByteString) (options : PathValidationOptions) :
    Except ByteString ByteString :=
  if path.length = 0 then .error (ascii "Empty path not allowed")
  else if path.length > options.maxPathLength then
    .error (ascii "Path too long: " ++ intStr path.length ++ ascii " > "
      ++ intStr options.maxPathLength)
  else
    let cleanPath := normalizePath path
    match dangerousChars.find? (containsStr cleanPath) with
    | some dangerousChar => .error (ascii "Dangerous character detected: " ++ dangerousChar)
    | none =>
      match dangerousPatterns.find? (containsStr cleanPath) with
      | some pattern => .error (ascii "Dangerous path pattern detected: " ++ pattern)
      | none =>
        if options.allowAbsolutePaths = false ∧ isAbsolutePath cleanPath = true then
          .error (ascii "Absolute paths not allowed")
        else if options.allowHiddenFiles = false ∧ isHiddenFile cleanPath = true then
          .error (ascii "Hidden files not allowed")
        else if options.checkFileExtension = true ∧
            isAllowedFileType cleanPath options.customAllowedExtensions = false then
          .error (ascii "File type not allowed")
        else if options.allowedBasePaths.length > 0 ∧
            isWithinAllowedPaths cleanPath options.allowedBasePaths = false then
          .error (ascii "Path outside allowed directories")
        else .ok cleanPath

/-! ## Normal forms -/

theorem replace_backslash (s : ByteString) : replaceStr s (ascii "\\") (ascii "/") = slashed s := by
  refine (replaceStr_byte (byte '\\') (ascii "/") s).trans ?_
  rw [slashed]
  induction s with
  | nil => rfl
  | cons b s ih =>
      rw [List.flatMap_cons, ih, List.map_cons]
      split <;> rfl

theorem normalizePath_eq (path : ByteString) :
    normalizePath path = dropLastSlash (oneSlash (slashed (trimSpace path))) := by
  rw [normalizePath, replace_backslash, collapseSlashes_eq]

theorem endsWith_slash {s : ByteString} :
    endsWith s (ascii "/") = true ↔ s.getLast? = some (byte '/') := by
  rw [endsWith, List.isSuffixOf_iff_suffix]
  constructor
  · rintro ⟨t, rfl⟩
    exact List.getLast?_concat
  · intro h
    obtain ⟨t, rfl⟩ := List.getLast?_eq_some_iff.mp h
    exact List.suffix_append _ _

theorem mem_dropLastSlash {s : ByteString} {b : UInt8} (h : b ∈ dropLastSlash s) : b ∈ s := by
  rw [dropLastSlash] at h
  split at h
  · exact List.mem_of_mem_dropLast h
  · exact h

theorem length_dropLastSlash_le (s : ByteString) : (dropLastSlash s).length ≤ s.length := by
  rw [dropLastSlash]
  split
  · rw [List.length_dropLast]
    omega
  · exact Nat.le_refl _

theorem length_normalizePath_le (path : ByteString) :
    (normalizePath path).length ≤ (trimSpace path).length := by
  have hslashed : (slashed (trimSpace path)).length = (trimSpace path).length := List.length_map _
  rw [normalizePath_eq, ← hslashed]
  exact (length_dropLastSlash_le _).trans (length_oneSlash_le _)

/-- A text without doubled slashes has none at its end behind another. -/
theorem dropLastSlash_spec {s : ByteString} (hfree : containsStr s (ascii "//") = false) :
    containsStr (dropLastSlash s) (ascii "//") = false ∧
      (endsWith (dropLastSlash s) (ascii "/") = true → dropLastSlash s = ascii "/") := by
  rw [dropLastSlash]
  split
  · rename_i hcut
    obtain ⟨hlast, hlength⟩ := hcut
    obtain ⟨t, rfl⟩ := List.getLast?_eq_some_iff.mp (endsWith_slash.mp hlast)
    rw [List.dropLast_concat]
    constructor
    · rw [Bool.eq_false_iff] at hfree ⊢
      exact fun h => hfree (containsStr_of_part (List.prefix_append _ _).isInfix h)
    · intro hend
      obtain ⟨u, rfl⟩ := List.getLast?_eq_some_iff.mp (endsWith_slash.mp hend)
      refine absurd (containsStr_iff_within.mpr ?_) (by rw [hfree]; exact Bool.false_ne_true)
      rw [List.append_assoc]
      exact (List.suffix_append u _).isInfix
  · rename_i hkeep
    refine ⟨hfree, fun hend => ?_⟩
    have hshort : ¬ s.length > 1 := fun hlong => hkeep ⟨hend, hlong⟩
    obtain ⟨t, rfl⟩ := List.getLast?_eq_some_iff.mp (endsWith_slash.mp hend)
    rw [List.length_append, List.length_singleton] at hshort
    obtain rfl : t = [] := List.length_eq_zero_iff.mp (by omega)
    rfl

/-- **A NORMAL FORM** has no backslash, no doubled slash, and no slash at its end unless it is
    one. -/
theorem normalizePath_spec (path : ByteString) :
    byte '\\' ∉ normalizePath path ∧ containsStr (normalizePath path) (ascii "//") = false ∧
      (endsWith (normalizePath path) (ascii "/") = true → normalizePath path = ascii "/") := by
  rw [normalizePath_eq]
  obtain ⟨hfree, hend⟩ := dropLastSlash_spec (oneSlash_free (slashed (trimSpace path)))
  refine ⟨fun h => ?_, hfree, hend⟩
  exact not_backslash_mem_slashed _ (mem_oneSlash (mem_dropLastSlash h))

/-- A text of that form is left as it is, if there is nothing to trim. -/
theorem normalizePath_fixed {s : ByteString} (hbackslash : byte '\\' ∉ s)
    (hfree : containsStr s (ascii "//") = false)
    (hend : endsWith s (ascii "/") = true → s = ascii "/") (htrim : trimSpace s = s) :
    normalizePath s = s := by
  rw [normalizePath_eq, htrim, slashed_eq_self hbackslash, oneSlash_of_free hfree, dropLastSlash,
    if_neg]
  rintro ⟨hlast, hlength⟩
  rw [hend hlast] at hlength
  exact absurd hlength (by decide)

/-- Normalising twice is normalising once exactly if there is nothing to trim in between. -/
theorem normalizePath_idem_iff (path : ByteString) :
    normalizePath (normalizePath path) = normalizePath path ↔
      trimSpace (normalizePath path) = normalizePath path := by
  obtain ⟨hbackslash, hfree, hend⟩ := normalizePath_spec path
  constructor
  · intro h
    have hlength := length_normalizePath_le (normalizePath path)
    rw [h] at hlength
    exact trimSpace_eq_of_length hlength
  · exact normalizePath_fixed hbackslash hfree hend

/-! ## White space in front of the last slash -/

theorem dropLastSlash_concat {s : ByteString} (hne : s ≠ []) :
    dropLastSlash (s ++ ascii "/") = s := by
  have hlength : (s ++ ascii "/").length > 1 := by
    rw [List.length_append]
    exact Nat.lt_add_of_pos_left (List.length_pos_of_ne_nil hne)
  rw [dropLastSlash, if_pos ⟨endsWith_slash.mpr List.getLast?_concat, hlength⟩]
  exact List.dropLast_concat

theorem dropLastSlash_other {s : ByteString} (h : s.getLast? ≠ some (byte '/')) :
    dropLastSlash s = s := by
  rw [dropLastSlash, if_neg (fun hcut => h (endsWith_slash.mp hcut.1))]

theorem getLast?_rdropWhile (test : UInt8 → Bool) (s : ByteString) {b : UInt8}
    (h : (s.rdropWhile test).getLast? = some b) : test b = false := by
  rw [List.rdropWhile, List.getLast?_reverse] at h
  exact head_dropWhile h

theorem slashed_separators {s : ByteString} (h : ∀ b ∈ s, isSeparator b = true) :
    ∀ b ∈ slashed s, b = byte '/' := by
  intro b hb
  obtain ⟨c, hc, rfl⟩ := List.mem_map.mp hb
  have hsep := h c hc
  rw [isSeparator, Bool.or_eq_true, decide_eq_true_iff, decide_eq_true_iff] at hsep
  split
  · rfl
  · rename_i hne
    exact hsep.resolve_right hne

theorem slashed_last {s : ByteString} {b : UInt8} (h : s.getLast? = some b)
    (hb : isSeparator b = false) : (slashed s).getLast? = some b := by
  have hne : b ≠ byte '\\' := by
    rintro rfl
    exact absurd hb (by decide)
  rw [slashed, List.getLast?_map, h, Option.map_some, if_neg hne]

/-- **WHAT IS IN FRONT** of the last separators makes the normal form. -/
theorem normalizePath_front {path : ByteString} {b : UInt8}
    (h : ((trimSpace path).rdropWhile isSeparator).getLast? = some b) :
    normalizePath path = oneSlash (slashed ((trimSpace path).rdropWhile isSeparator)) ∧
      (normalizePath path).getLast? = some b := by
  have hb : isSeparator b = false := getLast?_rdropWhile _ _ h
  have hlast : (slashed ((trimSpace path).rdropWhile isSeparator)).getLast? = some b :=
    slashed_last h hb
  have hslash : b ≠ byte '/' := by
    rintro rfl
    exact absurd hb (by decide)
  have hfront : (slashed ((trimSpace path).rdropWhile isSeparator)).getLast? ≠ some (byte '/') := by
    rw [hlast]
    exact fun heq => hslash (Option.some.inj heq)
  have hnormal : normalizePath path
      = oneSlash (slashed ((trimSpace path).rdropWhile isSeparator)) := by
    have hsplit : slashed (trimSpace path) = slashed ((trimSpace path).rdropWhile isSeparator)
        ++ slashed ((trimSpace path).rtakeWhile isSeparator) := by
      rw [← slashed_append, List.rdropWhile_append_rtakeWhile]
    have hslashes := slashed_separators (fun c hc => List.mem_rtakeWhile_imp hc :
      ∀ c ∈ (trimSpace path).rtakeWhile isSeparator, isSeparator c = true)
    rw [normalizePath_eq, hsplit]
    -- the separators at the end come down to one slash, which is dropped
    by_cases hnone : slashed ((trimSpace path).rtakeWhile isSeparator) = []
    · rw [hnone, List.append_nil]
      refine dropLastSlash_other ?_
      rw [getLast?_oneSlash]
      exact hfront
    · rw [oneSlash_append_slashes hfront hnone hslashes]
      refine dropLastSlash_concat (fun hnil => ?_)
      rw [← getLast?_oneSlash, hnil] at hlast
      cases hlast
  refine ⟨hnormal, ?_⟩
  rw [hnormal, getLast?_oneSlash]
  exact hlast

/-- Nothing but separators comes down to one slash, or to nothing. -/
theorem normalizePath_separators {path : ByteString}
    (h : (trimSpace path).rdropWhile isSeparator = []) :
    normalizePath path = [] ∨ normalizePath path = ascii "/" := by
  have hslashes := slashed_separators (List.rdropWhile_eq_nil_iff.mp h)
  rw [normalizePath_eq]
  by_cases hnone : slashed (trimSpace path) = []
  · rw [hnone]
    exact .inl rfl
  · have hone := oneSlash_append_slashes (fun hlast => (by cases hlast) :
      ([] : ByteString).getLast? ≠ some (byte '/')) hnone hslashes
    rw [List.nil_append] at hone
    rw [hone]
    exact .inr rfl

theorem head?_normalizePath {path : ByteString} {b : UInt8}
    (h : (normalizePath path).head? = some b) :
    ∃ c, (trimSpace path).head? = some c ∧ b = if c = byte '\\' then byte '/' else c := by
  have hcut : (normalizePath path).head? = (oneSlash (slashed (trimSpace path))).head? := by
    rw [normalizePath_eq, dropLastSlash]
    split
    · rename_i hlong
      obtain ⟨c, c', t, ht⟩ : ∃ c c' t, oneSlash (slashed (trimSpace path)) = c :: c' :: t := by
        match hs : oneSlash (slashed (trimSpace path)), hlong.2 with
        | c :: c' :: t, _ => exact ⟨c, c', t, rfl⟩
      rw [ht]
      rfl
    · rfl
  rw [hcut, head?_oneSlash, slashed, List.head?_map] at h
  obtain ⟨c, hc, rfl⟩ := Option.map_eq_some_iff.mp h
  exact ⟨c, hc, rfl⟩

/-- No white space stands right in front of the separators that end the trimmed path. -/
def EndsInWord (path : ByteString) : Prop :=
  ∀ b, ((trimSpace path).rdropWhile isSeparator).getLast? = some b → isSpace b = false

theorem trimmed_iff (path : ByteString) :
    trimSpace (normalizePath path) = normalizePath path ↔ EndsInWord path := by
  rw [trimSpace_eq_self_iff]
  constructor
  · rintro ⟨-, hlast⟩ b hb
    exact hlast b (normalizePath_front hb).2
  · intro h
    constructor
    · -- the path was trimmed in front before it was normalised
      intro b hb
      obtain ⟨c, hc, rfl⟩ := head?_normalizePath hb
      obtain ⟨-, -, -, -, -, hhead, -⟩ := exists_padded path
      split
      · decide
      · exact hhead c hc
    · intro b hb
      cases hlast : ((trimSpace path).rdropWhile isSeparator).getLast? with
      | some c =>
          rw [(normalizePath_front hlast).2] at hb
          exact Option.some.inj hb ▸ h c hlast
      | none =>
          rcases normalizePath_separators (List.getLast?_eq_none_iff.mp hlast) with hnil | hslash
          · rw [hnil] at hb
            cases hb
          · rw [hslash] at hb
            rw [← Option.some.inj hb]
            decide

/-- The loop of a path ends, its normal form is one, and normalising it again changes nothing. -/
structure NormalizesWell (path : ByteString) : Prop where
  terminates  : ∃ n, ∀ passes, n ≤ passes →
    collapseLoop passes (replaceStr (trimSpace path) (ascii "\\") (ascii "/"))
      = some (collapseSlashes (replaceStr (trimSpace path) (ascii "\\") (ascii "/")))
  idempotent  : normalizePath (normalizePath path) = normalizePath path
  noBackslash : containsStr (normalizePath path) (ascii "\\") = false
  noDoubled   : containsStr (normalizePath path) (ascii "//") = false
  noTrailing  : endsWith (normalizePath path) (ascii "/") = true → normalizePath path = ascii "/"

/-- **NORMALISING** does all that it is for exactly if no white space is in front of the last
    separators. -/
theorem normalizesWell_iff (path : ByteString) : NormalizesWell path ↔ EndsInWord path := by
  rw [← trimmed_iff, ← normalizePath_idem_iff]
  constructor
  · exact NormalizesWell.idempotent
  · intro h
    obtain ⟨hbackslash, hfree, hend⟩ := normalizePath_spec path
    have hloop : ∀ passes,
        (replaceStr (trimSpace path) (ascii "\\") (ascii "/")).length + 1 ≤ passes →
          collapseLoop passes (replaceStr (trimSpace path) (ascii "\\") (ascii "/"))
            = some (collapseSlashes (replaceStr (trimSpace path) (ascii "\\") (ascii "/"))) := by
      intro passes hpasses
      rw [collapseLoop_eq hpasses, collapseSlashes_eq]
    exact ⟨⟨_, hloop⟩, h, not_containsStr_of_mem (List.mem_singleton.mpr rfl) hbackslash, hfree,
      hend⟩

/-- The normal form of `a /` is `a` and a blank, and that of it is `a`. -/
theorem normalizePath_blank : ¬ NormalizesWell (ascii "a /") := by
  intro h
  have hwrong : normalizePath (normalizePath (ascii "a /")) ≠ normalizePath (ascii "a /") := by
    decide +kernel
  exact hwrong h.idempotent

end VHono.Security
