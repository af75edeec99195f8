import VHono.PathValidation
import VHono.TextSplits

/-! # What a validated path is kept from

    A path that is accepted has no segment that goes up, none of the characters
    that are refused, and is relative where it has to be.  The test for hidden
    names looks at the last segment only, and the test for the allowed bases at
    the letters of a base only, so the two promises that go further hold exactly
    where the other segments and the boundary of the base agree. -/

namespace VHono.Security

open ByteString PathSegments SlashRuns

/-- The tests of a path, all passed. -/
structure Passes (path : ByteString) (options : PathValidationOptions) : Prop where
  nonempty : path.length ≠ 0
  short    : path.length ≤ options.maxPathLength
  chars    : ∀ c ∈ dangerousChars, containsStr (normalizePath path) c = false
  patterns : ∀ p ∈ dangerousPatterns, containsStr (normalizePath path) p = false
  absolute : options.allowAbsolutePaths = false → isAbsolutePath (normalizePath path) = false
  hidden   : options.allowHiddenFiles = false → isHiddenFile (normalizePath path) = false
  fileType : options.checkFileExtension = true →
    isAllowedFileType (normalizePath path) options.customAllowedExtensions = true
  base     : options.allowedBasePaths ≠ [] →
    isWithinAllowedPaths (normalizePath path) options.allowedBasePaths = true

/-- A path is accepted if it passes the tests, and is given back in its normal form. -/
theorem validateFilePath_ok_iff {path r : ByteString} {options : PathValidationOptions} :
    validateFilePath path options = .ok r ↔ Passes path options ∧ r = normalizePath path := by
  have hrefused : ∀ {a b : Bool}, ¬(a = false ∧ b = true) ↔ (a = false → b = false) := by decide
  have hrequired : ∀ {a b : Bool}, ¬(a = true ∧ b = false) ↔ (a = true → b = true) := by decide
  have hbases : ∀ {b : Bool}, ¬(options.allowedBasePaths.length > 0 ∧ b = false) ↔
      (options.allowedBasePaths ≠ [] → b = true) := by
    intro b
    rw [gt_iff_lt, List.length_pos_iff, not_and, Bool.not_eq_false]
  constructor
  · -- each test that is not failed gives its clause, in the order in which they are made
    intro h
    rw [validateFilePath] at h
    split at h
    · cases h
    rename_i hnonempty
    split at h
    · cases h
    rename_i hshort
    dsimp only at h
    split at h
    · cases h
    rename_i hchars
    split at h
    · cases h
    rename_i hpatterns
    split at h
    · cases h
    rename_i habsolute
    split at h
    · cases h
    rename_i hhidden
    split at h
    · cases h
    rename_i htype
    split at h
    · cases h
    rename_i hbase
    refine ⟨⟨hnonempty, Int.not_lt.mp hshort, fun c hc => ?_, fun p hp => ?_,
      hrefused.mp habsolute, hrefused.mp hhidden, hrequired.mp htype, hbases.mp hbase⟩,
      (Except.ok.inj h).symm⟩
    · exact Bool.eq_false_iff.mpr (List.find?_eq_none.mp hchars c hc)
    · exact Bool.eq_false_iff.mpr (List.find?_eq_none.mp hpatterns p hp)
  · rintro ⟨h, rfl⟩
    have hchars : dangerousChars.find? (containsStr (normalizePath path)) = none :=
      List.find?_eq_none.mpr (fun c hc => Bool.eq_false_iff.mp (h.chars c hc))
    have hpatterns : dangerousPatterns.find? (containsStr (normalizePath path)) = none :=
      List.find?_eq_none.mpr (fun p hp => Bool.eq_false_iff.mp (h.patterns p hp))
    rw [validateFilePath, if_neg h.nonempty, if_neg (Int.not_lt.mpr h.short)]
    dsimp only
    rw [hchars]
    dsimp only
    rw [hpatterns]
    dsimp only
    rw [if_neg (hrefused.mpr h.absolute), if_neg (hrefused.mpr h.hidden),
      if_neg (hrequired.mpr h.fileType), if_neg (hbases.mpr h.base)]

/-- A path that does not begin at a root. -/
def Relative (r : ByteString) : Prop := r.head? ≠ some (byte '/') ∧ r[1]? ≠ some (byte ':')

/-- The path is the base, or goes on behind it after a slash. -/
def LiesIn (base r : ByteString) : Prop :=
  r = base ∨ startsWith r (base.rdropWhile (· = byte '/') ++ ascii "/") = true

/-- What a validated path is promised to be. -/
structure Sound (options : PathValidationOptions) (r : ByteString) : Prop where
  noUp        : ascii ".." ∉ segments r
  noDangerous : ∀ c ∈ dangerousChars, containsStr r c = false
  relative    : options.allowAbsolutePaths = false → Relative r
  noHidden    : options.allowHiddenFiles = false →
    ∀ t ∈ segments r, startsWith t (ascii ".") = true → t = ascii "."
  within      : options.allowedBasePaths ≠ [] →
    ∃ base ∈ options.allowedBasePaths, LiesIn (normalizePath base) r

/-- What the tests leave open: the segments in front of the last one, and where a base ends. -/
structure Bounded (path : ByteString) (options : PathValidationOptions) : Prop where
  dirs : options.allowHiddenFiles = false →
    ∀ t ∈ (segments (normalizePath path)).dropLast, startsWith t (ascii ".") = true → t = ascii "."
  base : options.allowedBasePaths ≠ [] →
    ∃ base ∈ options.allowedBasePaths, LiesIn (normalizePath base) (normalizePath path)

section Promises

variable {path : ByteString} {options : PathValidationOptions}

theorem segment_within {s t : ByteString} (ht : t ∈ segments s) : t <:+: s := by
  have hpart : t <:+: unite (segments s) := infix_intercalate _ ht
  rwa [unite_segments] at hpart

theorem Passes.noUp (h : Passes path options) : ascii ".." ∉ segments (normalizePath path) := by
  intro hmem
  have hcontains := containsStr_iff_within.mpr (segment_within hmem)
  rw [h.patterns (ascii "..") (by decide)] at hcontains
  exact Bool.false_ne_true hcontains

theorem relative_of_not_absolute {r : ByteString} (h : isAbsolutePath r = false) : Relative r := by
  rw [isAbsolutePath, Bool.or_eq_false_iff, Bool.or_eq_false_iff] at h
  obtain ⟨⟨hslash, hdrive⟩, -⟩ := h
  constructor
  · intro hhead
    cases r with
    | nil => cases hhead
    | cons b r =>
        obtain rfl : b = byte '/' := Option.some.inj hhead
        have hstart : startsWith (byte '/' :: r) (ascii "/") = true := startsWith_append [byte '/'] r
        rw [hslash] at hstart
        exact Bool.false_ne_true hstart
  · intro hcolon
    have hlength : r.length ≥ 2 := by
      have hlt := (List.getElem?_eq_some_iff.mp hcolon).1
      omega
    rw [hcolon, decide_eq_true hlength] at hdrive
    exact absurd hdrive (by decide)

/-- The last segment is not hidden. -/
theorem Passes.last (h : Passes path options) (hhidden : options.allowHiddenFiles = false)
    {t : ByteString} (ht : (segments (normalizePath path)).getLast? = some t)
    (hdot : startsWith t (ascii ".") = true) : t = ascii "." := by
  have hfile := h.hidden hhidden
  rw [isHiddenFile, ht] at hfile
  dsimp only at hfile
  by_contra hne
  have hup : t ≠ ascii ".." := by
    rintro rfl
    exact h.noUp (List.mem_of_getLast? ht)
  rw [hdot, bne_iff_ne.mpr hne, bne_iff_ne.mpr hup] at hfile
  exact absurd hfile (by decide)

theorem Passes.sound_iff (h : Passes path options) :
    Sound options (normalizePath path) ↔ Bounded path options := by
  constructor
  · intro hsound
    refine ⟨fun hhidden t ht => ?_, hsound.within⟩
    exact hsound.noHidden hhidden t (List.mem_of_mem_dropLast ht)
  · intro hbounded
    refine ⟨h.noUp, h.chars, fun habsolute => relative_of_not_absolute (h.absolute habsolute),
      fun hhidden t ht hdot => ?_, hbounded.base⟩
    obtain ⟨last, hlast⟩ := Option.ne_none_iff_exists'.mp
      (fun hnone => segments_ne_nil (normalizePath path) (List.getLast?_eq_none_iff.mp hnone))
    obtain ⟨front, hsplit⟩ := List.getLast?_eq_some_iff.mp hlast
    rw [hsplit] at ht
    rcases List.mem_append.mp ht with hfront | hend
    · refine hbounded.dirs hhidden t ?_ hdot
      rwa [hsplit, List.dropLast_concat]
    · obtain rfl := List.mem_singleton.mp hend
      exact h.last hhidden hlast hdot

end Promises

/-- **A VALIDATED PATH** is what it is promised to be exactly if the tests refuse it, or what they
    leave open is in order. -/
theorem validated_sound_iff (path : ByteString) (options : PathValidationOptions) :
    (∀ r, validateFilePath path options = .ok r → Sound options r) ↔
      (Passes path options → Bounded path options) := by
  constructor
  · intro h hpasses
    exact hpasses.sound_iff.mp (h _ (validateFilePath_ok_iff.mpr ⟨hpasses, rfl⟩))
  · intro h r hr
    obtain ⟨hpasses, rfl⟩ := validateFilePath_ok_iff.mp hr
    exact hpasses.sound_iff.mpr (h hpasses)

/-- A hidden directory in front of an ordinary name is let through. -/
theorem hidden_directory_accepted :
    ¬ ∀ r, validateFilePath (ascii ".ssh/key.txt") {} = .ok r → Sound {} r := by
  intro h
  have haccepted : validateFilePath (ascii ".ssh/key.txt") {} = .ok (ascii ".ssh/key.txt") := by
    decide +kernel
  have hdot := (h _ haccepted).noHidden rfl (ascii ".ssh") (by decide +kernel) (by decide)
  exact absurd hdot (by decide)

end VHono.Security
