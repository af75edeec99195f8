import VHono.ByteDecimals

/-! # Paths resolved by their segments

    A path from the root is the list of its segments.  `resolve` follows the
    segments of a text from a directory: an empty segment and `.` stay, `..`
    goes up, and any other segment goes down.  Plain segments only go down, so
    paths of plain segments are told apart by their segments. -/

namespace PathSegments

open ByteString

/-- A path from the root. -/
abbrev Path := List ByteString

/-- The files of a storage by their paths. -/
abbrev Files := Path → Option ByteString

/-- The segments of a text. -/
def segments (s : ByteString) : List ByteString := s.splitOn (byte '/')

/-- One segment followed from a directory. -/
def enter (dir : Path) (segment : ByteString) : Path :=
  if segment = [] ∨ segment = ascii "." then dir
  else if segment = ascii ".." then dir.dropLast
  else dir ++ [segment]

def resolve (dir : Path) (path : List ByteString) : Path := path.foldl enter dir

/-- A name that a directory entry can have. -/
structure Plain (segment : ByteString) : Prop where
  noSlash  : byte '/' ∉ segment
  nonempty : segment ≠ []
  noDot    : segment ≠ ascii "."
  noDotDot : segment ≠ ascii ".."

theorem segments_plain {s : ByteString} (h : Plain s) : segments s = [s] := by
  refine List.splitOnP_eq_singleton ?_
  intro b hb
  refine beq_eq_false_iff_ne.mpr ?_
  rintro rfl
  exact h.noSlash hb

theorem enter_plain {dir : Path} {s : ByteString} (h : Plain s) : enter dir s = dir ++ [s] := by
  rw [enter, if_neg, if_neg h.noDotDot]
  rintro (hempty | hdot)
  · exact h.nonempty hempty
  · exact h.noDot hdot

/-- Plain segments are followed down. -/
theorem resolve_plain {path : List ByteString} :
    ∀ {dir : Path}, (∀ s ∈ path, Plain s) → resolve dir path = dir ++ path := by
  induction path with
  | nil => intro dir _; exact (List.append_nil dir).symm
  | cons s path ih =>
      intro dir h
      show resolve (enter dir s) path = _
      rw [ih (fun t ht => h t (List.mem_cons_of_mem _ ht)), enter_plain (h s (List.mem_cons_self ..)),
        List.append_assoc]
      rfl

/-- A segment with a byte other than slash and dot is plain if it has no slash. -/
theorem plain_of_mem {s : ByteString} {b : UInt8} (hslash : byte '/' ∉ s) (hb : b ∈ s)
    (hdot : b ≠ byte '.') : Plain s := by
  refine ⟨hslash, List.ne_nil_of_mem hb, ?_, ?_⟩
  · rintro rfl
    exact hdot (List.mem_singleton.mp hb)
  · rintro rfl
    rcases List.mem_cons.mp hb with h | h
    · exact hdot h
    · exact hdot (List.mem_singleton.mp h)

theorem not_slash_of_mem_intStr {n : Int} {b : UInt8} (hb : b ∈ intStr n) :
    b ≠ byte '/' ∧ b ≠ byte '.' := by
  rcases mem_intStr hb with rfl | hdigit
  · decide
  · refine ⟨?_, ?_⟩
    · rintro rfl
      exact absurd hdigit (by decide)
    · rintro rfl
      exact absurd hdigit (by decide)

/-- A number is a plain segment. -/
theorem plain_intStr (n : Int) : Plain (intStr n) := by
  obtain ⟨b, hb⟩ := List.exists_mem_of_ne_nil _ (intStr_ne_nil n)
  exact plain_of_mem (fun h => (not_slash_of_mem_intStr h).1 rfl) hb (not_slash_of_mem_intStr hb).2

/-! ## Files -/

/-- The content of one path replaced. -/
def Files.set (files : Files) (path : Path) (content : Option ByteString) : Files :=
  fun p => if p = path then content else files p

@[simp] theorem Files.set_same (files : Files) (path : Path) (content : Option ByteString) :
    files.set path content path = content := if_pos rfl

theorem Files.set_other (files : Files) {path p : Path} (h : p ≠ path)
    (content : Option ByteString) : files.set path content p = files p := if_neg h

/-- A directory removed with all that is in it, except what the removal fails on. -/
def Files.removeTree (files : Files) (dir : Path) (keeps : Path → Bool) : Files :=
  fun p => if dir <+: p ∧ keeps p = false then none else files p

theorem Files.removeTree_outside (files : Files) {dir p : Path} (h : ¬ dir <+: p)
    (keeps : Path → Bool) : files.removeTree dir keeps p = files p := if_neg (fun hc => h hc.1)

/-- Removing never changes what a file holds. -/
theorem Files.of_removeTree {files : Files} {dir p : Path} {keeps : Path → Bool}
    {content : ByteString} (h : files.removeTree dir keeps p = some content) :
    files p = some content := by
  rw [removeTree] at h
  split at h
  · cases h
  · exact h

end PathSegments
