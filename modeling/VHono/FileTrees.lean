import VHono.InsertionMap

/-! # File trees

    A tree of files and directories as the finite map of its paths, the root
    being a directory throughout.  The operations are those of an operating
    system and refuse what it refuses: nothing is written below a file or over
    a directory, only files are read, and a directory is removed with all that
    is in it or, by itself, only if it is empty. -/

namespace FileTrees

/-- A file with its content, or a directory. -/
inductive Node (α : Type)
  | file (content : α)
  | dir
  deriving DecidableEq

/-- The nodes below the root. -/
structure Tree (ν α : Type) where
  entries : InsertionMap (List ν) (Node α)

namespace Tree

variable {ν α : Type} [DecidableEq ν]

def empty : Tree ν α := ⟨.empty⟩

def node (d : Tree ν α) (p : List ν) : Option (Node α) :=
  if p = [] then some .dir else d.entries.get? p

/-- The content of a file. -/
def content (d : Tree ν α) (p : List ν) : Option α :=
  match d.node p with
  | some (.file c) => some c
  | some .dir => none
  | none => none

/-! ## Operations -/

def set (d : Tree ν α) (p : List ν) (n : Node α) : Tree ν α := ⟨d.entries.insert p n⟩

def makeDir (d : Tree ν α) (p : List ν) : Tree ν α :=
  match d.node p with
  | none => d.set p .dir
  | some _ => d

/-- Every directory on the way, and the last one. -/
def makeDirs (d : Tree ν α) (p : List ν) : Tree ν α := p.inits.foldl makeDir d

/-- No file stands on the way. -/
def isOpen (d : Tree ν α) (p : List ν) : Bool := p.inits.all (fun q => (d.content q).isNone)

def mkdirAll (d : Tree ν α) (p : List ν) : Option (Tree ν α) :=
  if d.isOpen p = true then some (d.makeDirs p) else none

def isDir (d : Tree ν α) (p : List ν) : Bool :=
  match d.node p with
  | some .dir => true
  | some (.file _) => false
  | none => false

/-- A file is written in a directory, and over a file or nothing. -/
def write (d : Tree ν α) (p : List ν) (c : α) : Option (Tree ν α) :=
  if d.isDir p.dropLast = true ∧ d.isDir p = false then some (d.set p (.file c)) else none

/-- What is below a path, the path included. -/
def without (d : Tree ν α) (p : List ν) : Tree ν α :=
  ⟨⟨d.entries.entries.filter (fun e => ¬ p <+: e.1),
    d.entries.nodup.sublist (List.Sublist.map Prod.fst List.filter_sublist)⟩⟩

def isEmptyDir (d : Tree ν α) (p : List ν) : Bool :=
  d.isDir p && d.entries.keys.all (fun q => decide (¬(p <+: q ∧ q ≠ p)))

/-- A file, or an empty directory. -/
def remove (d : Tree ν α) (p : List ν) : Option (Tree ν α) :=
  if (d.content p).isSome = true ∨ d.isEmptyDir p = true then some ⟨d.entries.erase p⟩ else none

def removeDir (d : Tree ν α) (p : List ν) : Option (Tree ν α) :=
  if d.isEmptyDir p = true then some ⟨d.entries.erase p⟩ else none

def removeAll (d : Tree ν α) (p : List ν) : Option (Tree ν α) :=
  if d.isDir p = true then some (d.without p) else none

/-- The content of one file written to another. -/
def copy (d : Tree ν α) (src dst : List ν) : Option (Tree ν α) :=
  (d.content src).bind (d.write dst)

/-! ## Reading after an operation -/

theorem content_eq_some {d : Tree ν α} {p : List ν} {c : α} :
    d.content p = some c ↔ d.node p = some (.file c) := by
  rw [content]
  split
  · rename_i c' h
    rw [h, Option.some.injEq, Option.some.injEq, Node.file.injEq]
  · rename_i h
    rw [h]
    exact ⟨nofun, nofun⟩
  · rename_i h
    rw [h]
    exact ⟨nofun, nofun⟩

theorem isDir_iff {d : Tree ν α} {p : List ν} : d.isDir p = true ↔ d.node p = some .dir := by
  rw [isDir]
  split
  · rename_i h
    exact iff_of_true rfl h
  · rename_i h
    rw [h]
    exact ⟨nofun, nofun⟩
  · rename_i h
    rw [h]
    exact ⟨nofun, nofun⟩

theorem isDir_eq_false {d : Tree ν α} {p : List ν} : d.isDir p = false ↔ d.node p ≠ some .dir := by
  rw [← Bool.not_eq_true, isDir_iff]

theorem content_congr {d d' : Tree ν α} {p : List ν} (h : d'.node p = d.node p) :
    d'.content p = d.content p := by
  rw [content, content, h]

theorem node_set (d : Tree ν α) {p : List ν} (hp : p ≠ []) (n : Node α) (q : List ν) :
    (d.set p n).node q = if q = p then some n else d.node q := by
  rw [node, node, set, InsertionMap.get?_insert]
  by_cases hq : q = p
  · rw [if_pos hq, if_pos hq, if_neg (hq ▸ hp)]
  · rw [if_neg hq, if_neg hq]

theorem node_makeDir (d : Tree ν α) (p q : List ν) :
    (d.makeDir p).node q = if q = p ∧ d.node q = none then some .dir else d.node q := by
  rw [makeDir]
  split
  · rename_i h
    have hp : p ≠ [] := by
      rintro rfl
      cases h
    rw [node_set d hp]
    by_cases hq : q = p
    · rw [if_pos hq, if_pos ⟨hq, hq ▸ h⟩]
    · rw [if_neg hq, if_neg (fun hand => hq hand.1)]
  · rename_i n h
    refine (if_neg ?_).symm
    rintro ⟨rfl, hnone⟩
    rw [h] at hnone
    cases hnone

theorem node_foldl_makeDir (ps : List (List ν)) (q : List ν) : ∀ d : Tree ν α,
    (ps.foldl makeDir d).node q = if q ∈ ps ∧ d.node q = none then some .dir else d.node q := by
  induction ps with
  | nil => intro d; exact (if_neg (fun h => by cases h.1)).symm
  | cons p ps ih =>
      intro d
      have hstep := node_makeDir d p q
      rw [List.foldl_cons, ih]
      by_cases hnone : d.node q = none
      · by_cases hqp : q = p
        · have hmade : (d.makeDir p).node q = some .dir := hstep.trans (if_pos ⟨hqp, hnone⟩)
          rw [hmade, if_neg (fun h => by cases h.2), if_pos ⟨List.mem_cons.mpr (.inl hqp), hnone⟩]
        · have hsame : (d.makeDir p).node q = d.node q := hstep.trans (if_neg (fun h => hqp h.1))
          have hiff : q ∈ p :: ps ↔ q ∈ ps := by rw [List.mem_cons, or_iff_right hqp]
          rw [hsame]
          simp only [hiff]
      · have hsame : (d.makeDir p).node q = d.node q := hstep.trans (if_neg (fun h => hnone h.2))
        rw [hsame, if_neg (fun h => hnone h.2), if_neg (fun h => hnone h.2)]

/-- **MAKING DIRECTORIES** fills what is absent on the way and changes nothing else. -/
theorem node_makeDirs (d : Tree ν α) (p q : List ν) :
    (d.makeDirs p).node q = if q <+: p ∧ d.node q = none then some .dir else d.node q := by
  rw [makeDirs, node_foldl_makeDir]
  simp only [List.mem_inits]

theorem content_makeDirs (d : Tree ν α) (p q : List ν) :
    (d.makeDirs p).content q = d.content q := by
  by_cases hmade : q <+: p ∧ d.node q = none
  · rw [content, content, node_makeDirs, if_pos hmade, hmade.2]
  · exact content_congr ((node_makeDirs d p q).trans (if_neg hmade))

theorem node_makeDirs_of_not_prefix (d : Tree ν α) {p q : List ν} (h : ¬ q <+: p) :
    (d.makeDirs p).node q = d.node q := by
  rw [node_makeDirs, if_neg (fun hand => h hand.1)]

/-- What was open is made. -/
theorem isDir_makeDirs {d : Tree ν α} {p q : List ν} (hopen : ∀ r, r <+: p → d.content r = none)
    (hq : q <+: p) : (d.makeDirs p).isDir q = true := by
  rw [isDir_iff, node_makeDirs]
  by_cases hnone : d.node q = none
  · exact if_pos ⟨hq, hnone⟩
  · rw [if_neg (fun h => hnone h.2)]
    obtain ⟨n, hn⟩ := Option.ne_none_iff_exists'.mp hnone
    cases n with
    | dir => exact hn
    | file c =>
        have hcontent := content_eq_some.mpr hn
        rw [hopen q hq] at hcontent
        cases hcontent

theorem mkdirAll_eq {d : Tree ν α} {p : List ν} (hopen : ∀ r, r <+: p → d.content r = none) :
    d.mkdirAll p = some (d.makeDirs p) := by
  refine if_pos (List.all_eq_true.mpr (fun r hr => ?_))
  rw [hopen r ((List.mem_inits r p).mp hr)]
  rfl

theorem write_eq {d : Tree ν α} {p : List ν} (hparent : d.isDir p.dropLast = true)
    (hp : d.node p ≠ some .dir) (c : α) : d.write p c = some (d.set p (.file c)) :=
  if_pos ⟨hparent, isDir_eq_false.mpr hp⟩

theorem lookup_filter_key {κ β : Type} [DecidableEq κ] (f : κ → Bool) (es : List (κ × β)) (k : κ) :
    (es.filter (fun e => f e.1)).lookup k = if f k = true then es.lookup k else none := by
  induction es with
  | nil => exact (ite_self _).symm
  | cons e es ih =>
      obtain ⟨k', v⟩ := e
      rw [List.filter_cons]
      by_cases hk : k = k'
      · subst hk
        by_cases hf : f k = true
        · rw [if_pos hf, if_pos hf, List.lookup_cons_self, List.lookup_cons_self]
        · rw [if_neg hf, if_neg hf, ih, if_neg hf]
      · rw [List.lookup_cons, beq_eq_false_iff_ne.mpr hk]
        by_cases hf : f k' = true
        · rw [if_pos hf, List.lookup_cons, beq_eq_false_iff_ne.mpr hk, ih]
        · rw [if_neg hf, ih]

theorem node_without (d : Tree ν α) {p : List ν} (hp : p ≠ []) (q : List ν) :
    (d.without p).node q = if p <+: q then none else d.node q := by
  have hget : (d.without p).entries.get? q = if p <+: q then none else d.entries.get? q := by
    refine (lookup_filter_key (fun k => decide (¬ p <+: k)) d.entries.entries q).trans ?_
    by_cases h : p <+: q
    · rw [if_neg (by simpa using h), if_pos h]
    · rw [if_pos (by simpa using h), if_neg h]
      rfl
  rw [node, node, hget]
  by_cases hq : q = []
  · rw [if_pos hq, if_pos hq, if_neg]
    intro h
    exact hp (List.prefix_nil.mp (hq ▸ h))
  · rw [if_neg hq, if_neg hq]

theorem node_erase (d : Tree ν α) {p : List ν} (hp : p ≠ []) (q : List ν) :
    (⟨d.entries.erase p⟩ : Tree ν α).node q = if q = p then none else d.node q := by
  rw [node, node, InsertionMap.get?_erase]
  by_cases hq : q = p
  · rw [if_pos hq, if_pos hq, if_neg (hq ▸ hp)]
  · rw [if_neg hq, if_neg hq]

theorem remove_eq {d : Tree ν α} {p : List ν} {c : α} (h : d.content p = some c) :
    d.remove p = some ⟨d.entries.erase p⟩ := by
  refine if_pos (.inl ?_)
  rw [h]
  rfl

theorem removeAll_eq {d : Tree ν α} {p : List ν} (h : d.node p = some .dir) :
    d.removeAll p = some (d.without p) := if_pos (isDir_iff.mpr h)

end Tree

end FileTrees
