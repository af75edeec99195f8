import VHono.ByteScan
import VHono.InsertionMap
import VHono.MachineRuns
import VHono.NumberedBackups
import VHono.NumberTexts
import VHono.TextSplits

/-! # The logger

    An entry that passes the level is formatted and written to the end of the
    log file.  A file that has grown to its limit becomes the first backup
    before, each backup the next one, and the last one is removed.  The calls
    of the operating system may fail, and none of their failures stops the
    logger; a line that is not written completely counts as far as it got. -/

namespace VHono

open ByteString NumberedBackups MachineRuns

inductive LogLevel
  | debug
  | info
  | warn
  | error
  deriving DecidableEq, Repr

/-- `int(level)` -/
def LogLevel.toInt : LogLevel → Nat
  | debug => 0
  | info => 1
  | warn => 2
  | error => 3

inductive LogOutput
  | console
  | file
  | both
  deriving DecidableEq, Repr

structure LogEntry where
  timestamp : ByteString
  level     : ByteString
  message   : ByteString
  module    : ByteString
  fields    : InsertionMap ByteString ByteString
  requestId : ByteString

structure LoggerConfig where
  level          : LogLevel := .info
  output         : LogOutput := .console
  maxFileSize    : Nat := 10 * 1024 * 1024
  maxBackupFiles : Int := 5
  enableColors   : Bool := true
  enableJson     : Bool := false

/-- The logger, with the JSON encoder of the library. -/
structure Logger where
  config     : LoggerConfig
  jsonEncode : LogEntry → ByteString

/-- What the calls of the operating system do for one entry: which of them fail, and how much of
    the line gets out if the writing does. -/
structure LogIo where
  mkdirFails     : Bool := false
  rmFails        : Bool := false
  mvFails        : Int → Bool := fun _ => false
  mvCurrentFails : Bool := false
  openFails      : Bool := false
  written        : Option Nat := none

def parseLogLevel (levelStr : ByteString) : LogLevel :=
  if toLower levelStr = ascii "debug" then .debug
  else if toLower levelStr = ascii "info" then .info
  else if toLower levelStr = ascii "warn" then .warn
  else if toLower levelStr = ascii "error" then .error
  else .info

def logLevelToString : LogLevel → ByteString
  | .debug => ascii "DEBUG"
  | .info => ascii "INFO"
  | .warn => ascii "WARN"
  | .error => ascii "ERROR"

def getColorCode : LogLevel → ByteString
  | .debug => 27 :: ascii "[36m"
  | .info => 27 :: ascii "[32m"
  | .warn => 27 :: ascii "[33m"
  | .error => 27 :: ascii "[31m"

def colorReset : ByteString := 27 :: ascii "[0m"

/-- `rotate_log_file`, from backup number `i` down. -/
def shiftBackups {α : Type*} (fails : Int → Bool) : Nat → Copies α → Copies α
  | 0, files => files
  | i + 1, files =>
    shiftBackups fails i (mv files (fails (i + 1)) (.backup (i + 1)) (.backup (i + 2)))

namespace Logger

def shouldLog (l : Logger) (level : LogLevel) : Bool :=
  decide (level.toInt ≥ l.config.level.toInt)

def formatTextLog (l : Logger) (entry : LogEntry) : ByteString :=
  [32].intercalate
    ([ascii "[" ++ entry.timestamp ++ ascii "]"] ++
    [if l.config.enableColors = true then
      getColorCode (parseLogLevel entry.level) ++ entry.level ++ colorReset else entry.level] ++
    (if entry.module ≠ [] then [ascii "[" ++ entry.module ++ ascii "]"] else []) ++
    [entry.message] ++
    (if entry.fields.len > 0 then [byte '{' :: ((ascii ", ").intercalate
      (entry.fields.entries.map (fun e => e.1 ++ byte '=' :: e.2)) ++ [byte '}'])] else []) ++
    (if entry.requestId ≠ [] then [ascii "[req:" ++ entry.requestId ++ ascii "]"] else []))

def rotateLogFile {α : Type*} (l : Logger) (io : LogIo) (files : Copies α) : Copies α :=
  let files := if (files (.backup l.config.maxBackupFiles)).isSome = true then
    rm files io.rmFails (.backup l.config.maxBackupFiles) else files
  let files := shiftBackups io.mvFails (l.config.maxBackupFiles - 1).toNat files
  mv files io.mvCurrentFails .current (.backup 1)

/-- The line that gets out. -/
def writtenLine (io : LogIo) (content : ByteString) : ByteString :=
  match io.written with
  | none => content ++ [10]
  | some n => (content ++ [10]).take n

/-- The check of the size, and the rotation if it is reached. -/
def makeRoom {α : Type*} (l : Logger) (length : α → Nat) (io : LogIo) (files : Copies α) :
    Copies α :=
  if l.config.maxFileSize > 0 then
    match files .current with
    | none => files
    | some old => if length old ≥ l.config.maxFileSize then l.rotateLogFile io files else files
  else files

def writeToFile (l : Logger) (io : LogIo) (files : Copies ByteString) (content : ByteString) :
    Copies ByteString :=
  if io.mkdirFails = true then files
  else
    let files := l.makeRoom List.length io files
    if io.openFails = true then files
    else write files .current ((files .current).getD [] ++ writtenLine io content)

end Logger

structure LogCall where
  level     : LogLevel
  message   : ByteString
  modName   : ByteString
  fields    : InsertionMap ByteString ByteString
  requestId : ByteString
  timestamp : ByteString
  io        : LogIo

namespace Logger

def entryOf (call : LogCall) : LogEntry where
  timestamp := call.timestamp
  level := logLevelToString call.level
  message := call.message
  module := call.modName
  fields := call.fields
  requestId := call.requestId

def contentOf (l : Logger) (call : LogCall) : ByteString :=
  if l.config.enableJson = true then l.jsonEncode (entryOf call) else l.formatTextLog (entryOf call)

/-- The files, and what is printed. -/
def log (l : Logger) (files : Copies ByteString) (call : LogCall) :
    Copies ByteString × Option ByteString :=
  if l.shouldLog call.level = false then (files, none)
  else
    match l.config.output with
    | .console => (files, some (l.contentOf call))
    | .file => (l.writeToFile call.io files (l.contentOf call), none)
    | .both => (l.writeToFile call.io files (l.contentOf call), some (l.contentOf call))

/-! ## The log as a list of lines -/

/-- What an entry adds to the log, if it gets as far as the file. -/
def loggedLine (l : Logger) (call : LogCall) : Option ByteString :=
  if l.shouldLog call.level = true ∧ l.config.output ≠ .console ∧ call.io.mkdirFails = false ∧
      call.io.openFails = false then some (writtenLine call.io (l.contentOf call))
  else none

/-- What an entry does to the lines of the files. -/
def logLines (l : Logger) (files : Copies (List ByteString)) (call : LogCall) :
    Copies (List ByteString) :=
  if l.shouldLog call.level = true ∧ l.config.output ≠ .console ∧ call.io.mkdirFails = false then
    let files := l.makeRoom (fun lines => lines.flatten.length) call.io files
    if call.io.openFails = true then files
    else write files .current
      ((files .current).getD [] ++ [writtenLine call.io (l.contentOf call)])
  else files

end Logger

theorem backup_two (i : Nat) : Name.backup ((i : Int) + 2) = nth (i + 2) := by
  show _ = Name.backup (((i + 1 : Nat) : Int) + 1)
  congr 1

theorem map_shiftBackups {α β : Type*} (f : α → β) (fails : Int → Bool) :
    ∀ (i : Nat) (files : Copies α),
      shiftBackups fails i (files.map f) = (shiftBackups fails i files).map f := by
  intro i
  induction i with
  | zero => exact fun _ => rfl
  | succ i ih =>
      intro files
      rw [shiftBackups, map_mv, ih, shiftBackups]

namespace Logger

theorem map_rotateLogFile {α β : Type*} (f : α → β) (l : Logger) (io : LogIo) (files : Copies α) :
    l.rotateLogFile io (files.map f) = (l.rotateLogFile io files).map f := by
  have hsome : (files.map f (.backup l.config.maxBackupFiles)).isSome
      = (files (.backup l.config.maxBackupFiles)).isSome := Option.isSome_map
  rw [rotateLogFile, rotateLogFile, hsome, map_rm, ← apply_ite (Copies.map f), map_shiftBackups,
    map_mv]

theorem map_makeRoom {α β : Type*} (f : α → β) (length : β → Nat) (l : Logger) (io : LogIo)
    (files : Copies α) :
    l.makeRoom length io (files.map f)
      = (l.makeRoom (fun content => length (f content)) io files).map f := by
  rw [makeRoom, makeRoom]
  split
  · have hcurrent : files.map f .current = (files .current).map f := rfl
    rw [hcurrent]
    cases files .current with
    | none => rfl
    | some old =>
        dsimp only [Option.map_some]
        rw [map_rotateLogFile, ← apply_ite (Copies.map f)]
  · rfl

theorem getD_flatten (lines : Option (List ByteString)) :
    (lines.map List.flatten).getD [] = (lines.getD []).flatten := by
  cases lines with
  | none => rfl
  | some lines => rfl

/-- **BYTES ARE LINES.**  What an entry does to the bytes of the files it does to their lines. -/
theorem log_flatten (l : Logger) (files : Copies (List ByteString)) (call : LogCall) :
    (l.log (files.map List.flatten) call).1 = (l.logLines files call).map List.flatten := by
  have hwrite : l.writeToFile call.io (files.map List.flatten) (l.contentOf call)
      = (if call.io.mkdirFails = false then
          let files := l.makeRoom (fun lines => lines.flatten.length) call.io files
          if call.io.openFails = true then files
          else write files .current
            ((files .current).getD [] ++ [writtenLine call.io (l.contentOf call)])
        else files).map List.flatten := by
    rw [writeToFile, map_makeRoom]
    cases call.io.mkdirFails with
    | true => rfl
    | false =>
        dsimp only
        rw [if_neg Bool.false_ne_true, if_pos rfl]
        split
        · rfl
        · rw [← map_write, Copies.map, getD_flatten, List.flatten_append, List.flatten_singleton]
  rw [log, logLines]
  cases hlevel : l.shouldLog call.level with
  | false => simp
  | true =>
      cases houtput : l.config.output with
      | console => simp
      | file =>
          simp only [Bool.true_eq_false, if_false, hwrite]
          simp
      | both =>
          simp only [Bool.true_eq_false, if_false, hwrite]
          simp

/-! ## What a failure can cost -/

theorem history_shiftBackups {fails : Int → Bool} (n : Nat) :
    ∀ (i : Nat) (files : Copies (List ByteString)),
      List.Sublist (history (shiftBackups fails i files) n) (history files n) := by
  intro i
  induction i with
  | zero => exact fun files => List.Sublist.refl _
  | succ i ih =>
      intro files
      rw [shiftBackups, backup_two]
      exact (ih _).trans (history_mv files (fails (i + 1)) (i + 1) n)

/-- A rotation loses lines at most. -/
theorem history_rotateLogFile (l : Logger) (io : LogIo) (files : Copies (List ByteString))
    (n : Nat) : List.Sublist (history (l.rotateLogFile io files) n) (history files n) := by
  rw [rotateLogFile]
  refine (history_mv _ io.mvCurrentFails 0 n).trans ((history_shiftBackups n _ _).trans ?_)
  split
  · exact history_rm files io.rmFails _ n
  · exact List.Sublist.refl _

theorem history_makeRoom (l : Logger) (length : List ByteString → Nat) (io : LogIo)
    (files : Copies (List ByteString)) (n : Nat) :
    List.Sublist (history (l.makeRoom length io files) n) (history files n) := by
  rw [makeRoom]
  split
  · split
    · exact List.Sublist.refl _
    · split
      · exact history_rotateLogFile l io files n
      · exact List.Sublist.refl _
  · exact List.Sublist.refl _

/-- **THE STEP LEMMA.**  An entry adds its line last, if at all. -/
theorem history_logLines (l : Logger) (files : Copies (List ByteString)) (call : LogCall)
    (n : Nat) :
    List.Sublist (history (l.logLines files call) (n + 1))
      (history files (n + 1) ++ (l.loggedLine call).toList) := by
  rw [logLines, loggedLine]
  split
  · rename_i hreaches
    dsimp only
    have hroom := history_makeRoom l (fun lines => lines.flatten.length) call.io files (n + 1)
    cases hopen : call.io.openFails with
    | true =>
        rw [if_pos rfl]
        exact hroom.trans (List.sublist_append_left _ _)
    | false =>
        rw [if_neg Bool.false_ne_true, if_pos ⟨hreaches.1, hreaches.2.1, hreaches.2.2, rfl⟩]
        have hwritten := history_write
          (l.makeRoom (fun lines => lines.flatten.length) call.io files)
          (writtenLine call.io (l.contentOf call)) n
        rw [show Name.current = nth 0 from rfl, hwritten]
        exact hroom.append (List.Sublist.refl _)
  · exact List.sublist_append_left _ _

/-- No log file is there. -/
def noFiles {α : Type*} : Copies α := fun _ => none

theorem history_noFiles (n : Nat) : history (noFiles : Copies (List ByteString)) n = [] := by
  induction n with
  | zero => rfl
  | succ n ih =>
      rw [history_succ, ih]
      rfl

theorem filterMap_loggedLine (l : Logger) (call : LogCall) (calls : List LogCall) :
    (call :: calls).filterMap l.loggedLine
      = (l.loggedLine call).toList ++ calls.filterMap l.loggedLine := by
  cases hline : l.loggedLine call with
  | none =>
      rw [List.filterMap_cons_none hline]
      rfl
  | some line =>
      rw [List.filterMap_cons_some hline]
      rfl

/-- A run over the lines of the files. -/
def logAll (l : Logger) (files : Copies (List ByteString)) (calls : List LogCall) :
    Copies (List ByteString) :=
  calls.foldl l.logLines files

theorem final_log (l : Logger) :
    ∀ (calls : List LogCall) (files : Copies (List ByteString)),
      final l.log (files.map List.flatten) calls = (l.logAll files calls).map List.flatten := by
  intro calls
  induction calls with
  | nil => exact fun _ => rfl
  | cons call calls ih =>
      intro files
      rw [final_cons, log_flatten, ih]
      rfl

/-! ## Rotations that go through -/

/-- Every rename and removal goes through. -/
def Renames (io : LogIo) : Prop :=
  io.rmFails = false ∧ (∀ i, io.mvFails i = false) ∧ io.mvCurrentFails = false

/-- How many backups are kept: at least one, whatever the configuration says. -/
def backupCount (l : Logger) : Nat := max l.config.maxBackupFiles.toNat 1

theorem nth_ne {i j : Nat} (h : i ≠ j) : nth i ≠ nth j := fun heq => h (nth_injective heq)

/-- What the loop does if every rename goes through and the last place is free. -/
theorem shiftBackups_done {α : Type*} {fails : Int → Bool} (hfails : ∀ i, fails i = false) :
    ∀ (k : Nat) (files : Copies α), files (nth (k + 1)) = none →
      shiftBackups fails k files (nth 1) = none ∧
      (∀ j < k, shiftBackups fails k files (nth (j + 2)) = files (nth (j + 1))) ∧
      ∀ name, (∀ j ≤ k, name ≠ nth (j + 1)) → shiftBackups fails k files name = files name := by
  intro k
  induction k with
  | zero => exact fun files hfree => ⟨hfree, fun j hj => (by omega), fun _ _ => rfl⟩
  | succ k ih =>
      intro files hfree
      have hmoved := mv_done (nth (k + 1)) hfree
      rw [shiftBackups, hfails, backup_two]
      have hsource : mv files false (nth (k + 1)) (nth (k + 2)) (nth (k + 1)) = none := by
        rw [hmoved, if_neg (nth_ne (by omega)), if_pos rfl]
      obtain ⟨hfirst, hshifted, hothers⟩ := ih _ hsource
      refine ⟨hfirst, fun j hj => ?_, fun name hname => ?_⟩
      · rcases Nat.lt_succ_iff_lt_or_eq.mp hj with hlt | rfl
        · rw [show Name.backup ((k : Int) + 1) = nth (k + 1) from rfl, hshifted j hlt, hmoved,
            if_neg (nth_ne (by omega)), if_neg (nth_ne (by omega))]
        · rw [show Name.backup ((j : Int) + 1) = nth (j + 1) from rfl,
            hothers _ (fun i hi => nth_ne (by omega)), hmoved, if_pos rfl]
      · rw [show Name.backup ((k : Int) + 1) = nth (k + 1) from rfl,
          hothers name (fun j hj => hname j (by omega)), hmoved,
          if_neg (hname (k + 1) (Nat.le_refl _)), if_neg (hname k (Nat.le_succ k))]

/-- **A ROTATION THAT GOES THROUGH.**  Every file takes the place of the next older one, and the
    last one is gone. -/
theorem rotateLogFile_done {α : Type*} (l : Logger) {io : LogIo} (hio : Renames io)
    {files : Copies α} (hcurrent : (files .current).isSome = true)
    (houtside : ∀ name, (∀ j ≤ l.backupCount, name ≠ nth j) → files name = none) :
    l.rotateLogFile io files (nth 0) = none ∧
    (∀ j < l.backupCount, l.rotateLogFile io files (nth (j + 1)) = files (nth j)) ∧
    ∀ name, (∀ j ≤ l.backupCount, name ≠ nth j) → l.rotateLogFile io files name = none := by
  obtain ⟨hrm, hmv, hmvCurrent⟩ := hio
  rw [rotateLogFile, hrm, hmvCurrent]
  by_cases hpositive : 1 ≤ l.config.maxBackupFiles
  · obtain ⟨k, hk⟩ : ∃ k : Nat, l.config.maxBackupFiles = k + 1 :=
      ⟨(l.config.maxBackupFiles - 1).toNat, by omega⟩
    have hcount : l.backupCount = k + 1 := by
      rw [backupCount, hk]
      omega
    have hlast : Name.backup l.config.maxBackupFiles = nth (k + 1) := congrArg Name.backup hk
    have hloop : (l.config.maxBackupFiles - 1).toNat = k := by omega
    rw [hcount] at houtside ⊢
    rw [hlast, hloop]
    -- the last backup is gone, whether it was there or not
    have hremoved : ∀ name, (if (files (nth (k + 1))).isSome = true then
        rm files false (nth (k + 1)) else files) name
          = if name = nth (k + 1) then none else files name := by
      intro name
      cases hfile : files (nth (k + 1)) with
      | none =>
          rw [if_neg (by simp)]
          split
          · rename_i hname
            rw [hname, hfile]
          · rfl
      | some content =>
          rw [if_pos Option.isSome_some]
          rfl
    obtain ⟨hfirst, hshifted, hothers⟩ := shiftBackups_done hmv k _
      ((hremoved (nth (k + 1))).trans (if_pos rfl))
    have hmoved := mv_done (nth 0) hfirst
    refine ⟨?_, fun j hj => ?_, fun name hname => ?_⟩
    · exact (hmoved (nth 0)).trans ((if_neg (nth_ne (by omega))).trans (if_pos rfl))
    · cases j with
      | zero =>
          refine (hmoved (nth 1)).trans ((if_pos rfl).trans ?_)
          rw [hothers _ (fun j _ => nth_ne (by omega)), hremoved, if_neg (nth_ne (by omega))]
      | succ j =>
          refine (hmoved (nth (j + 2))).trans ((if_neg (nth_ne (by omega))).trans
            ((if_neg (nth_ne (by omega))).trans ?_))
          rw [hshifted j (by omega), hremoved, if_neg (nth_ne (by omega))]
    · refine (hmoved name).trans ((if_neg (hname 1 (by omega))).trans
        ((if_neg (hname 0 (by omega))).trans ?_))
      rw [hothers name (fun j hj => hname (j + 1) (by omega)), hremoved,
        if_neg (hname (k + 1) (Nat.le_refl _)), houtside name hname]
  · -- without a backup to keep, the first one is overwritten all the same
    have hcount : l.backupCount = 1 := by
      rw [backupCount]
      omega
    have hloop : (l.config.maxBackupFiles - 1).toNat = 0 := by omega
    have hnone : files (.backup l.config.maxBackupFiles) = none := by
      refine houtside _ (fun j hj h => ?_)
      rw [hcount] at hj
      rcases Nat.le_one_iff_eq_zero_or_eq_one.mp hj with rfl | rfl
      · cases h
      · have hone : l.config.maxBackupFiles = ((0 : Nat) : Int) + 1 := Name.backup.inj h
        omega
    rw [hcount] at houtside ⊢
    rw [hnone, if_neg (by simp), hloop, shiftBackups, mv, if_pos ⟨hcurrent, rfl⟩]
    refine ⟨rfl, fun j hj => ?_, fun name hname => ?_⟩
    · obtain rfl := Nat.lt_one_iff.mp hj
      rfl
    · exact (if_neg (hname 1 (Nat.le_refl 1))).trans
        ((if_neg (hname 0 (Nat.zero_le 1))).trans (houtside name hname))

/-- The files after entries of which every rename went through: what is dropped came first, and
    something is dropped only while all backups are there; and they have the size. -/
structure Rotated (l : Logger) (lines : List ByteString) (files : Copies (List ByteString)) :
    Prop where
  suffix  : ∃ dropped, lines = dropped ++ history files (l.backupCount + 1) ∧
    (dropped = [] ∨ ∀ i < l.backupCount, (files (nth (i + 1))).isSome = true)
  gapless : ∀ i, (files (nth (i + 2))).isSome = true → (files (nth (i + 1))).isSome = true
  sizes   : ∀ i content, files (nth (i + 1)) = some content →
    l.config.maxFileSize ≤ content.flatten.length
  outside : ∀ name, (∀ j ≤ l.backupCount, name ≠ nth j) → files name = none

theorem backupCount_pos (l : Logger) : 0 < l.backupCount :=
  Nat.lt_of_lt_of_le Nat.zero_lt_one (Nat.le_max_right _ _)

/-- **THE ROTATION STEP.** -/
theorem Rotated.rotate {l : Logger} {lines : List ByteString} {files : Copies (List ByteString)}
    (h : Rotated l lines files) {io : LogIo} (hio : Renames io) {old : List ByteString}
    (hcurrent : files .current = some old) (hsize : l.config.maxFileSize ≤ old.flatten.length) :
    Rotated l lines (l.rotateLogFile io files) := by
  have hsome : (files .current).isSome = true := by
    rw [hcurrent]
    rfl
  obtain ⟨hfirst, hshifted, hothers⟩ := rotateLogFile_done l hio hsome h.outside
  have hbeyond : ∀ i, l.backupCount ≤ i → l.rotateLogFile io files (nth (i + 1)) = none :=
    fun i hi => hothers _ (fun j hj => nth_ne (by omega))
  have hgapless : ∀ i, (files (nth (i + 1))).isSome = true → (files (nth i)).isSome = true := by
    intro i hi
    cases i with
    | zero => exact hsome
    | succ i => exact h.gapless i hi
  refine ⟨?_, fun i hi => ?_, fun i content hcontent => ?_, hothers⟩
  · obtain ⟨dropped, hlines, hfull⟩ := h.suffix
    have hhistory := history_shift hfirst hshifted
    refine ⟨dropped ++ (files (nth l.backupCount)).getD [], ?_, ?_⟩
    · rw [hhistory, List.append_assoc, hlines, history_succ]
    · -- the last backup was there, and so were all younger ones
      cases hlast : files (nth l.backupCount) with
      | none =>
          left
          rcases hfull with rfl | hall
          · rfl
          · obtain ⟨k, hk⟩ := Nat.exists_eq_succ_of_ne_zero (backupCount_pos l).ne'
            have hthere := hall k (by omega)
            rw [hk] at hlast
            rw [hlast] at hthere
            cases hthere
      | some content =>
          right
          have hdown : ∀ k i, i + k = l.backupCount → (files (nth i)).isSome = true := by
            intro k
            induction k with
            | zero =>
                intro i hi
                rw [show i = l.backupCount from hi, hlast]
                rfl
            | succ k ih => exact fun i hi => hgapless i (ih (i + 1) (by omega))
          intro i hi
          rw [hshifted i hi]
          exact hdown (l.backupCount - i) i (by omega)
  · by_cases hlt : i + 1 < l.backupCount
    · rw [hshifted (i + 1) hlt] at hi
      rw [hshifted i (by omega)]
      exact hgapless i hi
    · rw [hbeyond (i + 1) (by omega)] at hi
      cases hi
  · by_cases hlt : i < l.backupCount
    · rw [hshifted i hlt] at hcontent
      cases i with
      | zero =>
          have hold : files .current = some content := hcontent
          rw [hcurrent] at hold
          rw [← Option.some.inj hold]
          exact hsize
      | succ i => exact h.sizes i content hcontent
    · rw [hbeyond i (by omega)] at hcontent
      cases hcontent

/-- A line written at the end. -/
theorem Rotated.write {l : Logger} {lines : List ByteString} {files : Copies (List ByteString)}
    (h : Rotated l lines files) (line : ByteString) :
    Rotated l (lines ++ [line]) (write files .current ((files .current).getD [] ++ [line])) := by
  have hbackup : ∀ i, NumberedBackups.write files .current ((files .current).getD [] ++ [line])
      (nth (i + 1)) = files (nth (i + 1)) := fun i => if_neg (nth_ne (Nat.succ_ne_zero i))
  refine ⟨?_, fun i hi => ?_, fun i content hcontent => ?_, fun name hname => ?_⟩
  · obtain ⟨dropped, hlines, hfull⟩ := h.suffix
    refine ⟨dropped, ?_, hfull.imp_right (fun hall i hi => (hbackup i).symm ▸ hall i hi)⟩
    have hwritten := history_write files line l.backupCount
    show _ = dropped ++ history (NumberedBackups.write files (nth 0)
      ((files (nth 0)).getD [] ++ [line])) _
    rw [hwritten, hlines, List.append_assoc]
  · rw [hbackup] at hi ⊢
    exact h.gapless i hi
  · rw [hbackup] at hcontent
    exact h.sizes i content hcontent
  · have hcurrent : name ≠ .current := hname 0 (Nat.zero_le _)
    rw [NumberedBackups.write, if_neg hcurrent]
    exact h.outside name hname

/-- **THE STEP LEMMA.**  An entry whose renames go through. -/
theorem Rotated.log {l : Logger} {lines : List ByteString} {files : Copies (List ByteString)}
    (h : Rotated l lines files) {call : LogCall} (hio : Renames call.io) :
    Rotated l (lines ++ (l.loggedLine call).toList) (l.logLines files call) := by
  have hroom : Rotated l lines (l.makeRoom (fun lines => lines.flatten.length) call.io files) := by
    rw [makeRoom]
    split
    · split
      · exact h
      · rename_i old hcurrent
        split
        · rename_i hsize
          exact h.rotate hio hcurrent hsize
        · exact h
    · exact h
  by_cases hreaches : l.shouldLog call.level = true ∧ l.config.output ≠ .console ∧
      call.io.mkdirFails = false
  · rw [logLines, if_pos hreaches, loggedLine]
    cases hopen : call.io.openFails with
    | true =>
        rw [if_neg (fun hall => Bool.noConfusion hall.2.2.2), if_pos rfl]
        show Rotated l (lines ++ []) _
        rw [List.append_nil]
        exact hroom
    | false =>
        rw [if_pos ⟨hreaches.1, hreaches.2.1, hreaches.2.2, rfl⟩]
        exact hroom.write _
  · rw [logLines, if_neg hreaches, loggedLine,
      if_neg (fun hall => hreaches ⟨hall.1, hall.2.1, hall.2.2.1⟩)]
    show Rotated l (lines ++ []) _
    rw [List.append_nil]
    exact h

/-- **THE NEWEST LINES ARE KEPT.**  After any entries whose renames and removals go through, the
    file and its backups hold the last lines that were logged; if older ones are gone, what is
    left has the maximal size for every backup; and there is no other file. -/
theorem log_keeps_newest (l : Logger) (calls : List LogCall)
    (hcalls : ∀ call ∈ calls, Renames call.io) :
    (∃ dropped kept, calls.filterMap l.loggedLine = dropped ++ kept ∧
      history (final l.log noFiles calls) (l.backupCount + 1) = kept.flatten ∧
      (dropped = [] ∨ l.backupCount * l.config.maxFileSize ≤ kept.flatten.length)) ∧
    ∀ name, (∀ j ≤ l.backupCount, name ≠ nth j) → final l.log noFiles calls name = none := by
  have hrun : ∀ (calls : List LogCall) (lines : List ByteString)
      (files : Copies (List ByteString)), (∀ call ∈ calls, Renames call.io) →
      Rotated l lines files →
      Rotated l (lines ++ calls.filterMap l.loggedLine) (l.logAll files calls) := by
    intro calls
    induction calls with
    | nil =>
        intro lines files _ h
        rw [List.filterMap_nil, List.append_nil]
        exact h
    | cons call calls ih =>
        intro lines files hio h
        have hnext := ih _ _ (fun c hc => hio c (List.mem_cons_of_mem _ hc))
          (h.log (hio call (List.mem_cons_self ..)))
        rw [filterMap_loggedLine, ← List.append_assoc]
        exact hnext
  have hstart : Rotated l [] noFiles :=
    ⟨⟨[], (history_noFiles _).symm, Or.inl rfl⟩, fun _ h => (by cases h), fun _ _ h => (by cases h),
      fun _ _ => rfl⟩
  have hend := hrun calls [] noFiles hcalls hstart
  have hfinal : final l.log noFiles calls = (l.logAll noFiles calls).map List.flatten :=
    final_log l calls noFiles
  rw [hfinal, history_flatten]
  refine ⟨?_, fun name hname => by rw [Copies.map, hend.outside name hname]; rfl⟩
  obtain ⟨dropped, hlines, hfull⟩ := hend.suffix
  refine ⟨dropped, _, hlines, rfl, hfull.imp_right (fun hall => ?_)⟩
  rw [← history_flatten]
  refine length_history (fun i hi => ?_)
  obtain ⟨content, hcontent⟩ := Option.isSome_iff_exists.mp (hall i hi)
  exact ⟨content.flatten, by rw [Copies.map, hcontent]; rfl, hend.sizes i content hcontent⟩

/-- Four bytes a file, and one backup although none is asked for. -/
def tinyLogger : Logger where
  config := { output := .file, maxFileSize := 4, maxBackupFiles := 0, enableColors := false }
  jsonEncode _ := []

def tinyEntry (message : String) : LogCall where
  level := .info
  message := ascii message
  modName := []
  fields := .empty
  requestId := []
  timestamp := ascii "t"
  io := {}

/-- Of three lines the first one is dropped. -/
theorem tinyLogger_keeps_newest :
    (∃ dropped kept, [tinyEntry "a", tinyEntry "b", tinyEntry "c"].filterMap tinyLogger.loggedLine
        = dropped ++ kept ∧
      history (final tinyLogger.log noFiles [tinyEntry "a", tinyEntry "b", tinyEntry "c"])
        (tinyLogger.backupCount + 1) = kept.flatten ∧
      (dropped = [] ∨ tinyLogger.backupCount * 4 ≤ kept.flatten.length)) ∧
    ∀ name, (∀ j ≤ tinyLogger.backupCount, name ≠ nth j) →
      final tinyLogger.log noFiles [tinyEntry "a", tinyEntry "b", tinyEntry "c"] name = none := by
  refine log_keeps_newest tinyLogger _ (fun call hcall => ?_)
  have hio : call.io = {} := by
    rcases List.mem_cons.mp hcall with rfl | hcall
    · rfl
    · rcases List.mem_pair.mp hcall with rfl | rfl
      · rfl
      · rfl
  rw [hio]
  exact ⟨rfl, fun _ => rfl, rfl⟩

example : history (final tinyLogger.log noFiles [tinyEntry "a", tinyEntry "b", tinyEntry "c"]) 2
    = ascii "[t] INFO b\n[t] INFO c\n" := by decide

end Logger

end VHono
