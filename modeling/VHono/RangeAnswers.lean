import VHono.FileStreams
import VHono.PartRanges
import VHono.TextSplits

/-! # The answers to range requests

    A range selects an interval of the bytes of a file, or none.  For an
    interval both handlers answer with exactly its bytes and the headers that
    say so, and for none without a partial content, exactly if the last byte
    named is in the file and its offset fits into 32 bits.  The last bytes of a
    file that is not empty are selected by neither. -/

namespace VHono

open ByteString NumberTexts
open ChunkManager (toInt)

namespace RangeAnswers

/-! ## What a range selects -/

/-- A run of digits. -/
structure Number where
  text     : ByteString
  digits   : Digits text
  nonempty : text ≠ []

def Number.value (n : Number) : Nat := NumberTexts.value n.text

/-- `a-b`, `a-` and `-n` -/
inductive ByteRange
  | closed (first last : Number)
  | onward (first : Number)
  | suffix (count : Number)

namespace ByteRange

def first : ByteRange → ByteString
  | .closed a _ => a.text
  | .onward a => a.text
  | .suffix _ => []

def last : ByteRange → ByteString
  | .closed _ b => b.text
  | .onward _ => []
  | .suffix n => n.text

/-- The header that asks for a range. -/
def header (range : ByteRange) : ByteString :=
  ascii "bytes=" ++ (range.first ++ (ascii "-" ++ range.last))

/-- The positions of the first and the last byte of the interval. -/
def selected (range : ByteRange) (size : Nat) : Option (Nat × Nat) :=
  match range with
  | .closed a b =>
    if a.value < size ∧ a.value ≤ b.value then some (a.value, min b.value (size - 1)) else none
  | .onward a => if a.value < size then some (a.value, size - 1) else none
  | .suffix n =>
    if 0 < min n.value size then some (size - min n.value size, size - 1) else none

end ByteRange

/-- The answer to a request for an interval of the content. -/
def Follows (content : ByteString) (selected : Option (Nat × Nat))
    (answer : Option (Context × HttpResponse)) : Prop :=
  match selected with
  | none => ∀ c response, answer = some (c, response) → response.statusCode ≠ 206
  | some (i, j) => ∃ c response, answer = some (c, response) ∧ response.statusCode = 206 ∧
      response.body = slice content i (j + 1) ∧
      (ascii "Content-Range",
        contentRange (decimal i) (decimal j) (decimal content.length)) ∈ response.header ∧
      (ascii "Content-Length", decimal (j - i + 1)) ∈ response.header

/-- A request for a range of a file that holds the content. -/
structure AsksFile (fs : FileView) (c : Context) (filePath : ByteString) (options : FileOptions)
    (range : ByteRange) (content : ByteString) : Prop where
  safe    : isSafeFilePath filePath = true
  present : fs.present filePath = true
  notDir  : fs.isDir filePath = false
  read    : fs.readFile filePath = some content
  stat    : ∃ mtime, fs.stat filePath = some { size := content.length, mtime := mtime }
  enabled : options.enableRange = true
  asked   : c.req.header.getCustom (ascii "Range") = some range.header

/-- Both handlers follow the range, whatever else they are given. -/
structure BothFollow (range : ByteRange) (content : ByteString) : Prop where
  context : ∀ (fs : FileView) (c : Context) (filePath : ByteString) (options : FileOptions),
    AsksFile fs c filePath options range content →
      Follows content (range.selected content.length)
        (c.fileStreamWithOptions fs filePath options)
  service : ∀ (encode : StorageErrorResponse → ByteString)
    (download : ByteString → Except ByteString ByteString) (ctx : Context) (fileInfo : FileInfo),
    download fileInfo.fileUuid = .ok content → fileInfo.fileSize = content.length →
      Follows content (range.selected content.length)
        (handleRangeDownload encode download ctx fileInfo range.header)

/-- The range is refused by its numbers, or the last byte named is in the file and no offset
    needs more than 32 bits. -/
def Suits (range : ByteRange) (size : Nat) : Prop :=
  match range with
  | .closed a b => size ≤ a.value ∨ b.value < a.value ∨ b.value < size ∧ b.value + 1 < 2 ^ 31
  | .onward a => size ≤ a.value ∨ size < 2 ^ 31
  | .suffix _ => size = 0

/-! ## Reading the header -/

theorem trimSpace_digits {s : ByteString} (h : Digits s) : trimSpace s = s := by
  have hplain : ∀ b ∈ s, isSpace b = false := by
    intro b hb
    obtain ⟨hlow, -⟩ := isDigitByte_iff.mp (h b hb)
    have hne : ∀ c : UInt8, c.toNat < 48 → (b == c) = false := by
      rintro c hc
      refine beq_eq_false_iff_ne.mpr ?_
      rintro rfl
      omega
    simp [isSpace, hne]
  rw [trimSpace_eq_self_iff]
  exact ⟨fun b hb => hplain b (List.mem_of_mem_head? hb),
    fun b hb => hplain b (List.mem_of_getLast? hb)⟩

theorem splitStr_header {a b : ByteString} (ha : byte '-' ∉ a) (hb : byte '-' ∉ b) :
    splitStr (a ++ (ascii "-" ++ b)) (ascii "-") = [a, b] := by
  have hlast : splitStr b (ascii "-") = [b] :=
    splitStr_free (not_containsStr_of_mem (List.mem_singleton.mpr rfl) hb)
  exact (splitFrom_append ha).trans (congrArg (a :: ·) hlast)

theorem ByteRange.first_digits (range : ByteRange) : Digits range.first := by
  cases range with
  | closed a b => exact a.digits
  | onward a => exact a.digits
  | suffix n => exact fun b hb => (by cases hb)

theorem ByteRange.last_digits (range : ByteRange) : Digits range.last := by
  cases range with
  | closed a b => exact b.digits
  | onward a => exact fun b hb => (by cases hb)
  | suffix n => exact n.digits

theorem not_dash_mem {s : ByteString} (h : Digits s) : byte '-' ∉ s :=
  fun hdash => absurd (h _ hdash) (by decide)

theorem startsWith_header (range : ByteRange) :
    startsWith range.header (ascii "bytes=") = true := startsWith_append _ _

theorem splitStr_drop_header (range : ByteRange) :
    splitStr (range.header.drop 6) (ascii "-") = [range.first, range.last] := by
  have hdrop : range.header.drop 6 = range.first ++ (ascii "-" ++ range.last) :=
    List.drop_left' rfl
  rw [hdrop]
  exact splitStr_header (not_dash_mem range.first_digits) (not_dash_mem range.last_digits)

theorem parseRangeHeader_header (range : ByteRange) {size start stop : Nat}
    (hstart : (if range.first ≠ [] then u64 range.first else 0) = start)
    (hstop : (if range.last ≠ [] then
        if u64 range.last ≥ size then (size + maxU64) % 2 ^ 64 else u64 range.last
      else (size + maxU64) % 2 ^ 64) = stop) :
    parseRangeHeader range.header size =
      if start > stop ∨ start ≥ size then none
      else some { start := start, stop := stop, total := size } := by
  subst hstart hstop
  rw [parseRangeHeader, startsWith_header, if_neg (by decide), splitStr_drop_header]
  dsimp only
  rw [trimSpace_digits range.first_digits, trimSpace_digits range.last_digits]

/-- The first number of a header, as the file service reads it. -/
def ByteRange.startNumber (range : ByteRange) : Int :=
  if range.first ≠ [] then i64 range.first else 0

def ByteRange.stopNumber (range : ByteRange) (size : Int) : Int :=
  if range.last ≠ [] then i64 range.last else size - 1

theorem handleRangeDownload_header (range : ByteRange)
    (encode : StorageErrorResponse → ByteString)
    (download : ByteString → Except ByteString ByteString) (ctx : Context) (fileInfo : FileInfo) :
    handleRangeDownload encode download ctx fileInfo range.header
      = answerRange encode download ctx fileInfo range.startNumber
          (range.stopNumber fileInfo.fileSize) := by
  rw [handleRangeDownload, startsWith_header, if_neg (by decide), splitStr_drop_header]
  rfl

/-! ## The context -/

theorem Number.u64 (n : Number) : u64 n.text = min n.value maxU64 := u64_digits n.digits

theorem Number.i64 (n : Number) : i64 n.text = min (n.value : Int) (2 ^ 63 - 1) :=
  i64_digits n.digits

/-- But for the last bytes of a file that is not empty, the interval is the one selected. -/
theorem parse_selected (range : ByteRange) {size : Nat} (hsize : size < 2 ^ 63)
    (hsuffix : ∀ n, range = .suffix n → size = 0) :
    parseRangeHeader range.header size
      = (range.selected size).map (fun ij => { start := ij.1, stop := ij.2, total := size }) := by
  have hmax : maxU64 = 2 ^ 64 - 1 := rfl
  cases range with
  | closed a b =>
      have hstop : (if b.text ≠ [] then
          if NumberTexts.u64 b.text ≥ size then (size + maxU64) % 2 ^ 64 else NumberTexts.u64 b.text
        else (size + maxU64) % 2 ^ 64) =
          if min b.value maxU64 ≥ size then (size + maxU64) % 2 ^ 64 else min b.value maxU64 := by
        rw [if_pos b.nonempty, b.u64]
      rw [parseRangeHeader_header (.closed a b) ((if_pos a.nonempty).trans a.u64) hstop,
        ByteRange.selected]
      by_cases hsel : a.value < size ∧ a.value ≤ b.value
      · have hstart : min a.value maxU64 = a.value := by omega
        have hstop : (if min b.value maxU64 ≥ size then (size + maxU64) % 2 ^ 64
            else min b.value maxU64) = min b.value (size - 1) := by
          split <;> omega
        rw [hstart, hstop, if_pos hsel, if_neg (by omega)]
        rfl
      · have hrefused : min a.value maxU64 > (if min b.value maxU64 ≥ size
            then (size + maxU64) % 2 ^ 64 else min b.value maxU64) ∨ min a.value maxU64 ≥ size := by
          split <;> omega
        rw [if_pos hrefused, if_neg hsel]
        rfl
  | onward a =>
      rw [parseRangeHeader_header (.onward a) ((if_pos a.nonempty).trans a.u64)
        (if_neg (fun h => h rfl)), ByteRange.selected]
      by_cases hsel : a.value < size
      · have hstart : min a.value maxU64 = a.value := by omega
        have hstop : (size + maxU64) % 2 ^ 64 = size - 1 := by omega
        rw [hstart, hstop, if_pos hsel, if_neg (by omega)]
        rfl
      · rw [if_pos (by omega), if_neg hsel]
        rfl
  | suffix n =>
      obtain rfl := hsuffix n rfl
      rw [parseRangeHeader_header (.suffix n) (if_neg (fun h => h rfl)) rfl,
        if_pos (.inr (Nat.zero_le _)), ByteRange.selected, Nat.min_zero, if_neg (Nat.lt_irrefl 0)]
      rfl

theorem readBuffers_status {c c' : Context} {fs : FileView} {filePath : ByteString} {fileSize : Nat}
    {options : FileOptions} {response : HttpResponse} (hc : c.statusCode ≠ 206)
    (h : c.streamLargeFile fs filePath fileSize options = some (c', response)) :
    response.statusCode ≠ 206 := by
  rw [Context.streamLargeFile] at h
  split at h
  · obtain ⟨-, rfl⟩ := Prod.mk.inj (Option.some.inj h)
    exact (by decide : (500 : Int) ≠ 206)
  · split at h
    · cases h
    · obtain ⟨-, rfl⟩ := Prod.mk.inj (Option.some.inj h)
      exact hc

/-- The whole file is no partial content. -/
theorem wholeFile_status {c c' : Context} {fs : FileView} {filePath : ByteString}
    {fileInfo : FileStat} {options : FileOptions} {response : HttpResponse}
    (h : c.wholeFile fs filePath fileInfo options = some (c', response)) :
    response.statusCode ≠ 206 := by
  rw [Context.wholeFile] at h
  dsimp only at h
  split at h
  · split at h
    · obtain ⟨-, rfl⟩ := Prod.mk.inj (Option.some.inj h)
      exact (by decide : (500 : Int) ≠ 206)
    · -- with the ETag or without it
      split at h
      all_goals split at h
      · obtain ⟨-, rfl⟩ := Prod.mk.inj (Option.some.inj h)
        exact (by decide : (304 : Int) ≠ 206)
      · obtain ⟨-, rfl⟩ := Prod.mk.inj (Option.some.inj h)
        exact (by decide : (200 : Int) ≠ 206)
      · obtain ⟨-, rfl⟩ := Prod.mk.inj (Option.some.inj h)
        exact (by decide : (304 : Int) ≠ 206)
      · obtain ⟨-, rfl⟩ := Prod.mk.inj (Option.some.inj h)
        exact (by decide : (200 : Int) ≠ 206)
  · exact readBuffers_status (by decide : (200 : Int) ≠ 206) h

theorem slice_length {content : ByteString} {i j : Nat} (hij : i ≤ j) (hj : j < content.length) :
    (slice content i (j + 1)).length = j - i + 1 := by
  rw [slice, List.length_drop, List.length_take]
  omega

theorem contentRange_valid : Header.validName (ascii "Content-Range") = true := by decide

theorem contentLength_valid : Header.validName (ascii "Content-Length") = true := by decide

/-- Offsets of 31 bits are those of the interval. -/
theorem handleRange_follows (c : Context) {fs : FileView} {filePath content : ByteString} {i j : Nat}
    (hread : fs.readFile filePath = some content) (hij : i ≤ j) (hj : j < content.length)
    (hfit : j + 1 < 2 ^ 31) :
    Follows content (some (i, j)) (c.handleRangeRequest fs filePath
      { start := i, stop := j, total := content.length }) := by
  have hstart : toInt (i : Int) = i := toInt_of_range (by omega) (by omega)
  have hlength : toInt ((j - i + 1 : Nat) : Int) = (j - i + 1 : Nat) :=
    toInt_of_range (by omega) (by omega)
  have hbuffer : (content.drop i).take (j - i + 1) = slice content i (j + 1) := by
    rw [slice, List.drop_take, Nat.sub_add_comm hij]
  have hlen := slice_length hij hj
  have hnonempty : slice content i (j + 1) ≠ [] := by
    intro hnil
    rw [hnil] at hlen
    exact absurd hlen (by simp)
  have hfull : ¬(slice content i (j + 1) = [] ∨
      ((slice content i (j + 1)).length : Int) ≠ (j - i + 1 : Nat)) := by
    rw [hlen]
    exact fun h => h.elim hnonempty (fun hne => hne rfl)
  rw [Context.handleRangeRequest, hread]
  dsimp only
  rw [hstart, hlength, if_neg (by omega), if_neg (by omega), Int.toNat_natCast, Int.toNat_natCast,
    hbuffer, if_neg hfull]
  refine ⟨_, _, rfl, rfl, rfl, ?_, ?_⟩
  · refine Header.mem_addAll contentRange_valid (List.mem_cons_of_mem _ ?_)
    refine InsertionMap.mem_entries_of_get? ?_
    rw [Context.setHeader, InsertionMap.get?_insert_ne _ _ (by decide)]
    exact InsertionMap.get?_insert_self _ _ _
  · refine Header.mem_addAll contentLength_valid (List.mem_cons_of_mem _ ?_)
    refine InsertionMap.mem_entries_of_get? ?_
    rw [Context.setHeader, InsertionMap.get?_insert_ne _ _ (by decide), Context.setHeader,
      InsertionMap.get?_insert_ne _ _ (by decide)]
    exact InsertionMap.get?_insert_self _ _ _

/-- What is selected lies in the file. -/
theorem selected_bounds {range : ByteRange} {size i j : Nat}
    (h : range.selected size = some (i, j)) : i ≤ j ∧ j < size := by
  cases range with
  | closed a b =>
      rw [ByteRange.selected] at h
      split at h
      · obtain ⟨rfl, rfl⟩ := Prod.mk.inj (Option.some.inj h)
        omega
      · cases h
  | onward a =>
      rw [ByteRange.selected] at h
      split at h
      · obtain ⟨rfl, rfl⟩ := Prod.mk.inj (Option.some.inj h)
        omega
      · cases h
  | suffix n =>
      rw [ByteRange.selected] at h
      split at h
      · obtain ⟨rfl, rfl⟩ := Prod.mk.inj (Option.some.inj h)
        omega
      · cases h

/-- What the condition says of a range that selects an interval. -/
theorem Suits.fits {range : ByteRange} {size i j : Nat} (hsuits : Suits range size)
    (h : range.selected size = some (i, j)) : j + 1 < 2 ^ 31 ∧
      ∀ a b, range = .closed a b → b.value < size := by
  cases range with
  | closed a b =>
      rw [ByteRange.selected] at h
      split at h
      · obtain ⟨rfl, rfl⟩ := Prod.mk.inj (Option.some.inj h)
        rcases hsuits with hout | hempty | ⟨hin, hfit⟩
        · omega
        · omega
        · refine ⟨by omega, ?_⟩
          rintro a' b' hsame
          obtain ⟨-, rfl⟩ := ByteRange.closed.inj hsame
          exact hin
      · cases h
  | onward a =>
      rw [ByteRange.selected] at h
      split at h
      · obtain ⟨rfl, rfl⟩ := Prod.mk.inj (Option.some.inj h)
        rcases hsuits with hout | hfit
        · omega
        · exact ⟨by omega, fun _ _ hsame => (by cases hsame)⟩
      · cases h
  | suffix n =>
      obtain rfl : size = 0 := hsuits
      rw [ByteRange.selected, Nat.min_zero, if_neg (Nat.lt_irrefl 0)] at h
      cases h

theorem context_follows {range : ByteRange} {content : ByteString} (hsize : content.length < 2 ^ 63)
    (hsuits : Suits range content.length) {fs : FileView} {c : Context} {filePath : ByteString}
    {options : FileOptions} (h : AsksFile fs c filePath options range content) :
    Follows content (range.selected content.length)
      (c.fileStreamWithOptions fs filePath options) := by
  obtain ⟨mtime, hstat⟩ := h.stat
  have hparse := parse_selected range hsize (fun n hn => by rw [hn] at hsuits; exact hsuits)
  have hsafe : ¬isSafeFilePath filePath = false := by rw [h.safe]; decide
  have hpresent : ¬fs.present filePath = false := by rw [h.present]; decide
  have hdir : ¬fs.isDir filePath = true := by rw [h.notDir]; decide
  rw [Context.fileStreamWithOptions, if_neg hsafe, if_neg hpresent, if_neg hdir, hstat]
  dsimp only
  rw [if_pos h.enabled, h.asked, Option.bind_some, hparse]
  cases hsel : range.selected content.length with
  | none => exact fun c' response hanswer => wholeFile_status hanswer
  | some ij =>
      obtain ⟨hij, hj⟩ := selected_bounds hsel
      exact handleRange_follows _ h.read hij hj (hsuits.fits hsel).1

/-! ## The file service -/

section
variable (encode : StorageErrorResponse → ByteString)
  {download : ByteString → Except ByteString ByteString} (ctx : Context) {fileInfo : FileInfo}

theorem answerRange_refused {start stop : Int} (h : start < 0 ∨ start ≥ fileInfo.fileSize ∨
    stop < start ∨ stop ≥ fileInfo.fileSize) :
    ∃ c response, answerRange encode download ctx fileInfo start stop = some (c, response) ∧
      response.statusCode = 416 := by
  rw [answerRange]
  dsimp only
  rw [if_pos h]
  exact ⟨_, _, rfl, rfl⟩

/-- The answer for numbers that lie in the file: the slice, if its bounds hold, with the headers
    that name it. -/
theorem answerRange_within {content : ByteString} {i j : Nat}
    (hdownload : download fileInfo.fileUuid = .ok content)
    (hinfo : fileInfo.fileSize = content.length) (hij : i ≤ j) (hj : j < content.length) :
    ∃ send : ByteString → Context × HttpResponse,
      answerRange encode download ctx fileInfo i j = (rangeData content i j).map send ∧
      ∀ range, (send range).2.statusCode = 206 ∧ (send range).2.body = range ∧
        (ascii "Content-Range",
          contentRange (decimal i) (decimal j) (decimal content.length)) ∈ (send range).2.header ∧
        (ascii "Content-Length", decimal (j - i + 1)) ∈ (send range).2.header := by
  have hwithin : ¬((i : Int) < 0 ∨ (i : Int) ≥ content.length ∨ (j : Int) < i ∨
      (j : Int) ≥ content.length) := by omega
  have hlength : ((j : Int) - i + 1) = (j - i + 1 : Nat) := by omega
  rw [answerRange]
  dsimp only
  rw [hinfo, if_neg hwithin, hdownload, hlength]
  dsimp only
  rw [intStr_ofNat, intStr_ofNat, intStr_ofNat, intStr_ofNat]
  refine ⟨_, rfl, fun range => ⟨rfl, rfl, ?_, ?_⟩⟩
  · refine Header.mem_addAll contentRange_valid (InsertionMap.mem_entries_of_get? ?_)
    rw [Context.status, Context.setHeader, InsertionMap.get?_insert_ne _ _ (by decide),
      Context.setHeader, InsertionMap.get?_insert_ne _ _ (by decide)]
    exact InsertionMap.get?_insert_self _ _ _
  · refine Header.mem_addAll contentLength_valid (InsertionMap.mem_entries_of_get? ?_)
    rw [Context.status, Context.setHeader, InsertionMap.get?_insert_ne _ _ (by decide),
      Context.setHeader, InsertionMap.get?_insert_ne _ _ (by decide),
      Context.setHeader, InsertionMap.get?_insert_ne _ _ (by decide)]
    exact InsertionMap.get?_insert_self _ _ _

theorem rangeData_fits {content : ByteString} {i j : Nat} (hij : i ≤ j) (hj : j < content.length)
    (hfit : j + 1 < 2 ^ 31) : rangeData content i j = some (slice content i (j + 1)) := by
  have hstart : toInt (i : Int) = i := toInt_of_range (by omega) (by omega)
  have hstop : toInt (j : Int) = j := toInt_of_range (by omega) (by omega)
  have hbehind : toInt ((j : Int) + 1) = (j + 1 : Nat) := by
    rw [toInt_of_range (by omega) (by omega)]
    rfl
  rw [rangeData, hstart, hstop, hbehind, if_pos (by omega), Int.toNat_natCast, Int.toNat_natCast]

/-- The numbers are those of the interval, if the last of them is in the file. -/
theorem numbers_selected {range : ByteRange} {size i j : Nat} (hsize : size < 2 ^ 63)
    (hin : ∀ a b, range = .closed a b → b.value < size) (hsuffix : ∀ n, range ≠ .suffix n)
    (h : range.selected size = some (i, j)) :
    range.startNumber = i ∧ range.stopNumber size = j := by
  cases range with
  | closed a b =>
      have hb := hin a b rfl
      rw [ByteRange.selected] at h
      split at h
      · obtain ⟨rfl, rfl⟩ := Prod.mk.inj (Option.some.inj h)
        have hstart : (ByteRange.closed a b).startNumber = _ := (if_pos a.nonempty).trans a.i64
        have hstop : (ByteRange.closed a b).stopNumber size = _ := (if_pos b.nonempty).trans b.i64
        omega
      · cases h
  | onward a =>
      rw [ByteRange.selected] at h
      split at h
      · obtain ⟨rfl, rfl⟩ := Prod.mk.inj (Option.some.inj h)
        have hstart : (ByteRange.onward a).startNumber = _ := (if_pos a.nonempty).trans a.i64
        have hstop : (ByteRange.onward a).stopNumber size = (size : Int) - 1 :=
          if_neg (fun hne => hne rfl)
        omega
      · cases h
  | suffix n => exact absurd rfl (hsuffix n)

/-- A range that selects nothing is refused, but for no bytes at all of a file that is not
    empty. -/
theorem numbers_none {range : ByteRange} {size : Nat} (hsize : size < 2 ^ 63)
    (hsuffix : ∀ n, range = .suffix n → size = 0) (h : range.selected size = none) :
    range.startNumber ≥ size ∨ range.stopNumber size < range.startNumber := by
  cases range with
  | closed a b =>
      have hstart : (ByteRange.closed a b).startNumber = _ := (if_pos a.nonempty).trans a.i64
      have hstop : (ByteRange.closed a b).stopNumber size = _ := (if_pos b.nonempty).trans b.i64
      rw [ByteRange.selected] at h
      split at h
      · cases h
      · omega
  | onward a =>
      have hstart : (ByteRange.onward a).startNumber = _ := (if_pos a.nonempty).trans a.i64
      rw [ByteRange.selected] at h
      split at h
      · cases h
      · omega
  | suffix n =>
      obtain rfl := hsuffix n rfl
      exact .inl (Int.le_refl 0)

theorem service_follows {range : ByteRange} {content : ByteString}
    (hsize : content.length < 2 ^ 63) (hsuits : Suits range content.length)
    (hdownload : download fileInfo.fileUuid = .ok content)
    (hinfo : fileInfo.fileSize = content.length) :
    Follows content (range.selected content.length)
      (handleRangeDownload encode download ctx fileInfo range.header) := by
  have hsuffix : ∀ n, range = .suffix n → content.length = 0 := by
    rintro n rfl
    exact hsuits
  rw [handleRangeDownload_header, hinfo]
  cases hsel : range.selected content.length with
  | some ij =>
      obtain ⟨i, j⟩ := ij
      obtain ⟨hij, hj⟩ := selected_bounds hsel
      obtain ⟨hfit, hin⟩ := hsuits.fits hsel
      have hno : ∀ n, range ≠ .suffix n := by
        intro n hn
        have hzero := hsuffix n hn
        omega
      obtain ⟨hstart, hstop⟩ := numbers_selected hsize hin hno hsel
      obtain ⟨send, hsend, hfields⟩ := answerRange_within encode ctx hdownload hinfo hij hj
      obtain ⟨hstatus, hbody, hrange, hlength⟩ := hfields (slice content i (j + 1))
      rw [hstart, hstop, hsend, rangeData_fits hij hj hfit]
      exact ⟨_, _, rfl, hstatus, hbody, hrange, hlength⟩
  | none =>
      have hrefused := numbers_none hsize hsuffix hsel
      have hanswer : ∃ c response, answerRange encode download ctx fileInfo range.startNumber
          (range.stopNumber content.length) = some (c, response) ∧ response.statusCode = 416 :=
        answerRange_refused encode ctx (by rw [hinfo]; omega)
      obtain ⟨c, response, hanswer, hstatus⟩ := hanswer
      intro c' response' hsame
      obtain ⟨-, rfl⟩ := Prod.mk.inj (Option.some.inj (hanswer.symm.trans hsame))
      rw [hstatus]
      decide

end

/-! ## Where the handlers fail -/

theorem toInt_lt (n : Int) : toInt n < 2 ^ 31 := by
  have hbound := @Int.bmod_lt n (2 ^ 32) (by decide)
  rw [toInt]
  omega

/-- Wherever the narrowed bounds are not those of the interval, some content shows it. -/
theorem rangeData_exact {size i j : Nat} (hij : i ≤ j) (hj : j < size)
    (h : ∀ content : ByteString, content.length = size →
      rangeData content i j = some (slice content i (j + 1))) : j + 1 < 2 ^ 31 := by
  -- one byte is told from all others
  have hlen : ((List.replicate size (0 : UInt8)).set i 1).length = size := by
    rw [List.length_set, List.length_replicate]
  have hcut := h _ hlen
  have hwide := slice_length hij (by rw [hlen]; exact hj :
    j < ((List.replicate size (0 : UInt8)).set i 1).length)
  have hmark : (slice ((List.replicate size (0 : UInt8)).set i 1) i (j + 1))[0]? = some 1 := by
    rw [slice, List.getElem?_drop, List.getElem?_take_of_lt (by omega), Nat.add_zero,
      List.getElem?_set_self (by rw [List.length_replicate]; omega)]
  have hsmall := toInt_lt (toInt (j : Int) + 1)
  rw [rangeData] at hcut
  generalize toInt (toInt (j : Int) + 1) = behind at hcut hsmall
  generalize toInt (i : Int) = first at hcut
  split at hcut
  · rename_i hbounds
    obtain ⟨hlow, hup, hbehind⟩ := hbounds
    rw [hlen] at hbehind
    have hsame := Option.some.inj hcut
    rw [← hsame, slice, List.length_drop, List.length_take, hlen] at hwide
    have hlt : first.toNat + 0 < behind.toNat := by omega
    have hfirst : first.toNat = i := by
      by_contra hne
      rw [← hsame, slice, List.getElem?_drop, List.getElem?_take_of_lt hlt, Nat.add_zero,
        List.getElem?_set_ne (fun heq => hne heq.symm), List.getElem?_replicate] at hmark
      split at hmark
      · exact absurd (Option.some.inj hmark) (by decide)
      · cases hmark
    omega
  · cases hcut

theorem toInt_congr (n : Int) : ∃ k : Int, toInt n = n + k * 2 ^ 32 := by
  rw [toInt, Int.bmod]
  split
  · exact ⟨-(n / 2 ^ 32), by omega⟩
  · exact ⟨-(n / 2 ^ 32) - 1, by omega⟩

/-- From the beginning on, no narrowed slice has as many bytes as its last position says. -/
theorem rangeData_length {content range : ByteString} {n : Nat}
    (h : rangeData content ((0 : Nat) : Int) n = some range) : range.length ≠ n := by
  obtain ⟨k, hk⟩ := toInt_congr (n : Int)
  obtain ⟨k', hk'⟩ := toInt_congr (toInt (n : Int) + 1)
  have hzero : toInt ((0 : Nat) : Int) = 0 := rfl
  rw [rangeData, hzero] at h
  generalize toInt (toInt (n : Int) + 1) = behind at h hk'
  generalize toInt (n : Int) = narrowed at hk hk'
  split at h
  · rw [← Option.some.inj h, slice, List.length_drop, List.length_take]
    omega
  · cases h

def sized (size : Int) : FileInfo where
  fileUuid := []
  fileHash := []
  fileName := []
  fileSize := size
  fileType := []
  storageType := []
  bucket := []
  objectKey := []
  metadata := []

/-- The answer of the service to a context with nothing but a path. -/
def served (range : ByteRange) (content : ByteString) : Option (Context × HttpResponse) :=
  answerRange (fun _ => []) (fun _ => .ok content) (StaticFiles.asking []) (sized content.length)
    range.startNumber (range.stopNumber content.length)

theorem served_follows {range : ByteRange} {content : ByteString} (h : BothFollow range content) :
    Follows content (range.selected content.length) (served range content) := by
  have hservice := h.service (fun _ => []) (fun _ => .ok content) (StaticFiles.asking [])
    (sized content.length) rfl rfl
  rwa [handleRangeDownload_header] at hservice

/-- A refused answer follows no range that selects something. -/
theorem not_follows_of_refused {range : ByteRange} {content : ByteString} {ij : Nat × Nat}
    (h : range.startNumber < 0 ∨ range.startNumber ≥ content.length ∨
      range.stopNumber content.length < range.startNumber ∨
      range.stopNumber content.length ≥ content.length) :
    ¬ Follows content (some ij) (served range content) := by
  rintro ⟨c, response, hanswer, hstatus, -⟩
  have hrefused : ∃ c response, served range content = some (c, response) ∧
      response.statusCode = 416 := answerRange_refused _ _ h
  obtain ⟨c', response', hsame, hcode⟩ := hrefused
  obtain ⟨-, rfl⟩ := Prod.mk.inj (Option.some.inj (hsame.symm.trans hanswer))
  rw [hcode] at hstatus
  exact absurd hstatus (by decide)

theorem served_within {range : ByteRange} {content : ByteString} {i j : Nat}
    (hstart : range.startNumber = i) (hstop : range.stopNumber content.length = j) (hij : i ≤ j)
    (hj : j < content.length) : ∃ send : ByteString → Context × HttpResponse,
      served range content = (rangeData content i j).map send ∧
      ∀ data, (send data).2.statusCode = 206 ∧ (send data).2.body = data := by
  let download : ByteString → Except ByteString ByteString := fun _ => .ok content
  have hdownload : download (sized content.length).fileUuid = .ok content := rfl
  have hinfo : (sized content.length).fileSize = content.length := rfl
  obtain ⟨send, hsend, hfields⟩ := answerRange_within (fun _ => []) (StaticFiles.asking [])
    hdownload hinfo hij hj
  refine ⟨send, ?_, fun data => ⟨(hfields data).1, (hfields data).2.1⟩⟩
  rw [served, hstart, hstop]
  exact hsend

/-- The bytes that are sent are those cut out. -/
theorem rangeData_of_follows {range : ByteRange} {content : ByteString} {i j i' j' : Nat}
    (hstart : range.startNumber = i) (hstop : range.stopNumber content.length = j) (hij : i ≤ j)
    (hj : j < content.length) (h : Follows content (some (i', j')) (served range content)) :
    rangeData content i j = some (slice content i' (j' + 1)) := by
  obtain ⟨send, hsend, hfields⟩ := served_within hstart hstop hij hj
  obtain ⟨c, response, hanswer, -, hbody, -⟩ := h
  rw [hsend] at hanswer
  obtain ⟨data, hdata, hpair⟩ := Option.map_eq_some_iff.mp hanswer
  have hsent := (hfields data).2
  rw [hpair] at hsent
  rw [hdata, ← hbody, hsent]

/-- The service follows the range for every content of a size. -/
def FollowsAll (range : ByteRange) (size : Nat) : Prop :=
  ∀ content : ByteString, content.length = size →
    Follows content (range.selected size) (served range content)

/-- A size at which the service refuses a range that selects something. -/
theorem not_followsAll_of_refused {range : ByteRange} {size : Nat} {ij : Nat × Nat}
    (hselected : range.selected size = some ij)
    (h : range.startNumber < 0 ∨ range.startNumber ≥ size ∨
      range.stopNumber size < range.startNumber ∨ range.stopNumber size ≥ size) :
    ¬ FollowsAll range size := by
  intro hserved
  have hzeros : (List.replicate size (0 : UInt8)).length = size := List.length_replicate
  have hfollows := hserved _ hzeros
  rw [hselected] at hfollows
  exact not_follows_of_refused (by rw [hzeros]; exact h) hfollows

/-- A selected interval between the numbers of the service fits, where it is followed. -/
theorem fits_of_followsAll {range : ByteRange} {size i j : Nat} (h : FollowsAll range size)
    (hselected : range.selected size = some (i, j)) (hstart : range.startNumber = i)
    (hstop : range.stopNumber size = j) (hij : i ≤ j) (hj : j < size) : j + 1 < 2 ^ 31 := by
  refine rangeData_exact hij hj (fun content hcontent => ?_)
  have hfollows := h content hcontent
  rw [hselected] at hfollows
  subst hcontent
  exact rangeData_of_follows hstart hstop hij hj hfollows

theorem suits_closed {a b : Number} {size : Nat} (hsize : size < 2 ^ 63)
    (h : FollowsAll (.closed a b) size) : Suits (.closed a b) size := by
  have hstart : (ByteRange.closed a b).startNumber = _ := (if_pos a.nonempty).trans a.i64
  have hstop : (ByteRange.closed a b).stopNumber size = _ := (if_pos b.nonempty).trans b.i64
  by_cases hsel : a.value < size ∧ a.value ≤ b.value
  · have hselected : (ByteRange.closed a b).selected size
        = some (a.value, min b.value (size - 1)) := if_pos hsel
    by_cases hin : b.value < size
    · rw [Nat.min_eq_left (by omega)] at hselected
      exact .inr (.inr ⟨hin, fits_of_followsAll h hselected (by omega) (by omega) hsel.2 hin⟩)
    · -- the last byte named is behind the file: the service refuses, though some are selected
      exact absurd h (not_followsAll_of_refused hselected (by omega))
  · show size ≤ a.value ∨ b.value < a.value ∨ _
    omega

theorem suits_onward {a : Number} {size : Nat} (hsize : size < 2 ^ 63)
    (h : FollowsAll (.onward a) size) : Suits (.onward a) size := by
  have hstart : (ByteRange.onward a).startNumber = _ := (if_pos a.nonempty).trans a.i64
  have hstop : (ByteRange.onward a).stopNumber size = (size : Int) - 1 :=
    if_neg (fun hne => hne rfl)
  by_cases hsel : a.value < size
  · have hselected : (ByteRange.onward a).selected size = some (a.value, size - 1) := if_pos hsel
    have hfit := fits_of_followsAll h hselected (by omega) (by omega) (by omega) (by omega)
    exact .inr (by omega)
  · exact .inl (by omega)

/-- The service takes the number of last bytes for the position of the last one. -/
theorem suits_suffix {n : Number} {size : Nat} (hsize : size < 2 ^ 63)
    (h : FollowsAll (.suffix n) size) : Suits (.suffix n) size := by
  have hstart : (ByteRange.suffix n).startNumber = 0 := if_neg (fun hne => hne rfl)
  have hstop : (ByteRange.suffix n).stopNumber size = _ := (if_pos n.nonempty).trans n.i64
  have hzeros : (List.replicate size (0 : UInt8)).length = size := List.length_replicate
  by_contra hsome
  have hpos : 0 < size := Nat.pos_of_ne_zero hsome
  have hfollows := h _ hzeros
  by_cases hnone : n.value = 0
  · -- no bytes at all: the first one is sent
    have hselected : (ByteRange.suffix n).selected size = none := if_neg (by omega)
    rw [hselected] at hfollows
    have hstop' : (ByteRange.suffix n).stopNumber (List.replicate size (0 : UInt8)).length
        = (0 : Nat) := by
      rw [hzeros]
      omega
    obtain ⟨send, hsend, hfields⟩ := served_within (i := 0) hstart hstop' (Nat.le_refl 0)
      (by rw [hzeros]; exact hpos)
    rw [rangeData_fits (Nat.le_refl 0) (by rw [hzeros]; exact hpos) (by decide)] at hsend
    exact hfollows _ _ hsend (hfields _).1
  · have hselected : (ByteRange.suffix n).selected size
        = some (size - min n.value size, size - 1) := if_pos (by omega)
    by_cases hin : n.value < size
    · -- fewer than all: one byte more is cut out than selected, or none
      rw [hselected] at hfollows
      have hdata := rangeData_of_follows (i := 0) hstart (j := n.value)
        (by rw [hzeros]; omega) (Nat.zero_le _) (by rw [hzeros]; exact hin) hfollows
      refine rangeData_length hdata ?_
      rw [slice_length (by omega) (by rw [hzeros]; omega)]
      omega
    · exact not_followsAll_of_refused hselected (by omega) h

theorem suits_of_follows {range : ByteRange} {size : Nat} (hsize : size < 2 ^ 63)
    (h : ∀ content : ByteString, content.length = size → BothFollow range content) :
    Suits range size := by
  have hserved : FollowsAll range size := by
    rintro content rfl
    exact served_follows (h content rfl)
  cases range with
  | closed a b => exact suits_closed hsize hserved
  | onward a => exact suits_onward hsize hserved
  | suffix n => exact suits_suffix hsize hserved

/-- **RANGES ARE FOLLOWED** by both handlers, for every content of a size, exactly if the range
    selects nothing by its numbers, or its last byte is named in the file and within 31 bits. -/
theorem ranges_followed_iff (range : ByteRange) (size : Fin (2 ^ 63)) :
    (∀ content : ByteString, content.length = size → BothFollow range content) ↔
      Suits range size := by
  constructor
  · exact suits_of_follows size.isLt
  · intro hsuits content hcontent
    have hsize : content.length < 2 ^ 63 := by
      rw [hcontent]
      exact size.isLt
    rw [← hcontent] at hsuits
    exact ⟨fun _ _ _ _ h => context_follows hsize hsuits h,
      fun encode _ ctx _ hdownload hinfo => service_follows encode ctx hsize hsuits hdownload hinfo⟩

/-- The number one. -/
def one : Number where
  text := ascii "1"
  digits := by decide
  nonempty := by decide

/-- Asked for the last byte of two, the service sends both. -/
theorem last_byte_not_selected :
    ¬ ∀ (range : ByteRange) (content : ByteString), BothFollow range content := by
  intro hall
  have hfollows : Follows (ascii "ab") (some (1, 1)) (served (.suffix one) (ascii "ab")) :=
    served_follows (hall (.suffix one) (ascii "ab"))
  have hdata : rangeData (ascii "ab") ((0 : Nat) : Int) ((1 : Nat) : Int)
      = some (slice (ascii "ab") 1 (1 + 1)) :=
    rangeData_of_follows (by decide) (by decide) (by decide) (by decide) hfollows
  exact absurd hdata (by decide)

end RangeAnswers

end VHono
