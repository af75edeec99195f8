import VHono.ChunkManager
import VHono.IntervalTiling

/-! # The ranges of the parts

    The number of parts of a file is computed in 64 bits and kept in 32.  Where
    it is the number that the sizes ask for, the ranges of the parts tile the
    file. -/

namespace VHono

open ByteString PieceAssembly IntervalTiling

namespace ChunkManager

/-- A 64-bit result. -/
def toI64 (n : Int) : Int := n.bmod (2 ^ 64)

def getPartRange (cm : ChunkManager) (find : Option ByteString) (uploadId : ByteString)
    (partNumber : Int) : Except ByteString (Int × Int) :=
  match cm.db.getMultipartUpload find uploadId with
  | .error err => .error err
  | .ok upload =>
    if partNumber < 1 ∨ partNumber > upload.totalChunks then
      .error (ascii "Invalid part number: " ++ intStr partNumber)
    else
      let start := toI64 (toInt (partNumber - 1) * upload.chunkSize)
      let stop := toI64 (toI64 (start + upload.chunkSize) - 1)
      .ok (start, if stop ≥ upload.fileSize then toI64 (upload.fileSize - 1) else stop)

def getExpectedPartSize (cm : ChunkManager) (find : Option ByteString) (uploadId : ByteString)
    (partNumber : Int) : Except ByteString Int :=
  (cm.getPartRange find uploadId partNumber).map (fun range => toI64 (toI64 (range.2 - range.1) + 1))

end ChunkManager

/-- The numbers of a row are of the types of their columns. -/
structure MultipartUpload.FitsColumns (upload : MultipartUpload) : Prop where
  fileSize    : upload.fileSize < 2 ^ 63
  chunkSize   : upload.chunkSize < 2 ^ 31
  totalChunks : upload.totalChunks < 2 ^ 31

/-- The range of a part. -/
def partRange (fileSize chunkSize n : Int) : Int × Int :=
  ((n - 1) * chunkSize, min (n * chunkSize) fileSize - 1)

section Parts

variable {fileSize chunkSize total : Int}

/-- Rounding up, in integers. -/
theorem eq_ceil_iff (hchunk : 1 ≤ chunkSize) :
    total = ⌈(fileSize : ℚ) / chunkSize⌉ ↔
      (total - 1) * chunkSize < fileSize ∧ fileSize ≤ total * chunkSize := by
  have hpos : (0 : ℚ) < chunkSize := by exact_mod_cast hchunk
  rw [eq_comm, Int.ceil_eq_iff, lt_div_iff₀ hpos, div_le_iff₀ hpos]
  norm_cast

theorem numbers_succ (k : Nat) : numbers (k + 1) = numbers k ++ [(k : Int) + 1] := by
  rw [numbers, List.range_succ, List.map_append]
  rfl

/-- The first parts tile what they reach of the file. -/
theorem tiles_partRanges (hfile : 1 ≤ fileSize) (hchunk : 1 ≤ chunkSize) :
    ∀ k : Nat, ((k : Int) - 1) * chunkSize < fileSize →
      Tiles 0 ((numbers k).map (partRange fileSize chunkSize)) (min (k * chunkSize) fileSize) := by
  intro k
  induction k with
  | zero =>
      intro _
      have hzero : min (((0 : Nat) : Int) * chunkSize) fileSize = 0 := by simp; omega
      rw [hzero]
      exact .nil 0
  | succ k ih =>
      intro hk
      -- the last of the parts before this one is full, since this one starts within the file
      have hbefore : (k : Int) * chunkSize < fileSize := by
        have hsucc : ((k + 1 : Nat) : Int) - 1 = k := by omega
        rwa [hsucc] at hk
      have hprev := ih (by nlinarith)
      rw [min_eq_left (Int.le_of_lt hbefore)] at hprev
      have hlast : partRange fileSize chunkSize (k + 1)
          = (k * chunkSize, min ((k + 1) * chunkSize) fileSize - 1) := by
        rw [partRange, Int.add_sub_cancel]
      have hne : (k : Int) * chunkSize ≤ min ((k + 1) * chunkSize) fileSize - 1 := by
        have hgrow : (k : Int) * chunkSize < (k + 1) * chunkSize := by nlinarith
        have hmin := lt_min hgrow hbefore
        omega
      have htiles := hprev.concat hne
      rw [Int.sub_add_cancel] at htiles
      rw [numbers_succ, List.map_append, List.map_singleton, hlast]
      exact_mod_cast htiles

theorem toI64_of_range {n : Int} (hlow : -2 ^ 63 ≤ n) (hhigh : n < 2 ^ 63) :
    ChunkManager.toI64 n = n := by
  rw [ChunkManager.toI64]
  exact Int.bmod_eq_of_le (by omega) (by omega)

theorem toInt_of_range {n : Int} (hlow : -2 ^ 31 ≤ n) (hhigh : n < 2 ^ 31) :
    ChunkManager.toInt n = n := by
  rw [ChunkManager.toInt]
  exact Int.bmod_eq_of_le (by omega) (by omega)

end Parts

/-! ## Ranges of an upload -/

namespace ChunkManager

section Ranges

variable {cm : ChunkManager} {find : Option ByteString} {uploadId : ByteString}
  {upload : MultipartUpload}

/-- A range in 64 bits is the range of the part. -/
theorem getPartRange_eq (hfound : cm.db.getMultipartUpload find uploadId = .ok upload)
    (hfits : upload.FitsColumns) (hfile : 1 ≤ upload.fileSize) (hchunk : 1 ≤ upload.chunkSize)
    (hcount : (upload.totalChunks - 1) * upload.chunkSize < upload.fileSize) {n : Int}
    (hlow : 1 ≤ n) (hhigh : n ≤ upload.totalChunks) :
    cm.getPartRange find uploadId n = .ok (partRange upload.fileSize upload.chunkSize n) := by
  have hstart : (n - 1) * upload.chunkSize < upload.fileSize := by
    have hle : (n - 1) * upload.chunkSize ≤ (upload.totalChunks - 1) * upload.chunkSize :=
      Int.mul_le_mul_of_nonneg_right (by omega) (by omega)
    omega
  have hnonneg : 0 ≤ (n - 1) * upload.chunkSize := Int.mul_nonneg (by omega) (by omega)
  have hstop : (n - 1) * upload.chunkSize + upload.chunkSize = n * upload.chunkSize := by ring
  have hfile63 := hfits.fileSize
  -- two columns of 32 bits multiply without a carry out of 64
  have hbound : n * upload.chunkSize < 2 ^ 62 := by
    have hn : n ≤ 2 ^ 31 - 1 := by
      have htotal := hfits.totalChunks
      omega
    have hc : upload.chunkSize ≤ 2 ^ 31 - 1 := by
      have hsize := hfits.chunkSize
      omega
    calc n * upload.chunkSize ≤ (2 ^ 31 - 1) * (2 ^ 31 - 1) :=
          Int.mul_le_mul hn hc (by omega) (by norm_num)
      _ < 2 ^ 62 := by norm_num
  have hinvalid : ¬(n < 1 ∨ n > upload.totalChunks) := by omega
  have htotal := hfits.totalChunks
  have hnumber : toInt (n - 1) = n - 1 := toInt_of_range (by omega) (by omega)
  have hfirst : toI64 ((n - 1) * upload.chunkSize) = (n - 1) * upload.chunkSize :=
    toI64_of_range (by omega) (by omega)
  have hnext : toI64 (n * upload.chunkSize) = n * upload.chunkSize :=
    toI64_of_range (by omega) (by omega)
  have hlast : toI64 (n * upload.chunkSize - 1) = n * upload.chunkSize - 1 :=
    toI64_of_range (by omega) (by omega)
  have hend : toI64 (upload.fileSize - 1) = upload.fileSize - 1 :=
    toI64_of_range (by omega) (by omega)
  rw [getPartRange, hfound]
  dsimp only
  rw [if_neg hinvalid, hnumber, hfirst, hstop, hnext, hlast, hend, partRange]
  congr 2
  split <;> omega

/-- The size that is expected of a part is that of its range. -/
theorem getExpectedPartSize_eq (hfound : cm.db.getMultipartUpload find uploadId = .ok upload)
    (hfits : upload.FitsColumns) (hfile : 1 ≤ upload.fileSize) (hchunk : 1 ≤ upload.chunkSize)
    (hcount : (upload.totalChunks - 1) * upload.chunkSize < upload.fileSize) {n : Int}
    (hlow : 1 ≤ n) (hhigh : n ≤ upload.totalChunks)
    (hnonempty : (partRange upload.fileSize upload.chunkSize n).1
      ≤ (partRange upload.fileSize upload.chunkSize n).2) :
    cm.getExpectedPartSize find uploadId n
      = .ok (size (partRange upload.fileSize upload.chunkSize n)) := by
  have hfile63 := hfits.fileSize
  have hstop : (partRange upload.fileSize upload.chunkSize n).2 < upload.fileSize := by
    show min _ _ - 1 < _
    omega
  have hstart : 0 ≤ (partRange upload.fileSize upload.chunkSize n).1 :=
    Int.mul_nonneg (by omega) (by omega)
  rw [getExpectedPartSize, getPartRange_eq hfound hfits hfile hchunk hcount hlow hhigh]
  refine congrArg Except.ok ?_
  show toI64 (toI64 ((partRange upload.fileSize upload.chunkSize n).2
    - (partRange upload.fileSize upload.chunkSize n).1) + 1) = _
  have hlength : toI64 ((partRange upload.fileSize upload.chunkSize n).2
      - (partRange upload.fileSize upload.chunkSize n).1)
      = (partRange upload.fileSize upload.chunkSize n).2
        - (partRange upload.fileSize upload.chunkSize n).1 :=
    toI64_of_range (by omega) (by omega)
  rw [hlength, toI64_of_range (by omega) (by omega), size]

theorem mapM_ok {α β ε : Type} {f : α → Except ε β} {g : α → β} :
    ∀ {xs : List α}, (∀ x ∈ xs, f x = .ok (g x)) → xs.mapM f = .ok (xs.map g) := by
  intro xs
  induction xs with
  | nil => intro _; rfl
  | cons x xs ih =>
      intro h
      rw [List.mapM_cons, h x (List.mem_cons_self ..),
        ih (fun y hy => h y (List.mem_cons_of_mem _ hy))]
      rfl

/-- **THE RANGES** of the parts tile the file. -/
theorem partRanges_tile (cm : ChunkManager) (find : Option ByteString) (uploadId : ByteString)
    (upload : MultipartUpload) (hfound : cm.db.getMultipartUpload find uploadId = .ok upload)
    (hfits : upload.FitsColumns) (hfile : 1 ≤ upload.fileSize) (hchunk : 1 ≤ upload.chunkSize)
    (htotal : upload.totalChunks = ⌈(upload.fileSize : ℚ) / upload.chunkSize⌉) :
    ∃ ranges : List (Int × Int),
      (numbers upload.totalChunks.toNat).mapM (cm.getPartRange find uploadId) = .ok ranges ∧
      (∀ r ∈ ranges, r.1 ≤ r.2) ∧
      ranges.IsChain (fun r r' => r'.1 = r.2 + 1) ∧
      ranges.Pairwise (fun r r' => r.2 < r'.1) ∧
      (∀ p, (∃ r ∈ ranges, r.1 ≤ p ∧ p ≤ r.2) ↔ 0 ≤ p ∧ p < upload.fileSize) ∧
      (∀ r ∈ ranges.dropLast, r.2 - r.1 + 1 = upload.chunkSize) ∧
      ∃ sizes : List Int,
        (numbers upload.totalChunks.toNat).mapM (cm.getExpectedPartSize find uploadId) = .ok sizes ∧
        sizes.sum = upload.fileSize := by
  obtain ⟨hcount, henough⟩ := (eq_ceil_iff hchunk).mp htotal
  have hpositive : 1 ≤ upload.totalChunks := by
    by_contra hnone
    have hle : upload.totalChunks * upload.chunkSize ≤ 0 :=
      Int.mul_nonpos_of_nonpos_of_nonneg (by omega) (by omega)
    omega
  have htoNat : ((upload.totalChunks.toNat : Nat) : Int) = upload.totalChunks :=
    Int.toNat_of_nonneg (by omega)
  have hmem : ∀ n ∈ numbers upload.totalChunks.toNat, 1 ≤ n ∧ n ≤ upload.totalChunks := by
    intro n hn
    have hrange := mem_numbers.mp hn
    rwa [htoNat] at hrange
  have htiles := tiles_partRanges hfile hchunk upload.totalChunks.toNat (by rwa [htoNat])
  rw [htoNat, min_eq_right henough] at htiles
  have hnonempty := htiles.nonempty
  refine ⟨_, mapM_ok (fun n hn => getPartRange_eq hfound hfits hfile hchunk hcount (hmem n hn).1
      (hmem n hn).2), hnonempty, htiles.consecutive, htiles.disjoint, fun p => htiles.covers, ?_,
    _, mapM_ok (fun n hn => getExpectedPartSize_eq hfound hfits hfile hchunk hcount (hmem n hn).1
      (hmem n hn).2 (hnonempty _ (List.mem_map_of_mem hn))), ?_⟩
  · -- a part before the last ends within the file, so nothing of it is cut off
    intro r hr
    obtain ⟨k, hk⟩ : ∃ k, upload.totalChunks.toNat = k + 1 :=
      ⟨upload.totalChunks.toNat - 1, by omega⟩
    rw [hk, numbers_succ, List.map_append, List.map_singleton, List.dropLast_concat] at hr
    obtain ⟨n, hn, rfl⟩ := List.mem_map.mp hr
    have hrange := mem_numbers.mp hn
    have hfull : n * upload.chunkSize < upload.fileSize := by
      have hle : n * upload.chunkSize ≤ (upload.totalChunks - 1) * upload.chunkSize :=
        Int.mul_le_mul_of_nonneg_right (by omega) (by omega)
      omega
    rw [partRange, min_eq_left (Int.le_of_lt hfull)]
    ring
  · have hsum := htiles.sum_sizes
    rwa [List.map_map, Int.sub_zero] at hsum

end Ranges

/-- A manager that holds one upload of seven bytes in parts of five. -/
def sampleManager : ChunkManager where
  config := {}
  db := { UploadTables.empty with
    uploads := InsertionMap.empty.insert (ascii "u")
      ⟨ascii "u", ascii "f", ascii "a.bin", 7, 5, 2, ascii "b", ascii "k", [], .uploading⟩ }
  provider := .new { basePath := [ascii "storage"] } (fun _ => []) (fun _ => none)

theorem partRanges_tile_seven :
    ∃ ranges : List (Int × Int),
      (numbers 2).mapM (sampleManager.getPartRange none (ascii "u")) = .ok ranges ∧
      (∀ r ∈ ranges, r.1 ≤ r.2) ∧
      ranges.IsChain (fun r r' => r'.1 = r.2 + 1) ∧
      ranges.Pairwise (fun r r' => r.2 < r'.1) ∧
      (∀ p, (∃ r ∈ ranges, r.1 ≤ p ∧ p ≤ r.2) ↔ 0 ≤ p ∧ p < 7) ∧
      (∀ r ∈ ranges.dropLast, r.2 - r.1 + 1 = 5) ∧
      ∃ sizes : List Int,
        (numbers 2).mapM (sampleManager.getExpectedPartSize none (ascii "u")) = .ok sizes ∧
        sizes.sum = 7 :=
  partRanges_tile sampleManager none (ascii "u")
    ⟨ascii "u", ascii "f", ascii "a.bin", 7, 5, 2, ascii "b", ascii "k", [], .uploading⟩ rfl
    ⟨by decide, by decide, by decide⟩ (by decide) (by decide)
    ((eq_ceil_iff (by decide)).mpr (by decide))

/-! ## The number of parts -/

theorem calculateTotalChunks_eq {fileSize chunkSize : Int} (hfile : 0 < fileSize)
    (hchunk : 1 ≤ chunkSize) :
    calculateTotalChunks fileSize chunkSize = some (toInt ⌈(fileSize : ℚ) / chunkSize⌉) := by
  have hdiv := Int.mul_ediv_add_emod fileSize chunkSize
  have hmod := Int.emod_nonneg fileSize (by omega : chunkSize ≠ 0)
  have hlt := Int.emod_lt_of_pos fileSize (by omega : 0 < chunkSize)
  have hcomm : chunkSize * (fileSize / chunkSize) = fileSize / chunkSize * chunkSize :=
    Int.mul_comm ..
  rw [calculateTotalChunks, if_neg (by omega), Int.tdiv_eq_ediv_of_nonneg (Int.le_of_lt hfile),
    Int.tmod_eq_emod_of_nonneg (Int.le_of_lt hfile)]
  split
  · -- a rest is left, which is a part of its own
    rename_i hrest
    have hceil : fileSize / chunkSize + 1 = ⌈(fileSize : ℚ) / chunkSize⌉ := by
      refine (eq_ceil_iff hchunk).mpr ⟨?_, ?_⟩
      · rw [Int.add_sub_cancel]
        omega
      · rw [Int.add_mul, Int.one_mul]
        omega
    rw [← hceil]
    exact congrArg some Int.bmod_add_bmod
  · rename_i hrest
    have hceil : fileSize / chunkSize = ⌈(fileSize : ℚ) / chunkSize⌉ := by
      refine (eq_ceil_iff hchunk).mpr ⟨?_, ?_⟩
      · rw [Int.sub_mul, Int.one_mul]
        omega
      · omega
    rw [← hceil]

end ChunkManager

/-- The bounds of a configuration are in order. -/
structure ChunkManagerConfig.Ordered (config : ChunkManagerConfig) : Prop where
  positive : 1 ≤ config.minChunkSize
  low      : config.minChunkSize ≤ config.defaultChunkSize
  high     : config.defaultChunkSize ≤ config.maxChunkSize
  parts    : 1 ≤ config.maxParts

/-- The size of the parts that a request is given. -/
def ChunkManagerConfig.effectiveChunkSize (config : ChunkManagerConfig) (chunkSize : Int) : Int :=
  if chunkSize > 0 then
    if chunkSize < config.minChunkSize then config.minChunkSize
    else if chunkSize > config.maxChunkSize then config.maxChunkSize
    else chunkSize
  else config.defaultChunkSize

/-- The number of parts that the sizes ask for. -/
def ChunkManagerConfig.partCount (config : ChunkManagerConfig) (fileSize chunkSize : Int) : Int :=
  ⌈(fileSize : ℚ) / config.effectiveChunkSize chunkSize⌉

/-- Whatever the storage and the tables do, an upload of that size that is accepted has the number
    of parts that its sizes ask for. -/
def CountsParts (config : ChunkManagerConfig) (fileSize chunkSize : Int) : Prop :=
  ∀ (cm : ChunkManager) (io : ChunkManager.InitIo) (params : InitMultipartParams)
    (upload : MultipartUpload), cm.config = config → params.fileSize = fileSize →
    params.chunkSize = chunkSize → (cm.initMultipart io params).2 = .ok upload →
      upload.totalChunks = config.partCount fileSize chunkSize ∧ 1 ≤ upload.totalChunks ∧
        upload.totalChunks ≤ config.maxParts

namespace ChunkManager

section Counts

variable {config : ChunkManagerConfig} {fileSize chunkSize : Int}

theorem effectiveChunkSize_pos (h : config.Ordered) :
    1 ≤ config.effectiveChunkSize chunkSize := by
  obtain ⟨hpositive, hlow, hhigh, -⟩ := h
  rw [ChunkManagerConfig.effectiveChunkSize]
  split
  · split
    · exact hpositive
    · split <;> omega
  · omega

/-- What an accepted request stores. -/
theorem initMultipart_totalChunks {cm : ChunkManager} {io : InitIo} {params : InitMultipartParams}
    {upload : MultipartUpload} (hconfig : cm.config.Ordered)
    (hok : (cm.initMultipart io params).2 = .ok upload) :
    upload.totalChunks = toInt (cm.config.partCount params.fileSize params.chunkSize) ∧
      upload.totalChunks ≤ cm.config.maxParts := by
  revert hok
  fun_cases initMultipart cm io params with
  | case1 hbucket => rintro ⟨⟩
  | case2 hbucket hkey => rintro ⟨⟩
  | case3 hbucket hkey hsize => rintro ⟨⟩
  | case4 hbucket hkey hsize chunkSize htotal => rintro ⟨⟩
  | case5 hbucket hkey hsize chunkSize total htotal hmax => rintro ⟨⟩
  | case6 hbucket hkey hsize chunkSize total htotal hmax started err hstarted =>
      rintro ⟨⟩
  | case7 hbucket hkey hsize chunkSize total htotal hmax started id hstarted created =>
      intro hok
      have hcount : total = toInt (cm.config.partCount params.fileSize params.chunkSize) :=
        Option.some.inj (htotal.symm.trans
          (calculateTotalChunks_eq (by omega) (effectiveChunkSize_pos hconfig)))
      have hrow : upload.totalChunks = total := by
        obtain ⟨-, ⟨-, herror⟩ | ⟨hcreated, -⟩⟩ := UploadTables.createMultipartUpload_spec cm.db
          io.insert ⟨id, [], params.fileName, params.fileSize, chunkSize, total, params.bucket,
            params.objectKey, params.contentType, .uploading⟩
        · cases hresult : created.2 with
          | error err =>
              rw [hresult] at hok
              cases hok
          | ok row => exact absurd hresult (herror row)
        · rw [show created.2 = _ from hcreated] at hok
          rw [← Except.ok.inj hok]
          rfl
      rw [hrow]
      exact ⟨hcount, Int.not_lt.mp hmax⟩

/-- A fresh manager accepts what its count lets pass. -/
theorem initMultipart_fresh (hconfig : config.Ordered) (hfile : 0 < fileSize)
    (hfew : toInt (config.partCount fileSize chunkSize) ≤ config.maxParts) :
    ∃ (cm : ChunkManager) (params : InitMultipartParams) (upload : MultipartUpload),
      cm.config = config ∧ params.fileSize = fileSize ∧ params.chunkSize = chunkSize ∧
        (cm.initMultipart {} params).2 = .ok upload := by
  let cm : ChunkManager := .new config (.new { basePath := [] } (fun _ => []) (fun _ => none))
  let params : InitMultipartParams := ⟨ascii "b", ascii "k", [], fileSize, [], chunkSize⟩
  have hcount : calculateTotalChunks params.fileSize
      (if params.chunkSize > 0 then cm.validateChunkSize params.chunkSize
        else cm.config.defaultChunkSize)
      = some (toInt (config.partCount fileSize chunkSize)) :=
    calculateTotalChunks_eq hfile (effectiveChunkSize_pos hconfig)
  have hstarted : (cm.provider.initMultipart {} params.bucket params.objectKey
      params.contentType).2 = .ok (LocalStorage.generateUploadId 0 none) := rfl
  have hout : ∃ upload, (cm.initMultipart {} params).2 = .ok upload := by
    rw [initMultipart, if_neg (by decide : ¬ascii "b" = []), if_neg (by decide : ¬ascii "k" = []),
      if_neg (Int.not_le.mpr hfile)]
    dsimp only
    rw [hcount]
    dsimp only
    rw [if_neg (Int.not_lt.mpr hfew : ¬ _ > cm.config.maxParts), hstarted]
    exact ⟨_, rfl⟩
  obtain ⟨upload, hok⟩ := hout
  exact ⟨cm, params, upload, rfl, rfl, rfl, hok⟩

/-- **THE COUNT** is the one that the sizes ask for, unless it is cut to 32 bits unnoticed. -/
theorem countsParts_iff (config : ChunkManagerConfig) (hconfig : config.Ordered)
    (fileSize chunkSize : Int) (hfile : 0 < fileSize) :
    CountsParts config fileSize chunkSize ↔
      config.partCount fileSize chunkSize < 2 ^ 31 ∨
        toInt (config.partCount fileSize chunkSize) > config.maxParts := by
  have hpositive : 1 ≤ config.partCount fileSize chunkSize := by
    have hsize : (0 : ℚ) < config.effectiveChunkSize chunkSize := by
      exact_mod_cast effectiveChunkSize_pos hconfig
    have hquotient : (0 : ℚ) < fileSize / config.effectiveChunkSize chunkSize :=
      div_pos (by exact_mod_cast hfile) hsize
    exact Int.ceil_pos.mpr hquotient
  constructor
  · intro h
    by_contra hcut
    -- then a fresh manager accepts the file, and stores a count of less than 32 bits
    obtain ⟨hlarge, hfew⟩ := not_or.mp hcut
    obtain ⟨cm, params, upload, hcm, hsize, hchunk, hok⟩ :=
      initMultipart_fresh hconfig hfile (Int.not_lt.mp hfew)
    subst hcm hsize hchunk
    obtain ⟨hstored, -⟩ := initMultipart_totalChunks hconfig hok
    obtain ⟨hcount, -, -⟩ := h cm {} params upload rfl rfl rfl hok
    have hbound : toInt (cm.config.partCount params.fileSize params.chunkSize) < 2 ^ 31 :=
      Int.bmod_lt (by decide)
    omega
  · rintro hcondition cm io params upload rfl rfl rfl hok
    obtain ⟨hstored, hmax⟩ := initMultipart_totalChunks hconfig hok
    have hsmall : cm.config.partCount params.fileSize params.chunkSize < 2 ^ 31 :=
      hcondition.resolve_right (by omega)
    rw [toInt_of_range (by omega) hsmall] at hstored
    exact ⟨hstored, by omega, hmax⟩

end Counts

/-- A file of more than twenty petabytes in parts of five megabytes. -/
theorem count_cut_to_one : ¬ CountsParts {} (2 ^ 32 * 5242880 + 1) 0 := by
  have hordered : ChunkManagerConfig.Ordered {} := ⟨by decide, by decide, by decide, by decide⟩
  have hcount : ChunkManagerConfig.partCount {} (2 ^ 32 * 5242880 + 1) 0 = 2 ^ 32 + 1 :=
    ((eq_ceil_iff (by decide)).mpr (by decide)).symm
  intro h
  obtain ⟨cm, params, upload, hcm, hsize, hchunk, hok⟩ :=
    initMultipart_fresh hordered (by decide : (0 : Int) < 2 ^ 32 * 5242880 + 1)
      (by rw [hcount]; decide)
  obtain ⟨hstored, -, -⟩ := h cm {} params upload hcm hsize hchunk hok
  have hone := (initMultipart_totalChunks (hcm ▸ hordered) hok).1
  rw [hcm, hsize, hchunk, hcount] at hone
  rw [hcount, hone] at hstored
  exact absurd hstored (by decide)

theorem countsParts_iff_default : CountsParts {} 7 5 ↔
    ChunkManagerConfig.partCount {} 7 5 < 2 ^ 31 ∨
      toInt (ChunkManagerConfig.partCount {} 7 5) > 10000 :=
  countsParts_iff {} ⟨by decide, by decide, by decide, by decide⟩ 7 5 (by decide)

end ChunkManager

end VHono
