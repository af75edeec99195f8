import VHono.FileListing

/-! # Which listings are complete

    The pages of a listing are the rows under the prefix, for every limit and
    every order of equal rows, exactly if LIKE tells these rows from all
    others, no two of them have the same value in the column that orders them,
    their number fits into an `int`, and the prefix has no NUL byte. -/

namespace VHono

open ByteString SqliteLexer OffsetPages

/-! ## Following the pages -/

section Follow

variable {page : Nat → Except ByteString FileListResult} {r : Nat → FileListResult}

/-- The files of so many pages, from one on. -/
def filesFrom (r : Nat → FileListResult) (k n : Nat) : List FileRow :=
  (List.range n).flatMap (fun j => (r (k + j)).files)

theorem filesFrom_succ (r : Nat → FileListResult) (k n : Nat) :
    filesFrom r k (n + 1) = (r k).files ++ filesFrom r (k + 1) n := by
  rw [filesFrom, List.range_succ_eq_map, List.flatMap_cons, List.flatMap_map, filesFrom]
  refine congrArg _ (List.flatMap_congr ?_)
  intro j _
  rw [Nat.succ_eq_add_one, Nat.add_assoc, Nat.add_comm 1 j]

theorem follow_last (hpage : ∀ k, page k = .ok (r k)) :
    ∀ d k, (∀ j < d, (r (k + j)).hasMore = true) → (r (k + d)).hasMore = false →
      follow page (d + 1) k = some (.ok (filesFrom r k (d + 1))) := by
  intro d
  induction d with
  | zero =>
      intro k _ hlast
      rw [Nat.add_zero] at hlast
      rw [follow, hpage]
      dsimp only
      rw [hlast, filesFrom_succ]
      show some (Except.ok (r k).files) = some (.ok ((r k).files ++ []))
      rw [List.append_nil]
  | succ d ih =>
      intro k hmore hlast
      have hfirst : (r k).hasMore = true := hmore 0 (Nat.succ_pos d)
      have hrest := ih (k + 1)
        (fun j hj => by rw [Nat.add_assoc, Nat.add_comm 1 j]; exact hmore (j + 1) (by omega))
        (by rw [Nat.add_assoc, Nat.add_comm 1 d]; exact hlast)
      rw [follow, hpage]
      dsimp only
      rw [hfirst, if_pos rfl, hrest, filesFrom_succ r k (d + 1)]
      rfl

theorem last_of_follow (hpage : ∀ k, page k = .ok (r k)) {files : List FileRow} :
    ∀ fuel k, follow page fuel k = some (.ok files) →
      ∃ d, (∀ j < d, (r (k + j)).hasMore = true) ∧ (r (k + d)).hasMore = false ∧
        files = filesFrom r k (d + 1) := by
  intro fuel
  induction fuel generalizing files with
  | zero => exact fun k h => (by cases h)
  | succ fuel ih =>
      intro k h
      rw [follow, hpage] at h
      dsimp only at h
      cases hmore : (r k).hasMore with
      | false =>
          rw [hmore] at h
          refine ⟨0, fun j hj => absurd hj (Nat.not_lt_zero j), hmore, ?_⟩
          rw [filesFrom_succ, ← Except.ok.inj (Option.some.inj h)]
          exact (List.append_nil _).symm
      | true =>
          rw [hmore, if_pos rfl] at h
          cases hrest : follow page fuel (k + 1) with
          | none => rw [hrest] at h; cases h
          | some result =>
              rw [hrest] at h
              cases result with
              | error err => cases h
              | ok rest =>
                  obtain ⟨d, hd, hlast, rfl⟩ := ih (k + 1) hrest
                  refine ⟨d + 1, ?_, ?_, ?_⟩
                  · intro j hj
                    cases j with
                    | zero => exact hmore
                    | succ j =>
                        rw [← Nat.add_assoc, Nat.add_right_comm]
                        exact hd j (by omega)
                  · rw [← Nat.add_assoc, Nat.add_right_comm]
                    exact hlast
                  · rw [filesFrom_succ, ← Except.ok.inj (Option.some.inj h)]

end Follow

/-! ## The answers to a listing by prefix -/

theorem isWord_name (column : FileColumn) : IsWord column.name := by
  cases column <;> exact ⟨_, _, rfl, by decide, by decide⟩

theorem FileColumn.name_injective {a b : FileColumn} (h : a.name = b.name) : a = b := by
  revert h
  cases a <;> cases b <;> first | exact fun _ => rfl | exact fun h => absurd h (by decide)

section Listing

variable {t : FileTable} {pfx : ByteString} {column : FileColumn} {desc : Bool} {limit : Int}

/-- The rows that LIKE selects. -/
def FileTable.matching (t : FileTable) (pfx : ByteString) : List FileRow :=
  t.rows.filter (fun row => LikePatterns.like (pfx ++ ascii "%") row.file.objectKey)

theorem like_any (text : ByteString) : LikePatterns.like (ascii "%") text = true :=
  LikePatterns.isLike_any _

theorem selected_listOptions (k : Nat) :
    t.selected (listOptions pfx column desc limit k) = t.matching pfx := by
  refine List.filter_congr ?_
  intro row _
  by_cases h : pfx = []
  · simp [FileListOptions.selects, listOptions, h, like_any]
  · simp [FileListOptions.selects, listOptions, h]

theorem intact_listOptions (hpfx : 0 ∉ pfx) (k : Nat) :
    Intact .lenient (listOptions pfx column desc limit k).countSql ∧
      Intact .lenient (listOptions pfx column desc limit k).pageSql := by
  have hword := isWord_name column
  rw [intact_iff_of_wellFormed _ (SqlCall.wellFormed_countSql _),
    intact_iff_of_wellFormed _ (SqlCall.wellFormed_pageSql _)]
  by_cases h : pfx = []
  · simp [FileListOptions.countSql, FileListOptions.pageSql, FileListOptions.whereSql,
      FileListOptions.whereClauses, listOptions, SqlPart.Clean, h, hword]
  · simp [FileListOptions.countSql, FileListOptions.pageSql, FileListOptions.whereSql,
      FileListOptions.whereClauses, listOptions, SqlPart.Clean, h, hword, hpfx]

theorem refused_of_nul (before : List SqlPart) (hbefore : closes (renderSql before) = true)
    {arg : ByteString} (h : 0 ∈ arg) (suffix : ByteString) (after : List SqlPart) :
    Refused (before ++ .escaped arg suffix :: after) := by
  have hrender : renderSql (before ++ .escaped arg suffix :: after) = renderSql before ++
      byte '\'' :: (double (byte '\'') arg ++ (suffix ++ byte '\'' :: renderSql after)) := by
    rw [renderSql, List.flatMap_append, List.flatMap_cons, SqlPart.render, escapeSql_eq]
    simp [renderSql]
  obtain ⟨bad, hlex⟩ := lex_literal_nul isQuote_single h (suffix ++ byte '\'' :: renderSql after)
  refine ⟨bad, ?_⟩
  rw [hrender, lex_append hbefore, hlex]
  exact List.mem_append_right _ List.mem_cons_self

/-- Before the literal of the prefix a statement is between two tokens. -/
theorem closes_before_like {head : ByteString} (h : closes head = true) :
    closes (renderSql [.text head, .text (ascii "WHERE "), .text (ascii "object_key LIKE ")])
      = true := by
  rw [renderSql, List.flatMap_cons, List.flatMap_cons, List.flatMap_cons, List.flatMap_nil,
    List.append_nil]
  exact closes_append h (closes_append closes_literal closes_literal)

theorem refused_listOptions (hpfx : 0 ∈ pfx) (k : Nat) :
    (¬ Intact .lenient (listOptions pfx column desc limit k).countSql ∧
      Refused (listOptions pfx column desc limit k).countSql) ∧
    ¬ Intact .lenient (listOptions pfx column desc limit k).pageSql ∧
      Refused (listOptions pfx column desc limit k).pageSql := by
  have hne : pfx ≠ [] := List.ne_nil_of_mem hpfx
  have hwhere : (listOptions pfx column desc limit k).whereSql =
      [.text (ascii "WHERE "), .text (ascii "object_key LIKE "), .escaped pfx (ascii "%")] := by
    simp [FileListOptions.whereSql, FileListOptions.whereClauses, listOptions, hne]
  have hmem : ∀ reading, ¬ (SqlPart.escaped pfx (ascii "%")).Clean reading := fun _ h => h hpfx
  rw [intact_iff_of_wellFormed _ (SqlCall.wellFormed_countSql _),
    intact_iff_of_wellFormed _ (SqlCall.wellFormed_pageSql _), FileListOptions.countSql,
    FileListOptions.pageSql, hwhere]
  refine ⟨⟨fun h => hmem _ (h _ (by simp)), ?_⟩, fun h => hmem _ (h _ (by simp)), ?_⟩
  · exact refused_of_nul _ (closes_before_like closes_literal) hpfx _ []
  · exact refused_of_nul _ (closes_before_like SqlCall.closes_columns) hpfx _ _

/-- A page of a listing whose rows are so many. -/
def pageResult (total offset : Nat) (rows : List FileRow) : FileListResult where
  files := rows.map readRow
  totalCount := printedInt total
  hasMore := decide (((offset + rows.length : Nat) : Int).bmod (2 ^ 32) < printedInt total)

theorem listFiles_ok (n k : Nat) (rows : List FileRow) (total : Nat) :
    listFiles (listOptions pfx column desc n k) ⟨.ok [(total : Int)], .ok rows⟩
      = .ok (pageResult total (k * n) rows) := by
  rw [listFiles]
  dsimp only
  rw [pageResult, List.length_map, Nat.cast_add, Nat.cast_mul]
  rfl

theorem window_listOptions {n : Nat} (hn : 1 ≤ n) (k : Nat) (s : List FileRow) :
    window s (listOptions pfx column desc n k).offset.toNat
      (listOptions pfx column desc n k).pageLimit.toNat = window s (k * n) n := by
  have hlimit : (listOptions pfx column desc n k).pageLimit = n :=
    if_pos (by show (0 : Int) < n; omega)
  have hoffset : (listOptions pfx column desc n k).offset = ((k * n : Nat) : Int) := by
    rw [Nat.cast_mul]
    rfl
  rw [hlimit, hoffset, Int.toNat_natCast, Int.toNat_natCast]

/-- What SQLite answers to a prefix without NUL bytes. -/
theorem answers_iff (hpfx : 0 ∉ pfx) {n : Nat} (hn : 1 ≤ n) (k : Nat) (answer : ListAnswer) :
    Answers t (listOptions pfx column desc n k) answer ↔
      ∃ s, OrderedBy column.value desc (t.matching pfx) s ∧
        answer = ⟨.ok [((t.matching pfx).length : Int)], .ok (window s (k * n) n)⟩ := by
  obtain ⟨hcount, hpage⟩ : Intact .lenient (listOptions pfx column desc n k).countSql ∧
      Intact .lenient (listOptions pfx column desc n k).pageSql := intact_listOptions hpfx k
  constructor
  · intro h
    obtain ⟨s, hs, hrows⟩ := h.rows column rfl hpage
    rw [selected_listOptions] at hs
    have hanswer := h.count hcount
    rw [selected_listOptions] at hanswer
    rw [window_listOptions hn] at hrows
    exact ⟨s, hs, by rw [← hanswer, ← hrows]⟩
  · rintro ⟨s, hs, rfl⟩
    refine ⟨fun _ => ?_, fun h => absurd hcount h, fun column' hname _ => ?_, fun h => absurd hpage h⟩
    · rw [selected_listOptions]
    · rw [FileColumn.name_injective hname, selected_listOptions]
      exact ⟨s, hs, by rw [window_listOptions hn]⟩

/-! ## The pages -/

theorem filesFrom_windows (s : Nat → List FileRow) (total n m : Nat) :
    filesFrom (fun k => pageResult total (k * n) (window (s k) (k * n) n)) 0 m
      = (windows s n m).map readRow := by
  rw [filesFrom, windows, List.map_flatMap]
  refine List.flatMap_congr ?_
  intro j _
  rw [Nat.zero_add]
  rfl

theorem printedInt_of_lt {n : Nat} (h : n < 2 ^ 31) : printedInt n = n := by
  rw [printedInt]
  omega

theorem bmod_of_lt {n : Nat} (h : n < 2 ^ 31) : (n : Int).bmod (2 ^ 32) = n :=
  Int.bmod_eq_of_le_mul_two (by omega) (by omega)

theorem hasMore_iff {total offset : Nat} {rows : List FileRow} (htotal : total < 2 ^ 31)
    (h : offset + rows.length ≤ total) :
    (pageResult total offset rows).hasMore = true ↔ offset + rows.length < total := by
  rw [pageResult, decide_eq_true_iff, bmod_of_lt (by omega), printedInt_of_lt htotal]
  exact Int.ofNat_lt

theorem length_window (s : List FileRow) (offset n : Nat) :
    (window s offset n).length = min n (s.length - offset) := by
  rw [window, List.length_take, List.length_drop]

theorem file_of_readRow {row row' : FileRow} (h : readRow row = readRow row') :
    row.file = row'.file := by
  show (readRow row).file = (readRow row').file
  rw [h]

/-- **THE PAGES OF ONE ORDER** end, and are all of its rows. -/
theorem follow_const {page : Nat → Except ByteString FileListResult} {s : List FileRow} {n : Nat}
    (hn : 1 ≤ n) (htotal : s.length < 2 ^ 31)
    (hpage : ∀ k, page k = .ok (pageResult s.length (k * n) (window s (k * n) n))) :
    ∃ fuel, follow page fuel 0 = some (.ok (s.map readRow)) := by
  -- the page on which the last row is
  obtain ⟨m, hlow, hhigh⟩ : ∃ m, (m = 0 ∨ m * n < s.length) ∧ s.length ≤ (m + 1) * n := by
    refine ⟨(s.length - 1) / n, ?_, ?_⟩
    · by_cases hzero : (s.length - 1) / n = 0
      · exact Or.inl hzero
      · have hle := Nat.div_mul_le_self (s.length - 1) n
        have hpos : 0 < s.length - 1 := by
          by_contra hnone
          rw [Nat.eq_zero_of_not_pos hnone, Nat.zero_div] at hzero
          exact hzero rfl
        exact Or.inr (by omega)
    · have hdiv := Nat.lt_mul_div_succ (s.length - 1) (show 0 < n by omega)
      rw [Nat.mul_comm] at hdiv
      omega
  refine ⟨m + 1, ?_⟩
  have hfiles := follow_last hpage m 0 ?_ ?_
  · rw [hfiles, filesFrom_windows (fun _ => s), windows_const, List.take_of_length_le hhigh]
  · intro j hj
    have hnext : (j + 1) * n ≤ m * n := Nat.mul_le_mul_right n hj
    rw [Nat.succ_mul] at hnext
    have hm : m * n < s.length := by
      rcases hlow with hzero | hlt
      · omega
      · exact hlt
    rw [Nat.zero_add, hasMore_iff htotal (by rw [length_window]; omega), length_window]
    omega
  · rw [Nat.zero_add, Bool.eq_false_iff, Ne, hasMore_iff htotal]
    · rw [length_window]
      rw [Nat.succ_mul] at hhigh
      rcases hlow with hzero | hlt
      · rw [hzero, Nat.zero_mul] at hhigh ⊢
        omega
      · omega
    · rw [length_window]
      rcases hlow with hzero | hlt
      · rw [hzero, Nat.zero_mul]
        omega
      · omega

/-! ## Which listings are complete -/

/-- LIKE selects the rows under the prefix. -/
theorem matching_eq_under (h : ∀ row ∈ t.rows,
    LikePatterns.like (pfx ++ ascii "%") row.file.objectKey = startsWith row.file.objectKey pfx) :
    t.matching pfx = t.under pfx :=
  List.filter_congr h

theorem listsUnder_of_listable (h : Listable t pfx column) : ListsUnder t pfx column desc := by
  intro limit hlimit _ db hdb
  obtain ⟨n, rfl⟩ := Int.eq_ofNat_of_zero_le (show 0 ≤ limit by omega)
  have hn : 1 ≤ n := by omega
  have heq := matching_eq_under h.like_eq
  have hanswers := fun k => (answers_iff h.printable hn k (db k)).mp (hdb k)
  obtain ⟨s, hs, -⟩ := hanswers 0
  rw [heq] at hs
  have hlength : (t.matching pfx).length = s.length := by rw [heq, hs.perm.length_eq]
  -- without ties every query answers in the same order
  have hpage : ∀ k, listFiles (listOptions pfx column desc n k) (db k)
      = .ok (pageResult s.length (k * n) (window s (k * n) n)) := by
    intro k
    obtain ⟨s', hs', hdbk⟩ := hanswers k
    rw [heq] at hs'
    rw [hdbk, listFiles_ok, hlength, OrderedBy.unique h.distinct hs' hs]
  have hcount : s.length < 2 ^ 31 := by rw [hs.perm.length_eq]; exact h.countable
  obtain ⟨fuel, hfollow⟩ := follow_const hn hcount hpage
  exact ⟨fuel, _, hfollow, hs.perm.map readRow⟩

theorem not_mem_of_listsUnder (h : ListsUnder t pfx column desc) : 0 ∉ pfx := by
  intro hpfx
  obtain ⟨fuel, files, hfollow, -⟩ := h 1 (by decide) (by decide)
    (fun _ => ⟨.error [], .error []⟩) (fun k => by
      obtain ⟨⟨hcount, -⟩, hpage, -⟩ :
        (¬ Intact .lenient (listOptions pfx column desc 1 k).countSql ∧ _) ∧
          ¬ Intact .lenient (listOptions pfx column desc 1 k).pageSql ∧ _ :=
        refused_listOptions hpfx k
      exact ⟨fun h => absurd h hcount, fun _ _ => ⟨[], rfl⟩, fun _ _ h => absurd h hpage,
        fun _ _ => ⟨[], rfl⟩⟩)
  cases fuel with
  | zero => cases hfollow
  | succ fuel => cases hfollow

/-- What a complete listing says about its pages, for any answers. -/
theorem ListsUnder.pages (h : ListsUnder t pfx column desc) {n : Nat} (hn : 1 ≤ n)
    (hlimit : n < 2 ^ 31) {s : Nat → List FileRow}
    (hs : ∀ k, OrderedBy column.value desc (t.matching pfx) (s k)) :
    ∃ d, (∀ j < d, (pageResult (t.matching pfx).length (j * n) (window (s j) (j * n) n)).hasMore
        = true) ∧
      (pageResult (t.matching pfx).length (d * n) (window (s d) (d * n) n)).hasMore = false ∧
      ((windows s n (d + 1)).map readRow).Perm ((t.under pfx).map readRow) := by
  obtain ⟨fuel, files, hfollow, hperm⟩ := h n (by omega) (by omega)
    (fun k => ⟨.ok [((t.matching pfx).length : Int)], .ok (window (s k) (k * n) n)⟩)
    (fun k => (answers_iff (not_mem_of_listsUnder h) hn k _).mpr ⟨s k, hs k, rfl⟩)
  obtain ⟨d, hmore, hlast, rfl⟩ := last_of_follow (fun k => listFiles_ok n k _ _) fuel 0 hfollow
  rw [filesFrom_windows] at hperm
  refine ⟨d, ?_, ?_, hperm⟩
  · intro j hj
    have hj' := hmore j hj
    rw [Nat.zero_add] at hj'
    exact hj'
  · rw [Nat.zero_add] at hlast
    exact hlast

/-- The count stops at the largest `int`, and so do pages of one row; pages of two rows step over
    it. -/
theorem ListsUnder.matching_countable (h : ListsUnder t pfx column desc) :
    (t.matching pfx).length < 2 ^ 31 := by
  by_contra hbig
  obtain ⟨s, hs⟩ := exists_orderedBy column.value desc (t.matching pfx)
  have hlength := hs.perm.length_eq
  have htotal : printedInt (t.matching pfx).length = 2 ^ 31 - 1 := by
    rw [printedInt]
    omega
  obtain ⟨d, hmore, hlast, hperm⟩ := h.pages (Nat.le_refl 1) (by decide) (fun _ => hs)
  obtain ⟨d', -, hlast', hperm'⟩ := h.pages (show 1 ≤ 2 by decide) (by decide) (fun _ => hs)
  -- one row a page: the page before the last `int` is the last
  have hone : d = 2 ^ 31 - 2 := by
    have hstep : ∀ j, j ≤ 2 ^ 31 - 2 →
        ((pageResult (t.matching pfx).length (j * 1) (window s (j * 1) 1)).hasMore = true ↔
          j < 2 ^ 31 - 2) := by
      intro j hj
      have hrow : j * 1 + (window s (j * 1) 1).length = j + 1 := by
        rw [length_window]
        omega
      rw [pageResult, decide_eq_true_iff, htotal, hrow, bmod_of_lt (by omega)]
      omega
    by_contra hne
    rcases Nat.lt_or_gt_of_ne hne with hlt | hgt
    · rw [(hstep d (by omega)).mpr hlt] at hlast
      cases hlast
    · exact absurd ((hstep _ (Nat.le_refl _)).mp (hmore _ hgt)) (Nat.lt_irrefl _)
  -- two rows a page: only a page that is not full can be the last
  have htwo : s.length ≤ (d' + 1) * 2 := by
    by_contra hfull
    have hrows : d' * 2 + (window s (d' * 2) 2).length = (d' + 1) * 2 := by
      rw [length_window]
      omega
    rw [pageResult, decide_eq_false_iff_not, htotal, hrows] at hlast'
    have hlt : (((d' + 1) * 2 : Nat) : Int).bmod (2 ^ 32) < 2 ^ 31 := Int.bmod_lt (by decide)
    have hmod : (((d' + 1) * 2 : Nat) : Int).bmod (2 ^ 32) % ((2 ^ 32 : Nat) : Int)
        = (((d' + 1) * 2 : Nat) : Int) % ((2 ^ 32 : Nat) : Int) := Int.bmod_emod
    omega
  have hfirst := hperm.length_eq
  have hsecond := hperm'.length_eq
  rw [windows_const, List.length_map, List.length_take, List.length_map] at hfirst
  rw [windows_const, List.length_map, List.take_of_length_le htwo, List.length_map] at hsecond
  omega

theorem ListsUnder.like_eq (h : ListsUnder t pfx column desc) : ∀ row ∈ t.rows,
    LikePatterns.like (pfx ++ ascii "%") row.file.objectKey
      = startsWith row.file.objectKey pfx := by
  obtain ⟨s, hs⟩ := exists_orderedBy column.value desc (t.matching pfx)
  have hlength := hs.perm.length_eq
  have hcount := h.matching_countable
  -- all pages of one order are the rows that LIKE selects
  have hperm : ((t.matching pfx).map readRow).Perm ((t.under pfx).map readRow) := by
    obtain ⟨d, hmore, hlast, hperm⟩ := h.pages (Nat.le_refl 1) (by decide) (fun _ => hs)
    have hall : s.length ≤ (d + 1) * 1 := by
      by_contra hlt
      rw [Bool.eq_false_iff, Ne, hasMore_iff hcount (by rw [length_window]; omega),
        length_window] at hlast
      omega
    rw [windows_const, List.take_of_length_le hall] at hperm
    exact (hs.perm.symm.map readRow).trans hperm
  intro row hrow
  rw [Bool.eq_iff_iff]
  constructor
  · intro hlike
    have hmem := hperm.subset (List.mem_map_of_mem (List.mem_filter.mpr ⟨hrow, hlike⟩))
    obtain ⟨row', hrow', heq⟩ := List.mem_map.mp hmem
    rw [← file_of_readRow heq]
    exact (List.mem_filter.mp hrow').2
  · intro hstart
    have hmem := hperm.symm.subset (List.mem_map_of_mem (List.mem_filter.mpr ⟨hrow, hstart⟩))
    obtain ⟨row', hrow', heq⟩ := List.mem_map.mp hmem
    rw [← file_of_readRow heq]
    exact (List.mem_filter.mp hrow').2

theorem FileTable.eq_of_readRow {row row' : FileRow} (hrow : row ∈ t.rows) (hrow' : row' ∈ t.rows)
    (h : readRow row = readRow row') : row = row' := by
  exact List.inj_on_of_nodup_map t.unique hrow hrow'
    (congrArg FileInfo.fileUuid (file_of_readRow h))

theorem FileTable.nodup_matching : (t.matching pfx).Nodup :=
  (List.Nodup.of_map _ t.unique).filter _

theorem ListsUnder.distinct (h : ListsUnder t pfx column desc) :
    ((t.under pfx).map column.value).Nodup := by
  have heq := matching_eq_under h.like_eq
  rw [← heq]
  by_contra hties
  obtain ⟨b, hb, s, hs, hlost⟩ := exists_lost_by desc t.nodup_matching hties
  obtain ⟨d, -, -, hperm⟩ := h.pages (Nat.le_refl 1) (by decide) hs
  rw [heq] at hb
  obtain ⟨a, ha, hab⟩ := List.mem_map.mp (hperm.symm.subset (List.mem_map_of_mem hb))
  obtain ⟨k, hk⟩ := mem_windows ha
  have hrow : a ∈ t.matching pfx := (hs k).perm.subset (List.mem_of_mem_drop (List.mem_of_mem_take hk))
  have hsame := t.eq_of_readRow (List.mem_filter.mp hrow).1 (List.mem_filter.mp hb).1 hab
  rw [hsame] at ha
  exact hlost _ ha

/-- **A LISTING IS COMPLETE** exactly if LIKE, with the wildcards and the letters of the prefix,
    selects the rows under it and no others, the column that orders them tells them apart, they
    fit into an `int`, and the prefix has no NUL byte. -/
theorem listsUnder_iff (t : FileTable) (pfx : ByteString) (column : FileColumn) (desc : Bool) :
    ListsUnder t pfx column desc ↔ Listable t pfx column := by
  constructor
  · intro h
    have hcount := h.matching_countable
    rw [matching_eq_under h.like_eq] at hcount
    exact ⟨not_mem_of_listsUnder h, h.like_eq, h.distinct, hcount⟩
  · exact listsUnder_of_listable

/-- The wildcard `_` of a prefix lists another key. -/
theorem wildcard_lists_other : ¬ ListsUnder
    ⟨[⟨1, ⟨ascii "u", ascii "h", ascii "ab", 3, ascii "text/plain", ascii "local", ascii "docs",
      ascii "ab", []⟩, 0, 0⟩], List.nodup_singleton _⟩ (ascii "a_") .createdAt true := by
  intro h
  exact absurd (h.like_eq _ List.mem_cons_self) (by decide)

end Listing

end VHono
