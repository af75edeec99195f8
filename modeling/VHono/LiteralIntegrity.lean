import VHono.ByteCompare
import VHono.SqlStatements

/-! # Which arguments stay what they are

    A statement is lexed as its parts, each argument as one literal that stands
    for it, exactly if an argument that is not escaped has no quote of its
    literal and none has a NUL byte.  To SQLite a text in double quotes is a
    name and no string, so that what is written so is never a string literal;
    it is read back under the same condition. -/

namespace VHono

open ByteString SqliteLexer

/-- What counts as the literal of an argument: a string in single quotes, or whatever token the
    statement writes for it, which may be a name in double quotes or a word. -/
inductive Reading
  | strict
  | lenient
  deriving DecidableEq, Repr

namespace SqlPart

/-- The tokens that a part is meant to be. -/
def intended (reading : Reading) : SqlPart → List Token
  | text s => lex s
  | number n => signed n
  | quoted quote arg =>
    match reading with
    | .strict => [.string arg]
    | .lenient => [literal quote arg]
  | escaped arg suffix => [.string (arg ++ suffix)]
  | replaced arg =>
    match reading with
    | .strict => [.string arg]
    | .lenient => [.name arg]
  | bare arg =>
    match reading with
    | .strict => [.string arg]
    | .lenient => [.word arg]

/-- The argument is written so that it is read back. -/
def Clean (reading : Reading) : SqlPart → Prop
  | text _ => True
  | number _ => True
  | quoted quote arg => (reading = .strict → quote = byte '\'') ∧ quote ∉ arg ∧ 0 ∉ arg
  | escaped arg _ => 0 ∉ arg
  | replaced arg => reading = .lenient ∧ byte '"' ∉ arg ∧ 0 ∉ arg
  | bare arg => reading = .lenient ∧ IsWord arg

end SqlPart

/-- The statement is lexed as its parts are meant. -/
def Intact (reading : Reading) (ps : List SqlPart) : Prop :=
  lex (renderSql ps) = ps.flatMap (SqlPart.intended reading)

/-- Every argument of every statement of the call is the one literal that stands for it. -/
def SqlCall.Intact (lib : SqlLibrary) (reading : Reading) (call : SqlCall) : Prop :=
  ∀ ps ∈ call.statements lib, VHono.Intact reading ps

def SqlCall.Clean (lib : SqlLibrary) (reading : Reading) (call : SqlCall) : Prop :=
  ∀ ps ∈ call.statements lib, ∀ p ∈ ps, p.Clean reading

/-! ## One part -/

theorem escapeSql_eq (s : ByteString) : escapeSql s = double (byte '\'') s :=
  replaceStr_byte (byte '\'') (ascii "''") s

/-- The text after a part begins with a byte that closes what is open. -/
def sealedBy : List SqlPart → Bool
  | [] => true
  | .text (c :: _) :: _ => seals c
  | _ => false

theorem sealedBy_nil : sealedBy [] = true := rfl

theorem sealed_renderSql {ps : List SqlPart} (h : sealedBy ps = true) : Sealed (renderSql ps) := by
  intro c hc
  match ps with
  | [] => cases hc
  | .text (d :: s) :: ps =>
      obtain rfl : d = c := Option.some.inj hc
      exact h
  | .text [] :: ps => cases h
  | .number _ :: ps => cases h
  | .quoted _ _ :: ps => cases h
  | .escaped _ _ :: ps => cases h
  | .replaced _ :: ps => cases h
  | .bare _ :: ps => cases h

/-- The rest of a statement has no single quote. -/
def quoteless : List SqlPart → Bool
  | [] => true
  | .text s :: ps => !s.contains (byte '\'') && quoteless ps
  | .number _ :: ps => quoteless ps
  | _ => false

theorem head_ne_quote {quote : UInt8} (hquote : isQuote quote = true) {r : ByteString}
    (hr : Sealed r) : r.head? ≠ some quote := by
  intro h
  exact not_quote_of_seals hquote (hr quote h) rfl

/-- **A QUOTED ARGUMENT** that is not escaped. -/
theorem lex_quoted_iff (reading : Reading) {quote : UInt8} (hquote : isQuote quote = true)
    (arg : ByteString) {r : ByteString} (hr : Sealed r) (ts : List Token) :
    lex ((SqlPart.quoted quote arg).render ++ r) = (SqlPart.quoted quote arg).intended reading ++ ts ↔
      (SqlPart.quoted quote arg).Clean reading ∧ lex r = ts := by
  have hrender : (SqlPart.quoted quote arg).render ++ r = quote :: (arg ++ quote :: r) := by
    rw [SqlPart.render, List.cons_append, List.append_assoc]
    rfl
  have hback : quote ∉ arg → 0 ∉ arg →
      lex (quote :: (arg ++ quote :: r)) = literal quote arg :: lex r := by
    intro hmem hzero
    have hlex := lex_literal hquote hzero hr
    rw [double_of_not_mem hmem] at hlex
    exact hlex
  have hforth : ∀ ts', lex (quote :: (arg ++ quote :: r)) = literal quote arg :: ts' →
      quote ∉ arg ∧ 0 ∉ arg := by
    intro ts' h
    obtain ⟨hzero, r', hs, hr'⟩ := literal_of_lex hquote h
    exact ⟨not_mem_of_double_eq (head_ne_quote hquote hr) hs.symm, hzero⟩
  rw [hrender]
  cases reading with
  | strict =>
      by_cases hsingle : quote = byte '\''
      · have hlit : literal quote arg = .string arg := if_pos hsingle
        rw [hlit] at hback hforth
        constructor
        · intro h
          obtain ⟨hmem, hzero⟩ := hforth _ h
          rw [hback hmem hzero] at h
          exact ⟨⟨fun _ => hsingle, hmem, hzero⟩, (List.cons.inj h).2⟩
        · rintro ⟨⟨-, hmem, hzero⟩, rfl⟩
          exact hback hmem hzero
      · constructor
        · intro h
          exact absurd h (not_string_of_lex hquote hsingle)
        · rintro ⟨⟨hstrict, -⟩, -⟩
          exact absurd (hstrict rfl) hsingle
  | lenient =>
      constructor
      · intro h
        obtain ⟨hmem, hzero⟩ := hforth _ h
        rw [hback hmem hzero] at h
        exact ⟨⟨nofun, hmem, hzero⟩, (List.cons.inj h).2⟩
      · rintro ⟨⟨-, hmem, hzero⟩, rfl⟩
        exact hback hmem hzero

/-- **AN ESCAPED ARGUMENT**, with what the statement writes after it. -/
theorem lex_escaped_iff (reading : Reading) (arg : ByteString) {suffix : ByteString}
    (hsuffix : byte '\'' ∉ suffix ∧ 0 ∉ suffix) {r : ByteString} (hr : Sealed r) (ts : List Token) :
    lex ((SqlPart.escaped arg suffix).render ++ r)
        = (SqlPart.escaped arg suffix).intended reading ++ ts ↔
      (SqlPart.escaped arg suffix).Clean reading ∧ lex r = ts := by
  have hdouble : double (byte '\'') (arg ++ suffix) = escapeSql arg ++ suffix := by
    rw [escapeSql_eq, double, List.flatMap_append]
    exact congrArg _ (double_of_not_mem hsuffix.1)
  have hrender : (SqlPart.escaped arg suffix).render ++ r
      = byte '\'' :: (double (byte '\'') (arg ++ suffix) ++ byte '\'' :: r) := by
    rw [SqlPart.render, hdouble, List.cons_append, List.append_assoc]
    rfl
  have hzero : 0 ∉ arg ↔ 0 ∉ arg ++ suffix := by
    rw [List.mem_append, not_or]
    exact ⟨fun h => ⟨h, hsuffix.2⟩, And.left⟩
  show _ = [Token.string (arg ++ suffix)] ++ ts ↔ 0 ∉ arg ∧ lex r = ts
  rw [hrender, hzero]
  constructor
  · intro h
    have hclean := (literal_of_lex isQuote_single h).1
    rw [lex_literal isQuote_single hclean hr] at h
    exact ⟨hclean, (List.cons.inj h).2⟩
  · rintro ⟨hclean, rfl⟩
    exact lex_literal isQuote_single hclean hr

/-- Single quotes in the place of double ones do not double them. -/
theorem not_mem_of_replaced {arg r r' : ByteString}
    (h : double (byte '"') arg ++ r' = replaceStr arg (ascii "\"") (ascii "''") ++ r) :
    byte '"' ∉ arg := by
  rw [show ascii "\"" = [byte '"'] from rfl, replaceStr_byte] at h
  induction arg with
  | nil => exact List.not_mem_nil
  | cons b arg ih =>
      rw [List.flatMap_cons] at h
      by_cases hb : b = byte '"'
      · rw [hb, double_cons_quote, if_pos rfl] at h
        exact absurd (List.cons.inj h).1 (by decide)
      · rw [double_cons_other hb, if_neg hb] at h
        rw [List.mem_cons, not_or]
        exact ⟨Ne.symm hb, ih (List.cons.inj h).2⟩

/-- **AN ARGUMENT WHOSE DOUBLE QUOTES ARE REPLACED.** -/
theorem lex_replaced_iff (reading : Reading) (arg : ByteString) {r : ByteString} (hr : Sealed r)
    (ts : List Token) :
    lex ((SqlPart.replaced arg).render ++ r) = (SqlPart.replaced arg).intended reading ++ ts ↔
      (SqlPart.replaced arg).Clean reading ∧ lex r = ts := by
  have hrender : (SqlPart.replaced arg).render ++ r
      = byte '"' :: (replaceStr arg (ascii "\"") (ascii "''") ++ byte '"' :: r) := by
    rw [SqlPart.render, List.cons_append, List.append_assoc]
    rfl
  rw [hrender]
  cases reading with
  | strict =>
      constructor
      · intro h
        exact absurd h (not_string_of_lex isQuote_double (by decide))
      · rintro ⟨⟨hlenient, -⟩, -⟩
        cases hlenient
  | lenient =>
      have hsame : byte '"' ∉ arg → replaceStr arg (ascii "\"") (ascii "''") = double (byte '"') arg := by
        intro hmem
        rw [show ascii "\"" = [byte '"'] from rfl, replaceStr_byte, double_of_not_mem hmem]
        refine (List.flatMap_congr ?_).trans (List.flatMap_singleton' arg)
        intro b hb
        have hne : b ≠ byte '"' := by
          rintro rfl
          exact hmem hb
        exact if_neg hne
      constructor
      · intro h
        have hliteral : lex _ = literal (byte '"') arg :: ts := h
        obtain ⟨hzero, r', hs, -⟩ := literal_of_lex isQuote_double hliteral
        have hmem := not_mem_of_replaced hs.symm
        rw [hsame hmem, lex_literal isQuote_double hzero hr] at h
        exact ⟨⟨rfl, hmem, hzero⟩, (List.cons.inj h).2⟩
      · rintro ⟨⟨-, hmem, hzero⟩, rfl⟩
        rw [hsame hmem]
        exact lex_literal isQuote_double hzero hr

theorem count_renderSql {ps : List SqlPart} (h : quoteless ps = true) :
    (renderSql ps).count (byte '\'') = 0 := by
  induction ps with
  | nil => rfl
  | cons p ps ih =>
      rw [renderSql, List.flatMap_cons, List.count_append]
      cases p with
      | text s =>
          rw [quoteless, Bool.and_eq_true] at h
          have hs : byte '\'' ∉ s := by simpa using h.1
          have hrest := ih h.2
          rw [renderSql] at hrest
          rw [hrest, SqlPart.render, List.count_eq_zero.mpr hs]
      | number n =>
          have hrest := ih h
          rw [renderSql] at hrest
          rw [hrest, SqlPart.render, Nat.add_zero, List.count_eq_zero]
          intro hmem
          rcases mem_intStr hmem with h | h
          · exact absurd h (by decide)
          · cases h
      | quoted quote arg => cases h
      | escaped arg suffix => cases h
      | replaced arg => cases h
      | bare arg => cases h

/-- **AN ARGUMENT THAT IS NOT QUOTED** is never a string, and a word only if it is one. -/
theorem lex_bare_iff (reading : Reading) (arg : ByteString) {r : ByteString} (hr : Sealed r)
    (hquote : r.count (byte '\'') = 0) (ts : List Token) :
    lex ((SqlPart.bare arg).render ++ r) = (SqlPart.bare arg).intended reading ++ ts ↔
      (SqlPart.bare arg).Clean reading ∧ lex r = ts := by
  rw [SqlPart.render]
  cases reading with
  | strict =>
      constructor
      · intro h
        have hcount : 2 + 2 * arg.count (byte '\'') ≤ (arg ++ r).count (byte '\'') :=
          count_of_lex (by rw [h]; exact List.mem_cons_self)
        rw [List.count_append, hquote] at hcount
        omega
      · rintro ⟨⟨hlenient, -⟩, -⟩
        cases hlenient
  | lenient =>
      constructor
      · intro h
        have hword : IsWord arg := isWord_of_lex (s := arg ++ r) (by rw [h]; exact List.mem_cons_self)
        rw [lex_word hword hr] at h
        exact ⟨⟨rfl, hword⟩, (List.cons.inj h).2⟩
      · rintro ⟨⟨-, hword⟩, rfl⟩
        exact lex_word hword hr

/-! ## Statements -/

/-- The part is a number or quoted. -/
def SqlPart.isValue : SqlPart → Bool
  | text _ => false
  | number _ => true
  | quoted quote _ => isQuote quote
  | escaped _ suffix => !suffix.contains (byte '\'') && !suffix.contains 0
  | replaced _ => true
  | bare _ => false

/-- The parts can be lexed one by one: text ends between two tokens, and what follows a value
    closes it. -/
inductive WellFormed : List SqlPart → Prop
  | nil : WellFormed []
  | last (s : ByteString) : WellFormed [.text s]
  | text {s : ByteString} {ps : List SqlPart} (h : closes s = true) (hps : WellFormed ps) :
      WellFormed (.text s :: ps)
  | value {p : SqlPart} {ps : List SqlPart} (h : p.isValue = true) (hsealed : sealedBy ps = true)
      (hps : WellFormed ps) : WellFormed (p :: ps)
  | bare {arg : ByteString} {ps : List SqlPart} (h : quoteless ps = true)
      (hsealed : sealedBy ps = true) (hps : WellFormed ps) : WellFormed (.bare arg :: ps)

theorem lex_value_iff (reading : Reading) {p : SqlPart} (hp : p.isValue = true) {r : ByteString}
    (hr : Sealed r) (ts : List Token) :
    lex (p.render ++ r) = p.intended reading ++ ts ↔ p.Clean reading ∧ lex r = ts := by
  cases p with
  | text s => cases hp
  | number n =>
      rw [SqlPart.render, lex_intStr n hr, SqlPart.intended, List.append_cancel_left_eq]
      exact (and_iff_right trivial).symm
  | quoted quote arg => exact lex_quoted_iff reading hp arg hr ts
  | escaped arg suffix =>
      rw [SqlPart.isValue, Bool.and_eq_true] at hp
      exact lex_escaped_iff reading arg ⟨by simpa using hp.1, by simpa using hp.2⟩ hr ts
  | replaced arg => exact lex_replaced_iff reading arg hr ts
  | bare arg => cases hp

/-- **A WELL-FORMED STATEMENT** is intact exactly if its arguments are clean. -/
theorem intact_iff_of_wellFormed (reading : Reading) {ps : List SqlPart} (h : WellFormed ps) :
    Intact reading ps ↔ ∀ p ∈ ps, p.Clean reading := by
  induction h with
  | nil => exact iff_of_true rfl (List.forall_mem_nil _)
  | last s =>
      refine iff_of_true ?_ (List.forall_mem_singleton.mpr trivial)
      rw [Intact, renderSql, List.flatMap_singleton, List.flatMap_singleton]
      rfl
  | @text s ps h _ ih =>
      rw [List.forall_mem_cons, ← ih, Intact, renderSql, List.flatMap_cons, List.flatMap_cons,
        SqlPart.render, lex_append h, SqlPart.intended, List.append_cancel_left_eq]
      exact (and_iff_right trivial).symm
  | value hp hsealed _ ih =>
      rw [List.forall_mem_cons, ← ih, Intact, renderSql, List.flatMap_cons, List.flatMap_cons]
      exact lex_value_iff reading hp (sealed_renderSql hsealed) _
  | bare hquote hsealed _ ih =>
      rw [List.forall_mem_cons, ← ih, Intact, renderSql, List.flatMap_cons, List.flatMap_cons]
      exact lex_bare_iff reading _ (sealed_renderSql hsealed) (count_renderSql hquote) _

namespace SqlCall

/-- Literals that are joined in the source. -/
theorem closes_two {l l' : List Char}
    (h : closes (l.map (fun c => c.toNat.toUInt8)) = true := by decide +kernel)
    (h' : closes (l'.map (fun c => c.toNat.toUInt8)) = true := by decide +kernel) :
    closes (ascii (String.ofList l) ++ ascii (String.ofList l')) = true :=
  closes_append (closes_literal h) (closes_literal h')

theorem closes_columns {l : List Char}
    (h : closes (l.map (fun c => c.toNat.toUInt8)) = true := by decide +kernel) :
    closes (fileColumns ++ ascii (String.ofList l)) = true :=
  closes_append closes_two (closes_literal h)

theorem wellFormed_lookup {head : ByteString} (h : closes head = true) (arg : ByteString) :
    WellFormed (lookup head arg) :=
  .text h (.value rfl rfl .nil)

theorem wellFormed_values {ps qs : List SqlPart} (hps : ps.all SqlPart.isValue = true)
    (hsealed : sealedBy qs = true) (hqs : WellFormed qs) : WellFormed (values ps ++ qs) := by
  have hcomma : closes (ascii ", ") = true := closes_literal
  induction ps with
  | nil => exact hqs
  | cons p ps ih =>
      rw [List.all_cons, Bool.and_eq_true] at hps
      cases ps with
      | nil => exact .value hps.1 hsealed hqs
      | cons p' ps => exact .value hps.1 rfl (.text hcomma (ih hps.2))

/-- A row inserted: the columns, the values and what follows them. -/
theorem wellFormed_insert {head : ByteString} {ps qs : List SqlPart} (hhead : closes head = true)
    (hps : ps.all SqlPart.isValue = true) (hsealed : sealedBy qs = true) (hqs : WellFormed qs) :
    WellFormed ([.text head] ++ values ps ++ qs) := by
  rw [List.append_assoc]
  exact .text hhead (wellFormed_values hps hsealed hqs)

/-- A condition of a query: a column compared with a value. -/
def IsClause (ps : List SqlPart) : Prop :=
  ∃ s p, ps = [.text s, p] ∧ closes s = true ∧ p.isValue = true

theorem wellFormed_clauses {clauses : List (List SqlPart)} (h : ∀ ps ∈ clauses, IsClause ps)
    {qs : List SqlPart} (hsealed : sealedBy qs = true) (hqs : WellFormed qs) :
    WellFormed ([SqlPart.text (ascii " AND ")].intercalate clauses ++ qs) := by
  have hand : closes (ascii " AND ") = true := closes_literal
  induction clauses with
  | nil => exact hqs
  | cons ps clauses ih =>
      rw [List.forall_mem_cons] at h
      obtain ⟨⟨s, p, rfl, hs, hp⟩, hclauses⟩ := h
      cases clauses with
      | nil => exact .text hs (.value hp hsealed hqs)
      | cons ps' clauses =>
          rw [List.intercalate_cons_cons]
          exact .text hs (.value hp rfl (.text hand (ih hclauses)))

theorem isClause_whereClauses (options : FileListOptions) :
    ∀ ps ∈ options.whereClauses, IsClause ps := by
  intro ps hmem
  rw [FileListOptions.whereClauses, List.mem_append, List.mem_append, List.mem_ite_nil_right,
    List.mem_ite_nil_right, List.mem_ite_nil_right, List.mem_singleton, List.mem_singleton,
    List.mem_singleton] at hmem
  rcases hmem with (⟨-, rfl⟩ | ⟨-, rfl⟩) | ⟨-, rfl⟩
  · exact ⟨_, _, rfl, closes_literal, rfl⟩
  · exact ⟨_, _, rfl, closes_literal, rfl⟩
  · exact ⟨_, _, rfl, closes_literal, rfl⟩

theorem wellFormed_whereSql (options : FileListOptions) {qs : List SqlPart}
    (hsealed : sealedBy qs = true) (hqs : WellFormed qs) : WellFormed (options.whereSql ++ qs) := by
  rw [FileListOptions.whereSql]
  split
  · exact hqs
  · exact .text closes_literal (wellFormed_clauses (isClause_whereClauses options) hsealed hqs)

theorem wellFormed_countSql (options : FileListOptions) : WellFormed options.countSql := by
  have hwhere := wellFormed_whereSql options sealedBy_nil .nil
  rw [List.append_nil] at hwhere
  exact .text closes_literal hwhere

theorem wellFormed_pageSql (options : FileListOptions) : WellFormed options.pageSql := by
  have hdir : closes (ascii " " ++ options.orderDir ++ ascii " LIMIT ") = true ∧
      (ascii " " ++ options.orderDir ++ ascii " LIMIT ").contains (byte '\'') = false := by
    rw [FileListOptions.orderDir]
    split
    · exact ⟨by decide +kernel, by decide +kernel⟩
    · exact ⟨by decide +kernel, by decide +kernel⟩
  refine .text closes_columns (wellFormed_whereSql options rfl (.text closes_literal (.bare ?_ rfl ?_)))
  · show (!(ascii " " ++ options.orderDir ++ ascii " LIMIT ").contains (byte '\'') && true) = true
    rw [hdir.2]
    rfl
  · exact .text hdir.1 (.value rfl rfl (.text closes_literal (.value rfl rfl .nil)))

theorem wellFormed_statements (lib : SqlLibrary) (call : SqlCall) :
    ∀ ps ∈ call.statements lib, WellFormed ps := by
  cases call with
  | insertFile file random now =>
      exact List.forall_mem_singleton.mpr
        (wellFormed_insert closes_two rfl rfl (.last _))
  | getFileByUuid fileUuid =>
      exact List.forall_mem_singleton.mpr (wellFormed_lookup closes_columns fileUuid)
  | getFileByHash fileHash =>
      exact List.forall_mem_singleton.mpr (wellFormed_lookup closes_columns fileHash)
  | getFilesByHash fileHash =>
      exact List.forall_mem_singleton.mpr (wellFormed_lookup closes_columns fileHash)
  | updateFile fileUuid fileName fileType metadata now =>
      refine List.forall_mem_cons.mpr ⟨?_, List.forall_mem_singleton.mpr ?_⟩
      · exact .text closes_literal (.value rfl rfl (.text closes_literal (.value rfl rfl
          (.text closes_literal (.value rfl rfl (.text closes_literal (.value rfl rfl
            (wellFormed_lookup closes_literal fileUuid))))))))
      · exact wellFormed_lookup closes_columns fileUuid
  | deleteFile fileUuid =>
      exact List.forall_mem_singleton.mpr (wellFormed_lookup closes_literal fileUuid)
  | fileExists fileUuid =>
      exact List.forall_mem_singleton.mpr (.text closes_literal (.value rfl rfl (.last _)))
  | listFiles options =>
      exact List.forall_mem_cons.mpr ⟨wellFormed_countSql options,
        List.forall_mem_singleton.mpr (wellFormed_pageSql options)⟩
  | createMultipartUpload upload randomId randomUuid now =>
      exact List.forall_mem_singleton.mpr
        (wellFormed_insert (closes_append closes_two closes_literal) rfl rfl
          (.text closes_literal (.value rfl rfl (.text closes_literal (.value rfl rfl (.last _))))))
  | getMultipartUpload uploadId =>
      exact List.forall_mem_singleton.mpr
        (wellFormed_lookup (closes_append closes_two closes_literal) uploadId)
  | updateMultipartStatus uploadId status now =>
      exact List.forall_mem_singleton.mpr (.text closes_literal (.value rfl rfl
        (.text closes_literal (.value rfl rfl (wellFormed_lookup closes_literal uploadId)))))
  | deleteMultipartUpload uploadId =>
      exact List.forall_mem_cons.mpr ⟨wellFormed_lookup closes_literal uploadId,
        List.forall_mem_singleton.mpr (wellFormed_lookup closes_literal uploadId)⟩
  | recordUploadedPart uploadId partNumber etag size now =>
      exact List.forall_mem_cons.mpr ⟨wellFormed_insert closes_two rfl rfl (.last _),
        List.forall_mem_singleton.mpr (.text closes_literal (.value rfl rfl
          (wellFormed_lookup closes_literal uploadId)))⟩
  | getUploadedParts uploadId =>
      exact List.forall_mem_singleton.mpr (.text closes_two (.value rfl rfl (.last _)))
  | getUploadedPartsCount uploadId =>
      exact List.forall_mem_singleton.mpr (wellFormed_lookup closes_literal uploadId)
  | isPartUploaded uploadId partNumber =>
      exact List.forall_mem_singleton.mpr (.text closes_literal (.value rfl rfl
        (.text closes_literal (.value rfl rfl (.last _)))))
  | deleteUploadedPart uploadId partNumber =>
      exact List.forall_mem_singleton.mpr (.text closes_literal (.value rfl rfl
        (.text closes_literal (.value rfl rfl .nil))))
  | getFileByKey bucket objectKey =>
      exact List.forall_mem_singleton.mpr (.text closes_columns (.value rfl rfl
        (.text closes_literal (.value rfl rfl .nil))))
  | createUser username email password role now =>
      refine List.forall_mem_cons.mpr ⟨?_, List.forall_mem_singleton.mpr (.last _)⟩
      exact wellFormed_insert closes_two rfl rfl
        (.text closes_literal (.value rfl rfl (.text closes_literal (.value rfl rfl (.last _)))))
  | login username password userId random now =>
      refine List.forall_mem_cons.mpr ⟨?_, List.forall_mem_singleton.mpr ?_⟩
      · exact .text closes_two (.value rfl rfl
          (.text closes_literal (.value rfl rfl (.last _))))
      · exact wellFormed_insert closes_literal rfl rfl (.last _)
  | verifyToken token now =>
      exact List.forall_mem_singleton.mpr (.text closes_two (.value rfl rfl
        (.text closes_literal (.value rfl rfl (.last _)))))
  | logout token =>
      exact List.forall_mem_singleton.mpr (.text closes_literal (.value rfl rfl .nil))
  | createMenuItem name path icon parentId sortOrder permissions now =>
      refine List.forall_mem_cons.mpr ⟨?_, List.forall_mem_singleton.mpr (.last _)⟩
      exact wellFormed_insert closes_two rfl rfl
        (.text closes_literal (.value rfl rfl (.text closes_literal (.value rfl rfl (.last _)))))
  | getMenuIdByPath path =>
      exact List.forall_mem_singleton.mpr (.text closes_literal (.value rfl rfl .nil))

/-- **THE LITERALS ARE INTACT** exactly if the arguments are clean for the way they are written:
    one in single quotes has no single quote unless it is escaped, none has a NUL byte, and one
    in double quotes or outside of quotes is never a string literal; taken for the name or the
    word that the statement writes, it is what it stands for if it has no double quote, and if
    it is a word. -/
theorem intact_iff (lib : SqlLibrary) (reading : Reading) (call : SqlCall) :
    call.Intact lib reading ↔ call.Clean lib reading := by
  constructor
  · intro h ps hps
    exact (intact_iff_of_wellFormed reading (wellFormed_statements lib call ps hps)).mp (h ps hps)
  · intro h ps hps
    exact (intact_iff_of_wellFormed reading (wellFormed_statements lib call ps hps)).mpr (h ps hps)

/-- A uuid that closes its literal is a condition that every row meets. -/
theorem uuid_leaves_literal :
    ¬ (getFileByUuid (ascii "' OR '1'='1")).Intact ⟨fun _ => [], fun _ => []⟩ .strict ∧
      ¬ (getFileByUuid (ascii "' OR '1'='1")).Intact ⟨fun _ => [], fun _ => []⟩ .lenient := by
  have hleaves : ∀ reading, ¬ VHono.Intact reading
      (lookup (fileColumns ++ ascii "FROM file_info WHERE file_uuid = ") (ascii "' OR '1'='1")) := by
    intro reading h
    have hclean := (intact_iff_of_wellFormed reading (wellFormed_lookup closes_columns _)).mp h
      (.single (ascii "' OR '1'='1")) (List.mem_cons_of_mem _ List.mem_cons_self)
    exact hclean.2.1 (by decide)
  exact ⟨fun h => hleaves .strict (h _ List.mem_cons_self),
    fun h => hleaves .lenient (h _ List.mem_cons_self)⟩

/-! ## Ids that the code makes -/

theorem hexDigit_clean {n : Nat} (h : n < 16) :
    SqliteLexer.isHexDigit (LocalStorage.hexDigit n) = true := by
  interval_cases n <;> rfl

theorem isHexDigit_of_mem_hexByte {b c : UInt8} (h : c ∈ LocalStorage.hexByte b) :
    SqliteLexer.isHexDigit c = true := by
  have hb : b.toNat < 256 := b.toNat_lt
  rcases List.mem_cons.mp h with rfl | h
  · exact hexDigit_clean (by omega)
  · rw [List.mem_singleton.mp h]
    exact hexDigit_clean (by omega)

theorem clean_of_hex (reading : Reading) {arg : ByteString}
    (h : ∀ b ∈ arg, SqliteLexer.isHexDigit b = true ∨ b = byte '-') :
    (SqlPart.single arg).Clean reading := by
  refine ⟨fun _ => rfl, fun hmem => ?_, fun hmem => ?_⟩
  · rcases h _ hmem with h | h
    · cases h
    · exact absurd h (by decide)
  · rcases h _ hmem with h | h
    · cases h
    · exact absurd h (by decide)

theorem clean_generateFileUuid (reading : Reading) (random : Option ByteString) :
    (SqlPart.single (generateFileUuid random)).Clean reading := by
  refine clean_of_hex reading ?_
  cases random with
  | none => exact List.forall_mem_nil _
  | some bytes =>
      intro b hb
      obtain ⟨⟨c, i⟩, -, hc⟩ := List.mem_flatMap.mp hb
      rcases List.mem_append.mp hc with hdash | hhex
      · rw [List.mem_ite_nil_right] at hdash
        exact Or.inr (List.mem_singleton.mp hdash.2)
      · exact Or.inl (isHexDigit_of_mem_hexByte hhex)

theorem clean_generateHex (reading : Reading) (random : Option ByteString) :
    (SqlPart.single (generateHex random)).Clean reading := by
  refine clean_of_hex reading ?_
  cases random with
  | none => exact List.forall_mem_nil _
  | some bytes =>
      intro b hb
      obtain ⟨c, -, hc⟩ := List.mem_flatMap.mp hb
      exact Or.inl (isHexDigit_of_mem_hexByte hc)

/-- An id that is made for an empty one asks nothing more of the argument. -/
theorem clean_default_iff (reading : Reading) (id : ByteString) {made : ByteString}
    (hmade : (SqlPart.single made).Clean reading) :
    (SqlPart.single (if id ≠ [] then id else made)).Clean reading ↔
      (SqlPart.single id).Clean reading := by
  by_cases h : id = []
  · subst h
    exact iff_of_true hmade ⟨fun _ => rfl, List.not_mem_nil, List.not_mem_nil⟩
  · rw [if_pos h]

end SqlCall

end VHono
