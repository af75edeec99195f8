import Mathlib.Data.List.DropRight
import Mathlib.Data.List.TakeWhile
import VHono.ByteDecimals
import VHono.HttpGrammar

/-! # The grammar of HTTP/1.1 responses

    A response that may stand on the wire, framed by its length: the fields of
    the structure say when the recipient takes the bytes after the empty line
    for the body.  A text has one reading at most, and a text that a server
    prints as `name: value` lines has a reading exactly when its lines are
    header fields. -/

namespace HttpGrammar

open ByteString

/-! ## Decimal numbers in a field -/

/-- What may stand in a printed number neither ends a line nor pads a field. -/
theorem intStr_bytes {n : Int} {b : UInt8} (h : b ∈ intStr n) :
    isFieldByte b = true ∧ isBlank b = false := by
  rcases mem_intStr h with rfl | hdigit
  · decide
  · rw [isDigitByte, Bool.and_eq_true, decide_eq_true_eq, decide_eq_true_eq,
      UInt8.le_iff_toNat_le, UInt8.le_iff_toNat_le] at hdigit
    obtain ⟨hlo, hhi⟩ := hdigit
    have hzero : (byte '0').toNat = 48 := rfl
    have hnine : (byte '9').toNat = 57 := rfl
    have hne : ∀ c : UInt8, c.toNat < 48 ∨ 57 < c.toNat → b ≠ c := by
      rintro c hc rfl
      omega
    refine ⟨?_, ?_⟩
    · have hspace : (32 : UInt8) ≤ b := UInt8.le_iff_toNat_le.mpr (by
        have : (32 : UInt8).toNat = 32 := rfl
        omega)
      have hdel : b ≠ 127 := hne 127 (by decide)
      rw [isFieldByte, Bool.or_eq_true, Bool.and_eq_true, decide_eq_true_eq, bne_iff_ne]
      exact Or.inr ⟨hspace, hdel⟩
    · rw [isBlank, Bool.or_eq_false_iff, beq_eq_false_iff_ne, beq_eq_false_iff_ne]
      exact ⟨hne 32 (by decide), hne 9 (by decide)⟩

/-! ## Responses -/

/-- What a recipient keeps of a field. -/
def Field.pair (f : Field) : ByteString × ByteString := (f.name, f.value)

/-- Field names are compared without case. -/
def named (pair : ByteString × ByteString) (name : ByteString) : Bool := eqIgnoreCase pair.1 name

def isContentLength (pair : ByteString × ByteString) : Bool := named pair (ascii "Content-Length")

def isTransferEncoding (pair : ByteString × ByteString) : Bool :=
  named pair (ascii "Transfer-Encoding")

/-- A response to `HEAD`, an interim response, `204` and `304` end with the header. -/
def bodyless (toHead : Bool) (status : Nat) : Bool :=
  toHead || decide (status < 200) || status == 204 || status == 304

/-- The recipient takes the whole rest of the message for the body: one length is
    declared and no transfer coding overrides it. -/
def Framed (toHead : Bool) (status : Nat) (pairs : List (ByteString × ByteString))
    (body : ByteString) : Prop :=
  if bodyless toHead status = true then body = []
  else (pairs.filter isContentLength).map (fun p => readDecimal p.2) = [some body.length] ∧
    ∀ p ∈ pairs, isTransferEncoding p = false

/-- A response to a request, which is one for `HEAD` or not. -/
structure Response (toHead : Bool) where
  status        : Nat
  reason        : ByteString
  fields        : List Field
  body          : ByteString
  status_digits : 100 ≤ status ∧ status ≤ 999
  reason_bytes  : ∀ b ∈ reason, isFieldByte b = true
  framed        : Framed toHead status (fields.map Field.pair) body

namespace Response

variable {toHead : Bool}

/-- The status line, without its line end. -/
def line (p : Response toHead) : ByteString :=
  ascii "HTTP/1.1 " ++ (decimal p.status ++ 32 :: p.reason)

def render (p : Response toHead) : ByteString :=
  p.line ++ (crlf ++ (headerText p.fields ++ (crlf ++ p.body)))

end Response

/-! ## A text has one reading -/

@[simp] theorem headerText_append (fs gs : List Field) :
    headerText (fs ++ gs) = headerText fs ++ headerText gs := List.flatMap_append

theorem headerText_cons (f : Field) (fs : List Field) :
    headerText (f :: fs) = f.line ++ 13 :: (10 :: headerText fs) := by
  show (f.line ++ [13, 10]) ++ headerText fs = _
  rw [List.append_assoc]
  rfl

/-- A line determines the name and the value of its field. -/
theorem Field.pair_of_line {f g : Field} (h : f.line = g.line) : f.pair = g.pair := by
  obtain ⟨hname, hrest⟩ := append_sep_inj f.colon_not_mem_name g.colon_not_mem_name h
  have hvalue : f.value = g.value := by rw [← f.trimSpace_value, hrest, g.trimSpace_value]
  rw [Field.pair, hname, hvalue]
  rfl

theorem pairs_of_headerText :
    ∀ {fs gs : List Field}, headerText fs = headerText gs → fs.map Field.pair = gs.map Field.pair := by
  intro fs
  induction fs with
  | nil =>
      intro gs h
      cases gs with
      | nil => rfl
      | cons g gs =>
          rw [headerText_cons] at h
          exact absurd h.symm (List.append_ne_nil_of_right_ne_nil _ (List.cons_ne_nil _ _))
  | cons f fs ih =>
      intro gs h
      cases gs with
      | nil =>
          rw [headerText_cons] at h
          exact absurd h (List.append_ne_nil_of_right_ne_nil _ (List.cons_ne_nil _ _))
      | cons g gs =>
          rw [headerText_cons, headerText_cons] at h
          obtain ⟨hline, hrest⟩ := append_sep_inj f.cr_not_mem_line g.cr_not_mem_line h
          rw [List.map_cons, List.map_cons, Field.pair_of_line hline,
            ih (List.cons.inj hrest).2]

/-- The empty line closes the header, wherever else line ends stand in the body. -/
theorem headerText_close {fs gs : List Field} {body body' : ByteString}
    (h : headerText fs ++ (crlf ++ body) = headerText gs ++ (crlf ++ body')) :
    headerText fs = headerText gs ∧ body = body' := by
  have hclosed : ∀ (ks : List Field) (b : ByteString),
      indexOf (crlf ++ crlf) (crlf ++ (headerText ks ++ (crlf ++ b)))
        = some (headerText ks).length := by
    intro ks b
    have hlines : ∀ l ∈ ks.map Field.line, l ≠ [] ∧ (13 : UInt8) ∉ l := by
      intro l hl
      obtain ⟨k, -, rfl⟩ := List.mem_map.mp hl
      exact ⟨k.line_ne_nil, k.cr_not_mem_line⟩
    have hblank := indexOf_blank_line b (ks.map Field.line) hlines
    rw [List.flatMap_map] at hblank
    exact hblank
  have hlength : (headerText fs).length = (headerText gs).length := by
    have := hclosed fs body
    rw [h, hclosed gs body'] at this
    exact (Option.some.inj this).symm
  obtain ⟨htext, hrest⟩ := List.append_inj h hlength
  exact ⟨htext, List.append_cancel_left hrest⟩

namespace Response

variable {toHead : Bool}

theorem cr_not_mem_line (p : Response toHead) : (13 : UInt8) ∉ p.line := by
  have hstatus : (13 : UInt8) ∉ decimal p.status := by
    intro h
    exact absurd (isDigitByte_of_mem_decimal h) (by decide)
  have hreason : (13 : UInt8) ∉ p.reason := not_mem_of_test p.reason_bytes (by decide)
  have hversion : (13 : UInt8) ∉ ascii "HTTP/1.1 " := by decide
  have hspace : (13 : UInt8) ≠ 32 := by decide
  simp only [line, List.mem_append, List.mem_cons, not_or]
  exact ⟨hversion, hstatus, hspace, hreason⟩

/-- The status line determines the status. -/
theorem status_of_line {p : Response toHead} {code : Int} {reason : ByteString}
    (h : p.line = ascii "HTTP/1.1 " ++ (intStr code ++ 32 :: reason)) : (p.status : Int) = code := by
  have hspace : (32 : UInt8) ∉ intStr code := by
    intro hmem
    exact absurd (intStr_bytes hmem).2 (by decide)
  have hspace' : (32 : UInt8) ∉ decimal p.status := by
    intro hmem
    exact absurd (isDigitByte_of_mem_decimal hmem) (by decide)
  obtain ⟨hcode, -⟩ := append_sep_inj hspace' hspace (List.append_cancel_left h)
  exact (intStr_eq_decimal hcode.symm).symm

/-- **A TEXT HAS ONE READING.**  Status, fields and body are determined by the bytes. -/
theorem render_reading {p q : Response toHead} (h : p.render = q.render) :
    p.status = q.status ∧ p.fields.map Field.pair = q.fields.map Field.pair ∧
      p.body = q.body := by
  obtain ⟨hline, hrest⟩ := append_sep_inj p.cr_not_mem_line q.cr_not_mem_line h
  obtain ⟨htext, hbody⟩ := headerText_close (List.cons.inj hrest).2
  refine ⟨?_, pairs_of_headerText htext, hbody⟩
  have hline' : p.line = ascii "HTTP/1.1 " ++ (intStr (q.status : Int) ++ 32 :: q.reason) := by
    rw [hline, intStr_ofNat]
    rfl
  exact Int.ofNat.inj (status_of_line hline')

end Response

/-! ## Texts printed by a server -/

/-- Header pairs as a server prints them. -/
def pairText (pairs : List (ByteString × ByteString)) : ByteString :=
  pairs.flatMap (fun p => p.1 ++ (ascii ": " ++ (p.2 ++ crlf)))

@[simp] theorem pairText_append (ps qs : List (ByteString × ByteString)) :
    pairText (ps ++ qs) = pairText ps ++ pairText qs := List.flatMap_append

/-- What is printed is empty or ends a line. -/
theorem pairText_ends (pairs : List (ByteString × ByteString)) :
    pairText pairs = [] ∨ ∃ t, pairText pairs = t ++ 13 :: [10] := by
  rcases List.eq_nil_or_concat pairs with rfl | ⟨ps, p, rfl⟩
  · exact Or.inl rfl
  · refine Or.inr ⟨pairText ps ++ (p.1 ++ (ascii ": " ++ p.2)), ?_⟩
    rw [List.concat_eq_append, pairText_append]
    simp only [pairText, List.flatMap_cons, List.flatMap_nil, List.append_nil, crlf,
      List.append_assoc]

/-- A header that begins with whole lines splits where they end. -/
theorem headerText_split :
    ∀ (fs : List Field) {t u : ByteString}, (t = [] ∨ ∃ t', t = t' ++ 13 :: [10]) →
      headerText fs = t ++ u →
      ∃ f1 f2, fs = f1 ++ f2 ∧ headerText f1 = t ∧ headerText f2 = u := by
  intro fs
  induction fs with
  | nil =>
      intro t u _ h
      obtain ⟨rfl, rfl⟩ := List.append_eq_nil_iff.mp h.symm
      exact ⟨[], [], rfl, rfl, rfl⟩
  | cons f fs ih =>
      rintro t u (rfl | ⟨t', rfl⟩) h
      · exact ⟨[], f :: fs, rfl, rfl, h⟩
      · rw [headerText_cons] at h
        by_cases hcr : (13 : UInt8) ∈ t'
        · -- the first line end of the text is that of the first field
          obtain ⟨t0, t1, rfl, hfirst⟩ := List.eq_append_cons_of_mem hcr
          have hshape : f.line ++ 13 :: (10 :: headerText fs)
              = t0 ++ 13 :: (t1 ++ 13 :: 10 :: u) := by
            rw [h]
            simp only [List.append_assoc, List.cons_append, List.nil_append]
          obtain ⟨hline, hrest⟩ := append_sep_inj f.cr_not_mem_line hfirst hshape
          cases t1 with
          | nil => exact absurd (List.cons.inj hrest).1 (by decide)
          | cons b t1 =>
              obtain ⟨rfl, htail⟩ := List.cons.inj hrest
              obtain ⟨f1, f2, rfl, h1, h2⟩ := ih (t := t1 ++ 13 :: [10]) (u := u)
                (Or.inr ⟨t1, rfl⟩) (by
                  rw [List.append_assoc]
                  exact htail)
              refine ⟨f :: f1, f2, rfl, ?_, h2⟩
              rw [headerText_cons, h1, hline]
              simp only [List.append_assoc, List.cons_append]
        · have hshape : f.line ++ 13 :: (10 :: headerText fs) = t' ++ 13 :: (10 :: u) := by
            rw [h]
            simp only [List.append_assoc, List.cons_append, List.nil_append]
          obtain ⟨hline, hrest⟩ := append_sep_inj f.cr_not_mem_line hcr hshape
          refine ⟨[f], fs, rfl, ?_, (List.cons.inj hrest).2⟩
          rw [headerText_cons, hline]
          rfl

/-- A message as a server prints it. -/
def printed (code : Int) (reason : ByteString) (pairs : List (ByteString × ByteString))
    (body : ByteString) : ByteString :=
  ascii "HTTP/1.1 " ++ (intStr code ++ 32 :: reason)
    ++ (crlf ++ (pairText pairs ++ (crlf ++ body)))

/-- A pair whose line is a header field. -/
def ValidPair (p : ByteString × ByteString) : Prop :=
  p.1 ≠ [] ∧ (∀ b ∈ p.1, isTokenByte b = true) ∧ ∀ b ∈ p.2, isFieldByte b = true

/-- The recipient drops the blanks around the value. -/
def trimmed (p : ByteString × ByteString) : ByteString × ByteString := (p.1, trimSpace p.2)

/-- Blanks, a text that neither starts nor ends in one, blanks. -/
theorem exists_trimmed (s : ByteString) :
    ∃ before m after : ByteString, s = before ++ (m ++ after) ∧
      (∀ b ∈ before, isBlank b = true) ∧ (∀ b ∈ after, isBlank b = true) ∧
      (∀ b, m.head? = some b → isBlank b = false) ∧
      ∀ b, m.getLast? = some b → isBlank b = false := by
  have hdrop : ∀ b, (s.dropWhile isBlank).head? = some b → isBlank b = false := by
    intro b hb
    have := List.head?_dropWhile_not isBlank s
    rw [hb] at this
    exact this
  refine ⟨s.takeWhile isBlank, (s.dropWhile isBlank).rdropWhile isBlank,
    (s.dropWhile isBlank).rtakeWhile isBlank, ?_, fun b hb => List.mem_takeWhile_imp hb,
    fun b hb => List.mem_rtakeWhile_imp hb, ?_, ?_⟩
  · rw [List.rdropWhile_append_rtakeWhile, List.takeWhile_append_dropWhile]
  · intro b hb
    obtain ⟨t, ht⟩ := List.rdropWhile_prefix isBlank (s.dropWhile isBlank)
    refine hdrop b ?_
    rw [← ht, List.head?_append, hb]
    rfl
  · intro b hb
    have hne : (s.dropWhile isBlank).rdropWhile isBlank ≠ [] := by
      intro hnil
      rw [hnil] at hb
      cases hb
    have hlast := List.rdropWhile_last_not isBlank (s.dropWhile isBlank) hne
    rw [List.getLast?_eq_some_getLast hne, Option.some.injEq] at hb
    rw [hb, Bool.not_eq_true] at hlast
    exact hlast

theorem ValidPair.exists_field {p : ByteString × ByteString} (h : ValidPair p) :
    ∃ f : Field, f.line = p.1 ++ (ascii ": " ++ p.2) ∧ f.pair = trimmed p := by
  obtain ⟨hne, htoken, hbytes⟩ := h
  obtain ⟨before, m, after, hvalue, hbefore, hafter, hhead, hlast⟩ := exists_trimmed p.2
  let f : Field :=
    { name := p.1
      value := m
      before := 32 :: before
      after := after
      name_ne := hne
      name_token := htoken
      value_bytes := by
        intro b hb
        refine hbytes b ?_
        rw [hvalue]
        exact List.mem_append_right _ (List.mem_append_left _ hb)
      value_head := hhead
      value_last := hlast
      before_blank := by
        intro b hb
        rcases List.mem_cons.mp hb with rfl | hb
        · rfl
        · exact hbefore b hb
      after_blank := hafter }
  have hspace : ∀ s : ByteString, trimSpace (32 :: s) = trimSpace s := fun s => rfl
  refine ⟨f, ?_, ?_⟩
  · rw [hvalue]
    rfl
  · rw [trimmed, hvalue, ← hspace]
    exact congrArg (Prod.mk p.1) f.trimSpace_value.symm

/-- Valid pairs are printed as header fields. -/
theorem exists_fields :
    ∀ pairs : List (ByteString × ByteString), (∀ p ∈ pairs, ValidPair p) →
      ∃ fs : List Field, headerText fs = pairText pairs ∧
        fs.map Field.pair = pairs.map trimmed := by
  intro pairs
  induction pairs with
  | nil => intro _; exact ⟨[], rfl, rfl⟩
  | cons p pairs ih =>
      intro h
      obtain ⟨fs, htext, hpairs⟩ := ih (fun q hq => h q (List.mem_cons_of_mem _ hq))
      obtain ⟨f, hline, hpair⟩ := (h p (List.mem_cons_self ..)).exists_field
      refine ⟨f :: fs, ?_, ?_⟩
      · rw [headerText_cons, htext, hline]
        simp only [pairText, List.flatMap_cons, crlf, List.append_assoc, List.cons_append,
          List.nil_append]
      · rw [List.map_cons, List.map_cons, hpair, hpairs]

/-! ## When a printed message is a response -/

variable {toHead : Bool} {code : Int} {reason body : ByteString}
  {written own : List (ByteString × ByteString)}

theorem framed_append {status : Nat} {ps : List (ByteString × ByteString)}
    (hlength : (own.filter isContentLength).map (fun p => readDecimal p.2) = [some body.length])
    (hcoding : ∀ p ∈ own, isTransferEncoding p = false) :
    Framed toHead status (ps ++ own) body
      ↔ if bodyless toHead status = true then body = []
        else ∀ p ∈ ps, isContentLength p = false ∧ isTransferEncoding p = false := by
  rw [Framed]
  by_cases hless : bodyless toHead status = true
  · rw [if_pos hless, if_pos hless]
  · rw [if_neg hless, if_neg hless, List.filter_append, List.map_append, hlength]
    constructor
    · rintro ⟨hone, hall⟩ p hp
      have hnone : ps.filter isContentLength = [] := by
        have := congrArg List.length hone
        rw [List.length_append, List.length_singleton, List.length_map] at this
        exact List.length_eq_zero_iff.mp (by simpa using this)
      refine ⟨?_, hall p (List.mem_append_left _ hp)⟩
      exact Bool.not_eq_true _ ▸ List.filter_eq_nil_iff.mp hnone p hp
    · intro hall
      refine ⟨?_, ?_⟩
      · rw [List.filter_eq_nil_iff.mpr (fun p hp => by rw [(hall p hp).1]; decide)]
        rfl
      · intro p hp
        rcases List.mem_append.mp hp with hp | hp
        · exact (hall p hp).2
        · exact hcoding p hp

theorem cr_not_mem_status (hreason : ∀ b ∈ reason, isFieldByte b = true) :
    (13 : UInt8) ∉ ascii "HTTP/1.1 " ++ (intStr code ++ 32 :: reason) := by
  have hcode : (13 : UInt8) ∉ intStr code := by
    intro h
    exact absurd (intStr_bytes h).1 (by decide)
  have hreason' : (13 : UInt8) ∉ reason := not_mem_of_test hreason (by decide)
  have hversion : (13 : UInt8) ∉ ascii "HTTP/1.1 " := by decide
  have hspace : (13 : UInt8) ≠ 32 := by decide
  simp only [List.mem_append, List.mem_cons, not_or]
  exact ⟨hversion, hcode, hspace, hreason'⟩

/-- What a response reads in a printed message whose body it keeps. -/
theorem Response.reads_printed {p : Response toHead}
    (hreason : ∀ b ∈ reason, isFieldByte b = true) (hown : ∀ q ∈ own, ValidPair q)
    (h : p.render = printed code reason (written ++ own) body) (hbody : p.body = body) :
    (p.status : Int) = code ∧ ∃ fs : List Field, headerText fs = pairText written ∧
      p.fields.map Field.pair = fs.map Field.pair ++ own.map trimmed := by
  obtain ⟨hline, hrest⟩ := append_sep_inj p.cr_not_mem_line (cr_not_mem_status hreason) h
  have htext : headerText p.fields = pairText written ++ pairText own := by
    have hclose := (List.cons.inj hrest).2
    rw [hbody, pairText_append] at hclose
    exact List.append_cancel_right hclose
  obtain ⟨fs, gs, hfields, hfs, hgs⟩ := headerText_split p.fields (pairText_ends written) htext
  obtain ⟨ks, hks, hpairs⟩ := exists_fields own hown
  refine ⟨Response.status_of_line hline, fs, hfs, ?_⟩
  rw [hfields, List.map_append, pairs_of_headerText (hgs.trans hks.symm), hpairs]

/-- A printed message is a response if its lines are fields and it is framed. -/
theorem exists_response {status : Nat} {fs : List Field}
    (hreason : ∀ b ∈ reason, isFieldByte b = true) (hown : ∀ q ∈ own, ValidPair q)
    (hstatus : 100 ≤ status ∧ status ≤ 999) (hfs : headerText fs = pairText written)
    (hframed : Framed toHead status (fs.map Field.pair ++ own.map trimmed) body) :
    ∃ p : Response toHead, p.render = printed status reason (written ++ own) body ∧
      p.status = status ∧ p.fields.map Field.pair = fs.map Field.pair ++ own.map trimmed ∧
      p.body = body := by
  obtain ⟨gs, hgs, hpairs⟩ := exists_fields own hown
  have hmap : (fs ++ gs).map Field.pair = fs.map Field.pair ++ own.map trimmed := by
    rw [List.map_append, hpairs]
  refine ⟨⟨status, reason, fs ++ gs, body, hstatus, hreason, hmap ▸ hframed⟩, ?_, rfl, hmap, rfl⟩
  rw [printed, intStr_ofNat, pairText_append, ← hfs, ← hgs, ← headerText_append]
  rfl

end HttpGrammar
