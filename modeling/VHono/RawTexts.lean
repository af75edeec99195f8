import VHono.JsonText

/-! # Texts put into JSON as they stand

    Between quotes a text without a quote, a backslash or a control character
    stands for itself, and no other text does: a string that is read past the
    text has one quote more than the text, and one that escapes is written
    longer than it is.  From this it is told of arrays and objects made of
    such texts when they are read as what was meant. -/

namespace JsonText

open ByteString

/-- A character that stands for itself in a string. -/
def standsForItself (b : UInt8) : Bool := b != byte '"' && b != byte '\\' && !decide (b < 0x20)

def Unescaped (t : ByteString) : Prop := ∀ b ∈ t, standsForItself b = true

instance unescapedDecidable (t : ByteString) : Decidable (Unescaped t) :=
  inferInstanceAs (Decidable (∀ b ∈ t, standsForItself b = true))

theorem standsForItself_iff {b : UInt8} :
    standsForItself b = true ↔ b ≠ byte '"' ∧ b ≠ byte '\\' ∧ ¬ b < 0x20 := by
  rw [standsForItself, Bool.and_eq_true, Bool.and_eq_true, bne_iff_ne, bne_iff_ne,
    Bool.not_eq_true', decide_eq_false_iff_not, and_assoc]

/-- A text without escapes is read as itself. -/
theorem spells_unescaped {t : ByteString} (h : Unescaped t) : Spells t (some t) := by
  induction t with
  | nil => exact fun s => text_end s
  | cons b t ih =>
      intro s
      obtain ⟨hb, ht⟩ := List.forall_mem_cons.mp h
      obtain ⟨hquote, hslash, hcontrol⟩ := standsForItself_iff.mp hb
      rw [List.cons_append, text_plain hquote hslash hcontrol, ih ht s]
      rfl

/-! ## What a string is read from -/

/-- The quotes of a text. -/
def quotes (s : ByteString) : Nat := s.count (byte '"')

/-- What a character of a string comes to at most. -/
def Piece.weight : Piece → Nat
  | .byte _ => 1
  | .unit _ => 4

def Piece.isQuote : Piece → Bool
  | .byte b => b == ByteString.byte '"'
  | .unit _ => false

def weight (ps : List Piece) : Nat := (ps.map Piece.weight).sum

def quotePieces (ps : List Piece) : Nat := ps.countP Piece.isQuote

theorem weight_cons (p : Piece) (ps : List Piece) : weight (p :: ps) = p.weight + weight ps := rfl

theorem quotePieces_cons (p : Piece) (ps : List Piece) :
    quotePieces (p :: ps) = quotePieces ps + if p.isQuote then 1 else 0 := List.countP_cons

theorem quotes_cons (b : UInt8) (s : ByteString) :
    quotes (b :: s) = quotes s + if b = byte '"' then 1 else 0 := by
  rw [quotes, List.count_cons, quotes]
  congr 1
  by_cases hb : b = byte '"'
  · rw [if_pos hb, if_pos (beq_iff_eq.mpr hb)]
  · rw [if_neg hb, if_neg (fun h => hb (beq_iff_eq.mp h))]

theorem quotes_append (s t : ByteString) : quotes (s ++ t) = quotes s + quotes t :=
  List.count_append

/-- A text that is read up to a quote: it has no more quotes than what was read, is no shorter,
    and where it is as long it has no escapes. -/
structure ReadFrom (u : ByteString) (ps : List Piece) : Prop where
  quotes  : quotes u ≤ quotePieces ps
  length  : weight ps ≤ u.length
  escapes : u.length ≤ weight ps → Unescaped u

theorem readFrom_nil : ReadFrom [] [] :=
  ⟨Nat.le_refl _, Nat.le_refl _, fun _ _ hb => absurd hb List.not_mem_nil⟩

/-- A character that stands for itself, then the rest. -/
theorem ReadFrom.plain {u : ByteString} {ps : List Piece} {b : UInt8} (h : ReadFrom u ps)
    (hquote : b ≠ byte '"') (hslash : b ≠ byte '\\') (hcontrol : ¬ b < 0x20) :
    ReadFrom (b :: u) (.byte b :: ps) := by
  refine ⟨?_, ?_, fun hlength => ?_⟩
  · rw [quotes_cons, if_neg hquote, quotePieces_cons]
    exact Nat.le_trans h.quotes (Nat.le_add_right _ _)
  · have := h.length
    rw [weight_cons, List.length_cons, Piece.weight]
    omega
  · rw [weight_cons, List.length_cons, Piece.weight] at hlength
    exact List.forall_mem_cons.mpr
      ⟨standsForItself_iff.mpr ⟨hquote, hslash, hcontrol⟩, h.escapes (by omega)⟩

/-- An escape is longer than what it comes to. -/
theorem ReadFrom.escape {u e : ByteString} {ps : List Piece} {p : Piece} (h : ReadFrom u ps)
    (hquotes : JsonText.quotes e ≤ if p.isQuote then 1 else 0) (hlength : p.weight < e.length) :
    ReadFrom (e ++ u) (p :: ps) := by
  have hrest := h.length
  refine ⟨?_, ?_, fun hle => ?_⟩
  · have := h.quotes
    rw [quotes_append, quotePieces_cons]
    omega
  · rw [weight_cons, List.length_append]
    omega
  · rw [weight_cons, List.length_append] at hle
    omega

theorem quotes_shortEscape {e c : UInt8} (h : shortEscape e = some c) :
    quotes [byte '\\', e] ≤ if (Piece.byte c).isQuote then 1 else 0 := by
  have hslash : ¬ byte '\\' = byte '"' := by decide
  rw [quotes_cons, quotes_cons, if_neg hslash]
  by_cases he : e = byte '"'
  · rw [shortEscape, if_pos he] at h
    obtain rfl := Option.some.inj h
    rw [if_pos he]
    decide
  · rw [if_neg he]
    exact Nat.zero_le _

/-- A digit is no quote. -/
theorem quotes_hexDigit {b : UInt8} {n : Nat} (h : hexDigit b = some n) : ¬ b = byte '"' := by
  rintro rfl
  have hnone : hexDigit (byte '"') = none := by decide
  rw [hnone] at h
  cases h

theorem quotes_hexUnit {a b c d : UInt8} {n : Nat} (h : hexUnit a b c d = some n) :
    quotes [byte '\\', byte 'u', a, b, c, d] = 0 := by
  rw [hexUnit] at h
  obtain ⟨na, ha, h⟩ := Option.bind_eq_some_iff.mp h
  obtain ⟨nb, hb, h⟩ := Option.bind_eq_some_iff.mp h
  obtain ⟨nc, hc, h⟩ := Option.bind_eq_some_iff.mp h
  obtain ⟨nd, hd, -⟩ := Option.bind_eq_some_iff.mp h
  have hslash : ¬ byte '\\' = byte '"' := by decide
  have hu : ¬ byte 'u' = byte '"' := by decide
  rw [quotes_cons, quotes_cons, quotes_cons, quotes_cons, quotes_cons, quotes_cons, if_neg hslash,
    if_neg hu, if_neg (quotes_hexDigit ha), if_neg (quotes_hexDigit hb),
    if_neg (quotes_hexDigit hc), if_neg (quotes_hexDigit hd)]
  rfl

theorem pieces_rest {p : Piece} {q : Option (List Piece × ByteString)} {ps : List Piece}
    {r : ByteString} (h : q.map (fun r => (p :: r.1, r.2)) = some (ps, r)) :
    ∃ ps', q = some (ps', r) ∧ ps = p :: ps' := by
  obtain ⟨⟨ps', r'⟩, hq, heq⟩ := Option.map_eq_some_iff.mp h
  obtain ⟨rfl, rfl⟩ := Prod.mk.inj heq
  exact ⟨ps', hq, rfl⟩

/-- A string is read from a text, a quote and what is left. -/
theorem pieces_readFrom (s : ByteString) : ∀ {ps : List Piece} {r : ByteString},
    pieces s = some (ps, r) → ∃ u, s = u ++ byte '"' :: r ∧ ReadFrom u ps := by
  fun_induction pieces s with
  | case1 => exact fun h => (by cases h)
  | case2 s =>
      intro ps r h
      obtain ⟨rfl, rfl⟩ := Prod.mk.inj (Option.some.inj h)
      exact ⟨[], rfl, readFrom_nil⟩
  | case3 => exact fun h => (by cases h)
  | case4 e s c hescape _ ih =>
      intro ps r h
      obtain ⟨ps', hps, rfl⟩ := pieces_rest h
      obtain ⟨u, rfl, hu⟩ := ih hps
      exact ⟨[byte '\\', e] ++ u, rfl, hu.escape (quotes_shortEscape hescape) Nat.one_lt_two⟩
  | case5 h₁ h₂ h₃ h₄ s n hunit _ _ ih =>
      intro ps r h
      obtain ⟨ps', hps, rfl⟩ := pieces_rest h
      obtain ⟨u, rfl, hu⟩ := ih hps
      have hquotes := Nat.le_of_eq (quotes_hexUnit hunit)
      have hlength : Piece.weight (.unit n) < 6 := by
        rw [Piece.weight]
        decide
      exact ⟨[byte '\\', byte 'u', h₁, h₂, h₃, h₄] ++ u, rfl, hu.escape hquotes hlength⟩
  | case6 => exact fun h => (by cases h)
  | case7 => exact fun h => (by cases h)
  | case8 => exact fun h => (by cases h)
  | case9 => exact fun h => (by cases h)
  | case10 b s hquote hslash hcontrol ih =>
      intro ps r h
      obtain ⟨ps', hps, rfl⟩ := pieces_rest h
      obtain ⟨u, rfl, hu⟩ := ih hps
      exact ⟨b :: u, rfl, hu.plain hquote hslash hcontrol⟩

/-! ## What the characters come to -/

theorem length_codePoint (n : Nat) : (codePoint n).length ≤ 4 := by
  rw [codePoint]
  split
  · exact Nat.le_add_left 1 3
  · split
    · exact Nat.le_add_left 2 2
    · split
      · exact Nat.le_add_left 3 1
      · exact Nat.le_refl 4

theorem length_loneUnit (n : Nat) : (loneUnit n).length ≤ 4 := length_codePoint _

/-- A half of a pair that waits counts as well. -/
def pendingWeight : Option Nat → Nat
  | none => 0
  | some _ => 4

/-- No character comes to more than its weight. -/
theorem length_joinAfter (pending : Option Nat) (ps : List Piece) :
    (joinAfter pending ps).length ≤ pendingWeight pending + weight ps := by
  fun_induction joinAfter pending ps with
  | case1 => exact Nat.le_refl _
  | case2 high => exact length_loneUnit high
  | case3 b ps ih =>
      simp only [List.length_cons, weight_cons, Piece.weight, pendingWeight] at ih ⊢
      omega
  | case4 high b ps ih =>
      have hlone := length_loneUnit high
      simp only [List.length_append, List.length_cons, weight_cons, Piece.weight,
        pendingWeight] at ih ⊢
      omega
  | case5 n ps _ ih =>
      simp only [weight_cons, Piece.weight, pendingWeight] at ih ⊢
      omega
  | case6 n ps _ ih =>
      have hlone := length_loneUnit n
      simp only [List.length_append, weight_cons, Piece.weight, pendingWeight] at ih ⊢
      omega
  | case7 high n ps _ ih =>
      have hpair := length_codePoint (0x10000 + (high - 0xD800) * 1024 + (n - 0xDC00))
      simp only [List.length_append, weight_cons, Piece.weight, pendingWeight] at ih ⊢
      omega
  | case8 high n ps _ _ ih =>
      have hlone := length_loneUnit high
      simp only [List.length_append, weight_cons, Piece.weight, pendingWeight] at ih ⊢
      omega
  | case9 high n ps _ _ ih =>
      have hlone := length_loneUnit high
      have hlone' := length_loneUnit n
      simp only [List.length_append, weight_cons, Piece.weight, pendingWeight] at ih ⊢
      omega

theorem isQuote_byte (b : UInt8) :
    (if (Piece.byte b).isQuote = true then 1 else 0) = if b = byte '"' then 1 else 0 := by
  rw [Piece.isQuote]
  by_cases hb : b = byte '"'
  · rw [if_pos hb, if_pos (beq_iff_eq.mpr hb)]
  · rw [if_neg hb, if_neg (fun h => hb (beq_iff_eq.mp h))]

theorem quotePieces_unit (n : Nat) (ps : List Piece) :
    quotePieces (.unit n :: ps) = quotePieces ps := by
  rw [quotePieces_cons, Piece.isQuote, if_neg Bool.false_ne_true, Nat.add_zero]

theorem quotePieces_byte (b : UInt8) (ps : List Piece) :
    quotePieces (.byte b :: ps) = quotePieces ps + if b = byte '"' then 1 else 0 := by
  rw [quotePieces_cons, isQuote_byte]

/-- No quote is lost. -/
theorem quotes_joinAfter (pending : Option Nat) (ps : List Piece) :
    quotePieces ps ≤ quotes (joinAfter pending ps) := by
  fun_induction joinAfter pending ps with
  | case1 => exact Nat.le_refl _
  | case2 high => exact Nat.zero_le _
  | case3 b ps ih =>
      rw [quotePieces_byte, quotes_cons]
      omega
  | case4 high b ps ih =>
      rw [quotePieces_byte, quotes_append, quotes_cons]
      omega
  | case5 n ps _ ih => rwa [quotePieces_unit]
  | case6 n ps _ ih =>
      rw [quotePieces_unit, quotes_append]
      omega
  | case7 high n ps _ ih =>
      rw [quotePieces_unit, quotes_append]
      omega
  | case8 high n ps _ _ ih =>
      rw [quotePieces_unit, quotes_append]
      omega
  | case9 high n ps _ _ ih =>
      rw [quotePieces_unit, quotes_append]
      omega

/-- A text that is read as itself has nothing to escape. -/
theorem unescaped_of_text {t s r : ByteString} (h : text (t ++ byte '"' :: s) = some (t, r)) :
    Unescaped t := by
  obtain ⟨⟨ps, r'⟩, hpieces, heq⟩ := Option.map_eq_some_iff.mp h
  obtain ⟨hjoin, rfl⟩ := Prod.mk.inj heq
  dsimp only at hjoin
  obtain ⟨u, hsplit, hu⟩ := pieces_readFrom _ hpieces
  have hquotes : quotes u ≤ quotes t := hjoin ▸ Nat.le_trans hu.quotes (quotes_joinAfter none ps)
  have hweight : t.length ≤ weight ps := by
    have := length_joinAfter none ps
    rw [hjoin, pendingWeight, Nat.zero_add] at this
    exact this
  have hlength : t.length ≤ u.length := Nat.le_trans hweight hu.length
  -- were more read than the text, the quote after it would be one too many
  have hsame : u = t := by
    obtain ⟨v, hv⟩ : ∃ v, u = t ++ v :=
      (List.prefix_of_prefix_length_le ⟨_, rfl⟩ ⟨_, hsplit.symm⟩ hlength).imp (fun _ h => h.symm)
    rw [hv, List.append_assoc] at hsplit
    have hrest := List.append_cancel_left hsplit
    cases v with
    | nil => rw [hv, List.append_nil]
    | cons b v =>
        obtain ⟨rfl, -⟩ := List.cons.inj hrest
        rw [hv, quotes_append, quotes_cons, if_pos rfl] at hquotes
        omega
  rw [hsame] at hu
  exact hu.escapes hweight

/-! ## Texts of intended values -/

/-- A text that is read as an intended value exactly if it is good: a good text is read where a
    comma or the closing character follows, and what is read as the value is good. -/
structure Settles {α : Type} (item : ByteString → Option (α × ByteString)) (close : UInt8)
    (t : ByteString) (a : α) (good : Prop) : Prop where
  begins : ∃ b s, t = b :: s ∧ isBlank b = false ∧ b ≠ close
  reads  : good → ∀ c s, c = byte ',' ∨ c = close → item (t ++ c :: s) = some (a, c :: s)
  back   : ∀ {s r}, item (t ++ s) = some (a, r) → good

section Settles

variable {α β : Type} {item : ByteString → Option (α × ByteString)} {close : UInt8}
variable {t name v : ByteString} {a : α} {good : Prop}

theorem Settles.toReads (h : Settles item close t a good) (hgood : good) :
    Reads item close t (some a) :=
  ⟨h.begins, h.reads hgood⟩

theorem Settles.skip (h : Settles item close t a good) (s : ByteString) :
    JsonText.skip (t ++ s) = t ++ s := by
  obtain ⟨b, t', rfl, hb, -⟩ := h.begins
  exact skip_of_stop hb _

/-- A string in quotes. -/
theorem settles_string (fuel : Nat) (s : ByteString) (hclose : close ≠ byte '"') :
    Settles (value (fuel + 1)) close (ascii "\"" ++ s ++ ascii "\"") (.string s)
      (Unescaped s) := by
  have hreads := fun hs : Unescaped s => reads_string fuel (spells_unescaped hs) hclose
  refine ⟨⟨byte '"', s ++ ascii "\"", rfl, by decide, Ne.symm hclose⟩, fun hs => (hreads hs).2,
    fun {rest r} h => ?_⟩
  have htext : ascii "\"" ++ s ++ ascii "\"" ++ rest = byte '"' :: (s ++ byte '"' :: rest) := by
    rw [List.append_assoc, List.append_assoc]
    rfl
  rw [htext, value_quote] at h
  obtain ⟨⟨s', r'⟩, hread, heq⟩ := Option.map_eq_some_iff.mp h
  obtain ⟨hs, rfl⟩ := Prod.mk.inj heq
  obtain rfl : s' = s := Json.string.inj hs
  exact unescaped_of_text hread

/-- A member of an object: the name has nothing to escape, and the value is good. -/
theorem settles_member {item : ByteString → Option (Json × ByteString)} {a : Json}
    (h : Settles item (byte '}') v a good) :
    Settles (member item) (byte '}') (memberText name v) (name, a) (Unescaped name ∧ good) := by
  have hquote : isBlank (byte '"') = false := by decide
  have hcolon : isBlank (byte ':') = false := by decide
  have htext : ∀ s, memberText name v ++ s = byte '"' :: (name ++ byte '"' :: byte ':' :: (v ++ s)) := by
    intro s
    rw [memberText, List.append_assoc, List.append_assoc, List.append_assoc]
    rfl
  refine ⟨⟨byte '"', name ++ byte '"' :: byte ':' :: (v ++ []), ?_, hquote, by decide⟩,
    fun hgood => (reads_member (spells_unescaped hgood.1) (h.toReads hgood.2)).2,
    fun {s r} hread => ?_⟩
  · rw [← htext, List.append_nil]
  · rw [htext, member, expect_here hquote] at hread
    obtain ⟨_, hstart, hread⟩ := Option.bind_eq_some_iff.mp hread
    obtain rfl := Option.some.inj hstart
    obtain ⟨⟨name', rest⟩, hname, hread⟩ := Option.bind_eq_some_iff.mp hread
    obtain ⟨s', hs', hread⟩ := Option.bind_eq_some_iff.mp hread
    obtain ⟨⟨a', r'⟩, hvalue, heq⟩ := Option.bind_eq_some_iff.mp hread
    obtain ⟨hpair, rfl⟩ := Prod.mk.inj (Option.some.inj heq)
    obtain ⟨rfl, rfl⟩ := Prod.mk.inj hpair
    have hraw : Unescaped name' := unescaped_of_text hname
    rw [spells_unescaped hraw, Option.map_some] at hname
    obtain ⟨-, rfl⟩ := Prod.mk.inj (Option.some.inj hname)
    rw [expect_here hcolon] at hs'
    obtain rfl := Option.some.inj hs'
    rw [h.skip] at hvalue
    exact ⟨hraw, h.back hvalue⟩

/-- What is read of items: the first, and then the closing character or a comma and more. -/
theorem separated_eq_some {fuel : Nat} {s : ByteString} {as : List α} {r : ByteString}
    (h : separated item close (fuel + 1) s = some (as, r)) :
    ∃ a t as', item (JsonText.skip s) = some (a, t) ∧ as = a :: as' ∧
      ∀ u, t = byte ',' :: u → close ≠ byte ',' → separated item close fuel u = some (as', r) := by
  rw [separated] at h
  obtain ⟨⟨a, t⟩, hitem, h⟩ := Option.bind_eq_some_iff.mp h
  dsimp only at h
  have hcomma : isBlank (byte ',') = false := by decide
  cases hskip : JsonText.skip t with
  | nil =>
      rw [hskip] at h
      cases h
  | cons c u =>
      rw [hskip] at h
      dsimp only at h
      by_cases hclose : c = close
      · rw [if_pos hclose] at h
        obtain ⟨rfl, rfl⟩ := Prod.mk.inj (Option.some.inj h)
        refine ⟨a, t, [], hitem, rfl, fun u' ht hne => ?_⟩
        rw [ht, skip_of_stop hcomma] at hskip
        exact absurd (hclose.symm.trans (List.cons.inj hskip).1.symm) hne
      · rw [if_neg hclose] at h
        by_cases hsep : c = byte ','
        · rw [if_pos hsep] at h
          obtain ⟨⟨as', r'⟩, hmore, heq⟩ := Option.map_eq_some_iff.mp h
          obtain ⟨rfl, rfl⟩ := Prod.mk.inj heq
          refine ⟨a, t, as', hitem, rfl, fun u' ht _ => ?_⟩
          rw [ht, skip_of_stop hcomma] at hskip
          rw [(List.cons.inj hskip).2]
          exact hmore
        · rw [if_neg hsep] at h
          cases h

variable {f : β → ByteString} {g : β → α} {P : β → Prop}

/-- Where items are read as intended, each of them is good. -/
theorem separated_good (hcomma : close ≠ byte ',') (rest : ByteString) {r : ByteString} :
    ∀ (bs : List β), (∀ b ∈ bs, Settles item close (f b) (g b) (P b)) → ∀ fuel,
      separated item close fuel (List.intercalate (ascii ",") (bs.map f) ++ close :: rest)
        = some (bs.map g, r) → ∀ b ∈ bs, P b := by
  intro bs
  induction bs with
  | nil => exact fun _ _ _ b hb => absurd hb List.not_mem_nil
  | cons b bs ih =>
      intro hsettles fuel h
      cases fuel with
      | zero => cases h
      | succ fuel =>
          have hb := hsettles b (List.mem_cons_self ..)
          obtain ⟨a, t, as', hitem, has, hmore⟩ := separated_eq_some h
          obtain ⟨ha, has'⟩ := List.cons.inj has
          rw [← ha] at hitem
          cases bs with
          | nil =>
              rw [List.map_singleton, List.intercalate_singleton, hb.skip] at hitem
              exact List.forall_mem_cons.mpr ⟨hb.back hitem,
                fun c hc => absurd hc List.not_mem_nil⟩
          | cons b' bs =>
              have htext : List.intercalate (ascii ",") ((b :: b' :: bs).map f) ++ close :: rest
                  = f b ++ byte ',' ::
                    (List.intercalate (ascii ",") ((b' :: bs).map f) ++ close :: rest) := by
                rw [List.map_cons, List.intercalate_cons_of_ne_nil (by simp), List.append_assoc,
                  List.append_assoc]
                rfl
              rw [htext, hb.skip] at hitem
              have hgood := hb.back hitem
              rw [hb.reads hgood _ _ (.inl rfl)] at hitem
              obtain ⟨-, ht⟩ := Prod.mk.inj (Option.some.inj hitem)
              have hrest := hmore _ ht.symm hcomma
              rw [← has'] at hrest
              exact List.forall_mem_cons.mpr ⟨hgood,
                ih (fun c hc => hsettles c (List.mem_cons_of_mem _ hc)) fuel hrest⟩

theorem items_settle (hblank : isBlank close = false) (hcomma : close ≠ byte ',') (bs : List β)
    (hsettles : ∀ b ∈ bs, Settles item close (f b) (g b) (P b)) (rest : ByteString) :
    ((∀ b ∈ bs, P b) → items item close
      (List.intercalate (ascii ",") (bs.map f) ++ close :: rest) = some (bs.map g, rest)) ∧
    ∀ {r}, items item close (List.intercalate (ascii ",") (bs.map f) ++ close :: rest)
      = some (bs.map g, r) → ∀ b ∈ bs, P b := by
  constructor
  · intro hok
    have hreads := items_texts hblank hcomma bs (g := fun b => some (g b))
      (fun b hb => (hsettles b hb).toReads (hok b hb)) rest
    rw [hreads, show bs.mapM (fun b => some (g b)) = some (bs.map g) from List.mapM_pure]
    rfl
  · intro r h
    rw [items] at h
    split at h
    · obtain ⟨hnil, -⟩ := Prod.mk.inj (Option.some.inj h)
      rw [List.map_eq_nil_iff.mp hnil.symm]
      exact fun b hb => absurd hb List.not_mem_nil
    · exact separated_good hcomma rest bs hsettles _ h

/-! ## Arrays and objects -/

def arrayText (items : List ByteString) : ByteString :=
  ascii "[" ++ List.intercalate (ascii ",") items ++ ascii "]"

theorem settles_array {fuel : Nat} {g : β → Json} (bs : List β) (hclose : close ≠ byte '[')
    (h : ∀ b ∈ bs, Settles (value fuel) (byte ']') (f b) (g b) (P b)) :
    Settles (value (fuel + 1)) close (arrayText (bs.map f)) (.array (bs.map g))
      (∀ b ∈ bs, P b) := by
  have htext : ∀ s, arrayText (bs.map f) ++ s
      = byte '[' :: (List.intercalate (ascii ",") (bs.map f) ++ byte ']' :: s) := by
    intro s
    rw [arrayText, List.append_assoc, List.append_assoc]
    rfl
  have hitems := items_settle (by decide) (by decide) bs h
  refine ⟨⟨byte '[', List.intercalate (ascii ",") (bs.map f) ++ ascii "]", rfl, by decide,
    Ne.symm hclose⟩, fun hok c s _ => ?_, fun {s r} hread => ?_⟩
  · rw [htext, value_bracket, (hitems (c :: s)).1 hok]
    rfl
  · rw [htext, value_bracket] at hread
    obtain ⟨⟨as, r'⟩, hlist, heq⟩ := Option.map_eq_some_iff.mp hread
    obtain rfl : as = bs.map g := Json.array.inj (Prod.mk.inj heq).1
    exact (hitems s).2 hlist

theorem settles_object {fuel : Nat} {g : β → ByteString × Json} (bs : List β)
    (hclose : close ≠ byte '{')
    (h : ∀ b ∈ bs, Settles (member (value fuel)) (byte '}') (f b) (g b) (P b)) :
    Settles (value (fuel + 1)) close (objectText (bs.map f)) (.object (bs.map g))
      (∀ b ∈ bs, P b) := by
  have htext : ∀ s, objectText (bs.map f) ++ s
      = byte '{' :: (List.intercalate (ascii ",") (bs.map f) ++ byte '}' :: s) := by
    intro s
    rw [objectText, List.append_assoc, List.append_assoc]
    rfl
  have hitems := items_settle (by decide) (by decide) bs h
  refine ⟨⟨byte '{', List.intercalate (ascii ",") (bs.map f) ++ ascii "\x7d", rfl, by decide,
    Ne.symm hclose⟩, fun hok c s _ => ?_, fun {s r} hread => ?_⟩
  · rw [htext, value_brace, (hitems (c :: s)).1 hok]
    rfl
  · rw [htext, value_brace] at hread
    obtain ⟨⟨as, r'⟩, hlist, heq⟩ := Option.map_eq_some_iff.mp hread
    obtain rfl : as = bs.map g := Json.object.inj (Prod.mk.inj heq).1
    exact (hitems s).2 hlist

/-- The text of an object is the intended one exactly if it is UTF-8 and all members are good. -/
theorem decode_objectText_iff {g : β → ByteString × Json} (bs : List β) {n : Nat}
    (hn : n < (objectText (bs.map f)).length)
    (h : ∀ b ∈ bs, ∀ fuel, n ≤ fuel → Settles (member (value fuel)) (byte '}') (f b) (g b) (P b)) :
    decode (objectText (bs.map f)) = some (.object (bs.map g)) ↔
      Utf8.valid (objectText (bs.map f)) = true ∧ ∀ b ∈ bs, P b := by
  obtain ⟨fuel, hfuel⟩ := Nat.exists_eq_add_of_lt hn
  have hobject : Settles (value (n + fuel + 1)) (byte '}') (objectText (bs.map f))
      (.object (bs.map g)) (∀ b ∈ bs, P b) :=
    settles_object bs (by decide) (fun b hb => h b hb (n + fuel) (Nat.le_add_right ..))
  have htext : objectText (bs.map f)
      = byte '{' :: (List.intercalate (ascii ",") (bs.map f) ++ byte '}' :: []) := by
    rw [objectText, List.append_assoc]
    rfl
  have hitems := items_settle (by decide) (by decide) bs
    (fun b hb => h b hb (n + fuel) (Nat.le_add_right ..)) []
  have hskip : skip (objectText (bs.map f)) = objectText (bs.map f) := by
    rw [htext]
    exact skip_of_stop (by decide) _
  rw [decode]
  split
  · rename_i hvalid
    rw [hfuel, hskip, and_iff_right hvalid]
    constructor
    · intro hread
      cases hvalue : value (n + fuel + 1) (objectText (bs.map f)) with
      | none =>
          rw [hvalue] at hread
          cases hread
      | some result =>
          obtain ⟨v, rest⟩ := result
          rw [hvalue] at hread
          dsimp only at hread
          split at hread
          · obtain rfl := Option.some.inj hread
            exact hobject.back (s := []) (by rw [List.append_nil]; exact hvalue)
          · cases hread
    · intro hok
      rw [htext, value_brace, hitems.1 hok]
      rfl
  · rename_i hvalid
    exact ⟨fun hread => (by cases hread), fun hboth => absurd hboth.1 hvalid⟩

end Settles

/-! ## Texts that can be quoted -/

/-- A text that can stand between quotes. -/
def Verbatim (t : ByteString) : Prop := Utf8.valid t = true ∧ Unescaped t

instance verbatimDecidable (t : ByteString) : Decidable (Verbatim t) :=
  inferInstanceAs (Decidable (_ ∧ _))

/-- An ASCII character that stands for itself. -/
def isPlainByte (b : UInt8) : Bool := decide (b < 0x80) && standsForItself b

theorem isPlainByte_iff {b : UInt8} :
    isPlainByte b = true ↔ b < 0x80 ∧ standsForItself b = true := by
  rw [isPlainByte, Bool.and_eq_true, decide_eq_true_eq]

theorem verbatim_plain {t : ByteString} (h : ∀ b ∈ t, isPlainByte b = true) : Verbatim t :=
  ⟨Utf8.valid_ascii (fun b hb => (isPlainByte_iff.mp (h b hb)).1),
    fun b hb => (isPlainByte_iff.mp (h b hb)).2⟩

/-- Texts with a plain character between them. -/
theorem verbatim_between {b : UInt8} (hb : isPlainByte b = true) (s t : ByteString) :
    Verbatim (s ++ b :: t) ↔ Verbatim s ∧ Verbatim t := by
  obtain ⟨hascii, hself⟩ := isPlainByte_iff.mp hb
  rw [Verbatim, Utf8.valid_append_ascii hascii, Bool.and_eq_true, Unescaped, List.forall_mem_append,
    List.forall_mem_cons, and_iff_right hself]
  exact and_and_and_comm

theorem verbatim_nil : Verbatim [] := verbatim_plain (fun _ hb => absurd hb List.not_mem_nil)

theorem verbatim_before {p : ByteString} (hp : ∀ b ∈ p, isPlainByte b = true) (t : ByteString) :
    Verbatim (p ++ t) ↔ Verbatim t := by
  induction p with
  | nil => exact Iff.rfl
  | cons b p ih =>
      obtain ⟨hb, hrest⟩ := List.forall_mem_cons.mp hp
      rw [← ih hrest]
      exact (verbatim_between hb [] (p ++ t)).trans (and_iff_right verbatim_nil)

theorem verbatim_after {p : ByteString} (hp : ∀ b ∈ p, isPlainByte b = true) (t : ByteString) :
    Verbatim (t ++ p) ↔ Verbatim t := by
  cases p with
  | nil => rw [List.append_nil]
  | cons b p =>
      obtain ⟨hb, hrest⟩ := List.forall_mem_cons.mp hp
      rw [verbatim_between hb, and_iff_left (verbatim_plain hrest)]

theorem verbatim_intercalate {b : UInt8} {sep : ByteString} (hb : isPlainByte b = true)
    (hsep : ∀ c ∈ sep, isPlainByte c = true) (ts : List ByteString) :
    Verbatim (List.intercalate (b :: sep) ts) ↔ ∀ t ∈ ts, Verbatim t := by
  induction ts with
  | nil => exact iff_of_true verbatim_nil (fun _ ht => absurd ht List.not_mem_nil)
  | cons t ts ih =>
      cases ts with
      | nil => rw [List.intercalate_singleton, List.forall_mem_singleton]
      | cons t' ts =>
          rw [List.intercalate_cons_cons, List.append_assoc, List.cons_append, verbatim_between hb,
            verbatim_before hsep, ih, ← List.forall_mem_cons]

theorem plain_of_digit {b : UInt8} (h : isDigitByte b = true) : isPlainByte b = true := by
  have hall : ∀ n < 256, isDigitByte (UInt8.ofNat n) = true → isPlainByte (UInt8.ofNat n) = true := by
    decide +kernel
  have hb := hall b.toNat b.toNat_lt
  rw [UInt8.ofNat_toNat] at hb
  exact hb h

theorem verbatim_decimal (n : Nat) : Verbatim (decimal n) :=
  verbatim_plain (fun _ hb => plain_of_digit (isDigitByte_of_mem_decimal hb))

theorem verbatim_intStr (n : Int) : Verbatim (intStr n) := by
  refine verbatim_plain (fun b hb => ?_)
  rcases mem_intStr hb with rfl | hdigit
  · decide
  · exact plain_of_digit hdigit

/-! ## Objects of strings -/

/-- A string by its name, as it stands. -/
def rawMember (m : ByteString × ByteString) : ByteString :=
  memberText m.1 (ascii "\"" ++ m.2 ++ ascii "\"")

def rawObject (ms : List (ByteString × ByteString)) : ByteString := objectText (ms.map rawMember)

def stringMember (m : ByteString × ByteString) : ByteString × Json := (m.1, .string m.2)

theorem settles_rawMember (fuel : Nat) (m : ByteString × ByteString) :
    Settles (member (value (fuel + 1))) (byte '}') (rawMember m) (stringMember m)
      (Unescaped m.1 ∧ Unescaped m.2) :=
  settles_member (settles_string fuel m.2 (by decide))

theorem settles_rawObject (fuel : Nat) {close : UInt8} (hclose : close ≠ byte '{')
    (ms : List (ByteString × ByteString)) :
    Settles (value (fuel + 2)) close (rawObject ms) (.object (ms.map stringMember))
      (∀ m ∈ ms, Unescaped m.1 ∧ Unescaped m.2) :=
  settles_object ms hclose (fun m _ => settles_rawMember fuel m)

theorem valid_memberText (name v : ByteString) :
    Utf8.valid (memberText name v) = (Utf8.valid name && Utf8.valid v) := by
  have htext : memberText name v = byte '"' :: (name ++ byte '"' :: byte ':' :: v) := by
    rw [memberText, List.append_assoc, List.append_assoc]
    rfl
  rw [htext, Utf8.valid_cons_ascii (by decide), Utf8.valid_append_ascii (by decide),
    Utf8.valid_cons_ascii (by decide)]

theorem valid_arrayText (ts : List ByteString) :
    Utf8.valid (arrayText ts) = ts.all Utf8.valid := by
  have htext : arrayText ts = byte '[' :: (List.intercalate [byte ','] ts ++ byte ']' :: []) := by
    rw [arrayText, List.append_assoc]
    rfl
  rw [htext, Utf8.valid_cons_ascii (by decide), Utf8.valid_append_ascii (by decide),
    Utf8.valid_intercalate (by decide)]
  exact Bool.and_true _

theorem valid_rawMember (m : ByteString × ByteString) :
    Utf8.valid (rawMember m) = (Utf8.valid m.1 && Utf8.valid m.2) := by
  have hstring : ascii "\"" ++ m.2 ++ ascii "\"" = byte '"' :: (m.2 ++ byte '"' :: []) := by
    rw [List.append_assoc]
    rfl
  rw [rawMember, valid_memberText, hstring, Utf8.valid_cons_ascii (by decide),
    Utf8.valid_append_ascii (by decide)]
  exact congrArg _ (Bool.and_true _)

theorem valid_rawObject (ms : List (ByteString × ByteString)) :
    Utf8.valid (rawObject ms) = true ↔
      ∀ m ∈ ms, Utf8.valid m.1 = true ∧ Utf8.valid m.2 = true := by
  rw [rawObject, valid_objectText, List.all_map, List.all_eq_true]
  refine forall₂_congr (fun m _ => ?_)
  rw [Function.comp_apply, valid_rawMember, Bool.and_eq_true]

/-- An object of strings is read as them exactly if all of them can be quoted. -/
theorem decode_rawObject (ms : List (ByteString × ByteString)) :
    decode (rawObject ms) = some (.object (ms.map stringMember)) ↔
      ∀ m ∈ ms, Verbatim m.1 ∧ Verbatim m.2 := by
  have hlength : 1 < (rawObject ms).length := by
    rw [rawObject, objectText, List.length_append, List.length_append]
    exact Nat.lt_of_lt_of_le Nat.one_lt_two (Nat.add_le_add (Nat.le_add_right 1 _) (Nat.le_refl 1))
  rw [rawObject, decode_objectText_iff ms hlength (P := fun m => Unescaped m.1 ∧ Unescaped m.2)
    (fun m _ fuel hfuel => (by
      obtain ⟨fuel, rfl⟩ := Nat.exists_eq_add_of_le' hfuel
      exact settles_rawMember fuel m)), ← rawObject, valid_rawObject, ← forall₂_and]
  exact forall₂_congr (fun m _ => and_and_and_comm)

end JsonText
