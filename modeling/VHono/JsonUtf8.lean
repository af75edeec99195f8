import VHono.JsonContinuation

/-! # What is read of UTF-8 is UTF-8

    A code point that is no half of a pair is written as one character, and
    an escape stands between characters.  So the strings that are read of a
    text in UTF-8 are in UTF-8 too, down to every member of a value. -/

namespace JsonText

open ByteString

/-! ## Code points -/

theorem le_ofNat {k : UInt8} {x : Nat} (hx : x < 256) : k ≤ UInt8.ofNat x ↔ k.toNat ≤ x := by
  rw [UInt8.le_iff_toNat_le, UInt8.toNat_ofNat', Nat.mod_eq_of_lt hx]

theorem ofNat_le {k : UInt8} {x : Nat} (hx : x < 256) : UInt8.ofNat x ≤ k ↔ x ≤ k.toNat := by
  rw [UInt8.le_iff_toNat_le, UInt8.toNat_ofNat', Nat.mod_eq_of_lt hx]

theorem ofNat_lt {k : UInt8} {x : Nat} (hx : x < 256) : UInt8.ofNat x < k ↔ x < k.toNat := by
  rw [UInt8.lt_iff_toNat_lt, UInt8.toNat_ofNat', Nat.mod_eq_of_lt hx]

theorem ofNat_eq {k : UInt8} {x : Nat} (hx : x < 256) : UInt8.ofNat x = k ↔ x = k.toNat := by
  rw [← UInt8.toNat_inj, UInt8.toNat_ofNat', Nat.mod_eq_of_lt hx]

/-- The byte that is due comes, and any may come after it. -/
theorem run_due {p : Utf8.Pending} {due x : Nat} (hdue : p.due = due + 1) (hx : x < 256)
    (hlow : p.low.toNat ≤ x) (hhigh : x ≤ p.high.toNat) (s : ByteString) :
    Utf8.run p (UInt8.ofNat x :: s) = Utf8.run ⟨due, 0x80, 0xBF, by decide⟩ s := by
  have hstep : Utf8.step p (UInt8.ofNat x) = some ⟨due, 0x80, 0xBF, by decide⟩ := by
    rw [Utf8.step, hdue]
    exact if_pos ⟨(le_ofNat hx).mpr hlow, (ofNat_le hx).mpr hhigh⟩
  rw [Utf8.run, hstep]
  rfl

theorem run_lead {p : Utf8.Pending} {b : UInt8} (h : Utf8.lead b = some p) (s : ByteString) :
    Utf8.run Utf8.between (b :: s) = Utf8.run p s := by
  rw [Utf8.run, show Utf8.step Utf8.between b = Utf8.lead b from rfl, h]
  rfl

/-- What the first of two bytes begins. -/
theorem lead_two {n : Nat} (hlow : 0x80 ≤ n) (hhigh : n < 0x800) :
    ∃ p, Utf8.lead (UInt8.ofNat (0xC0 + n / 64)) = some p ∧ p.due = 1 ∧ p.low.toNat = 0x80 ∧
      p.high.toNat = 0xBF := by
  have hx : 0xC0 + n / 64 < 256 := by omega
  simp only [Utf8.lead, le_ofNat hx, ofNat_le hx, ofNat_lt hx, UInt8.reduceToNat]
  rw [if_neg (by omega), if_pos (by omega)]
  exact ⟨_, rfl, rfl, rfl, rfl⟩

/-- What the first of three begins: the second has a narrower range after `E0` and `ED`. -/
theorem lead_three {n : Nat} (hlow : 0x800 ≤ n) (hhigh : n < 0x10000)
    (hpair : ¬ (0xD800 ≤ n ∧ n < 0xE000)) :
    ∃ p, Utf8.lead (UInt8.ofNat (0xE0 + n / 4096)) = some p ∧ p.due = 2 ∧
      p.low.toNat ≤ 0x80 + n / 64 % 64 ∧ 0x80 + n / 64 % 64 ≤ p.high.toNat := by
  have hx : 0xE0 + n / 4096 < 256 := by omega
  simp only [Utf8.lead, le_ofNat hx, ofNat_le hx, ofNat_lt hx, ofNat_eq hx, UInt8.reduceToNat]
  rw [if_neg (by omega), if_neg (by omega)]
  split
  · refine ⟨_, rfl, rfl, ?_, ?_⟩
    · show 0xA0 ≤ _
      omega
    · show _ ≤ 0xBF
      omega
  · split
    · refine ⟨_, rfl, rfl, ?_, ?_⟩
      · show 0x80 ≤ _
        omega
      · show _ ≤ 0x9F
        omega
    · rw [if_pos (by omega)]
      refine ⟨_, rfl, rfl, ?_, ?_⟩
      · show 0x80 ≤ _
        omega
      · show _ ≤ 0xBF
        omega

/-- What the first of four begins: the second has a narrower range after `F0` and `F4`. -/
theorem lead_four {n : Nat} (hlow : 0x10000 ≤ n) (hhigh : n < 0x110000) :
    ∃ p, Utf8.lead (UInt8.ofNat (0xF0 + n / 262144)) = some p ∧ p.due = 3 ∧
      p.low.toNat ≤ 0x80 + n / 4096 % 64 ∧ 0x80 + n / 4096 % 64 ≤ p.high.toNat := by
  have hx : 0xF0 + n / 262144 < 256 := by omega
  simp only [Utf8.lead, le_ofNat hx, ofNat_le hx, ofNat_lt hx, ofNat_eq hx, UInt8.reduceToNat]
  rw [if_neg (by omega), if_neg (by omega), if_neg (by omega), if_neg (by omega),
    if_neg (by omega)]
  split
  · refine ⟨_, rfl, rfl, ?_, ?_⟩
    · show 0x90 ≤ _
      omega
    · show _ ≤ 0xBF
      omega
  · split
    · refine ⟨_, rfl, rfl, ?_, ?_⟩
      · show 0x80 ≤ _
        omega
      · show _ ≤ 0xBF
        omega
    · rw [if_pos (by omega)]
      refine ⟨_, rfl, rfl, ?_, ?_⟩
      · show 0x80 ≤ _
        omega
      · show _ ≤ 0x8F
        omega

/-- A code point is one character. -/
theorem run_codePoint {n : Nat} (hn : n < 0x110000) (hpair : ¬ (0xD800 ≤ n ∧ n < 0xE000))
    (s : ByteString) : Utf8.run Utf8.between (codePoint n ++ s) = Utf8.run Utf8.between s := by
  have htail : ∀ (due x : Nat) (t : ByteString),
      Utf8.run ⟨due + 1, 0x80, 0xBF, by decide⟩ (UInt8.ofNat (0x80 + x % 64) :: t)
        = Utf8.run ⟨due, 0x80, 0xBF, by decide⟩ t := by
    intro due x t
    refine run_due rfl (by omega) ?_ ?_ t
    · show 0x80 ≤ _
      omega
    · show _ ≤ 0xBF
      omega
  rw [codePoint]
  split
  · rename_i hone
    have hx : n < 256 := by omega
    have hlead : Utf8.lead (UInt8.ofNat n) = some Utf8.between :=
      if_pos ((ofNat_lt (k := 0x80) hx).mpr hone)
    exact run_lead hlead s
  · rename_i hone
    split
    · rename_i htwo
      obtain ⟨p, hp, hdue, hlow, hhigh⟩ := lead_two (by omega) htwo
      rw [List.cons_append, run_lead hp, List.cons_append, run_due hdue (by omega) (by omega)
        (by omega)]
      rfl
    · rename_i htwo
      split
      · rename_i hthree
        obtain ⟨p, hp, hdue, hlow, hhigh⟩ := lead_three (by omega) hthree hpair
        rw [List.cons_append, run_lead hp, List.cons_append, run_due hdue (by omega) hlow hhigh,
          List.cons_append, htail]
        rfl
      · rename_i hthree
        obtain ⟨p, hp, hdue, hlow, hhigh⟩ := lead_four (by omega) hn
        rw [List.cons_append, run_lead hp, List.cons_append, run_due hdue (by omega) hlow hhigh,
          List.cons_append, htail, List.cons_append, htail]
        rfl

theorem valid_codePoint {n : Nat} (hn : n < 0x110000) (hpair : ¬ (0xD800 ≤ n ∧ n < 0xE000))
    (s : ByteString) : Utf8.valid (codePoint n ++ s) = Utf8.valid s := by
  rw [Utf8.valid, run_codePoint hn hpair, Utf8.valid]

/-- A unit of its own is one character, if it is a unit of 16 bits. -/
theorem valid_loneUnit {n : Nat} (hn : n < 0x10000) (s : ByteString) :
    Utf8.valid (loneUnit n ++ s) = Utf8.valid s := by
  rw [loneUnit]
  split
  · exact valid_codePoint (by decide) (by decide) s
  · rename_i hhalf
    rw [isHigh, isLow, Bool.or_eq_true, Bool.and_eq_true, Bool.and_eq_true, decide_eq_true_eq,
      decide_eq_true_eq, decide_eq_true_eq, decide_eq_true_eq] at hhalf
    exact valid_codePoint (by omega) (by omega) s

theorem hexDigit_lt {b : UInt8} {n : Nat} (h : hexDigit b = some n) : n < 16 := by
  have hall : ∀ x < 256, ∀ m, hexDigit (UInt8.ofNat x) = some m → m < 16 := by
    intro x hx m hm
    have hbound : ∀ x < 256, (hexDigit (UInt8.ofNat x)).all (fun m => decide (m < 16)) = true := by
      decide +kernel
    have hb := hbound x hx
    rw [hm, Option.all_some, decide_eq_true_eq] at hb
    exact hb
  exact hall b.toNat b.toNat_lt n (by rw [UInt8.ofNat_toNat]; exact h)

theorem hexUnit_lt {a b c d : UInt8} {n : Nat} (h : hexUnit a b c d = some n) : n < 0x10000 := by
  rw [hexUnit] at h
  obtain ⟨na, ha, h⟩ := Option.bind_eq_some_iff.mp h
  obtain ⟨nb, hb, h⟩ := Option.bind_eq_some_iff.mp h
  obtain ⟨nc, hc, h⟩ := Option.bind_eq_some_iff.mp h
  obtain ⟨nd, hd, h⟩ := Option.bind_eq_some_iff.mp h
  have := hexDigit_lt ha
  have := hexDigit_lt hb
  have := hexDigit_lt hc
  have := hexDigit_lt hd
  have := Option.some.inj h
  omega

/-! ## Strings -/

/-- The text completes what is due. -/
def ValidFrom (p : Utf8.Pending) (s : ByteString) : Prop :=
  (Utf8.run p s).any (fun q => q.due == 0) = true

theorem validFrom_cons {p : Utf8.Pending} {b : UInt8} {s : ByteString} :
    ValidFrom p (b :: s) ↔ ∃ q, Utf8.step p b = some q ∧ ValidFrom q s := by
  rw [ValidFrom, Utf8.run]
  cases Utf8.step p b with
  | none => exact iff_of_false Bool.false_ne_true (by rintro ⟨_, ⟨⟩, -⟩)
  | some q => exact ⟨fun h => ⟨q, rfl, h⟩, fun h => h.elim (fun _ hboth => Option.some.inj hboth.1 ▸ hboth.2)⟩

/-- Where nothing is due, it is as between characters. -/
theorem validFrom_idle {p : Utf8.Pending} (h : p.due = 0) (s : ByteString) :
    ValidFrom p s ↔ Utf8.valid s = true := by
  cases s with
  | nil =>
      refine iff_of_true ?_ rfl
      show (p.due == 0) = true
      rw [h]
      rfl
  | cons b s =>
      have hstep : Utf8.step p b = Utf8.step Utf8.between b := by
        rw [Utf8.step, h]
        rfl
      show (Utf8.run p (b :: s)).any _ = true ↔ (Utf8.run Utf8.between (b :: s)).any _ = true
      rw [Utf8.run, Utf8.run, hstep]

/-- ASCII stands between characters. -/
theorem validFrom_ascii {p : Utf8.Pending} {b : UInt8} (hb : b < 0x80) {s : ByteString} :
    ValidFrom p (b :: s) ↔ p.due = 0 ∧ Utf8.valid s = true := by
  rw [validFrom_cons, Utf8.step_ascii hb]
  by_cases hdue : p.due = 0
  · rw [if_pos hdue, and_iff_right hdue]
    refine ⟨fun h => ?_, fun h => ⟨_, rfl, h⟩⟩
    obtain ⟨q, hq, hs⟩ := h
    rw [← Option.some.inj hq] at hs
    exact hs
  · rw [if_neg hdue]
    exact iff_of_false (by rintro ⟨_, ⟨⟩, -⟩) (fun h => hdue h.1)

theorem ascii_shortEscape {e c : UInt8} (h : shortEscape e = some c) : e < 0x80 ∧ c < 0x80 := by
  have hall : ∀ x < 256, (shortEscape (UInt8.ofNat x)).all
      (fun c => decide (UInt8.ofNat x < 0x80) && decide (c < 0x80)) = true := by
    decide +kernel
  have he := hall e.toNat e.toNat_lt
  rw [UInt8.ofNat_toNat, h, Option.all_some, Bool.and_eq_true, decide_eq_true_eq,
    decide_eq_true_eq] at he
  exact he

theorem ascii_hexDigit {b : UInt8} {n : Nat} (h : hexDigit b = some n) : b < 0x80 := by
  have hall : ∀ x < 256, (hexDigit (UInt8.ofNat x)).all
      (fun _ => decide (UInt8.ofNat x < 0x80)) = true := by
    decide +kernel
  have hb := hall b.toNat b.toNat_lt
  rw [UInt8.ofNat_toNat, h, Option.all_some, decide_eq_true_eq] at hb
  exact hb

theorem valid_hexUnit {a b c d : UInt8} {n : Nat} (h : hexUnit a b c d = some n)
    (s : ByteString) : Utf8.valid (a :: b :: c :: d :: s) = Utf8.valid s := by
  rw [hexUnit] at h
  obtain ⟨na, ha, h⟩ := Option.bind_eq_some_iff.mp h
  obtain ⟨nb, hb, h⟩ := Option.bind_eq_some_iff.mp h
  obtain ⟨nc, hc, h⟩ := Option.bind_eq_some_iff.mp h
  obtain ⟨nd, hd, -⟩ := Option.bind_eq_some_iff.mp h
  rw [Utf8.valid_cons_ascii (ascii_hexDigit ha), Utf8.valid_cons_ascii (ascii_hexDigit hb),
    Utf8.valid_cons_ascii (ascii_hexDigit hc), Utf8.valid_cons_ascii (ascii_hexDigit hd)]

theorem lt_of_isHigh {n : Nat} (h : isHigh n = true) : 0xD800 ≤ n ∧ n < 0xDC00 := by
  rwa [isHigh, Bool.and_eq_true, decide_eq_true_eq, decide_eq_true_eq] at h

/-- Both halves of a pair give a code point beyond the units of 16 bits. -/
theorem valid_pair {high low : Nat} (hhigh : isHigh high = true) (hlow : isLow low = true)
    (s : ByteString) :
    Utf8.valid (codePoint (0x10000 + (high - 0xD800) * 1024 + (low - 0xDC00)) ++ s)
      = Utf8.valid s := by
  have := lt_of_isHigh hhigh
  rw [isLow, Bool.and_eq_true, decide_eq_true_eq, decide_eq_true_eq] at hlow
  exact valid_codePoint (by omega) (by omega) s

/-- A string that is read of a text, from within a character or after a first half. -/
theorem valid_pieces (s : ByteString) : ∀ {ps : List Piece} {r : ByteString},
    pieces s = some (ps, r) →
      (∀ p, ValidFrom p s → ValidFrom p (joinAfter none ps) ∧ Utf8.valid r = true) ∧
      ∀ high, isHigh high = true → Utf8.valid s = true →
        Utf8.valid (joinAfter (some high) ps) = true := by
  have hslash : byte '\\' < 0x80 := by decide
  have hu : byte 'u' < 0x80 := by decide
  have hlone : ∀ {high : Nat}, isHigh high = true → ∀ t,
      Utf8.valid (loneUnit high ++ t) = Utf8.valid t := by
    intro high hhigh t
    have := lt_of_isHigh hhigh
    exact valid_loneUnit (by omega) t
  fun_induction pieces s with
  | case1 => exact fun h => (by cases h)
  | case2 s =>
      intro ps r h
      obtain ⟨rfl, rfl⟩ := Prod.mk.inj (Option.some.inj h)
      refine ⟨fun p hp => ?_, fun high hhigh _ => ?_⟩
      · obtain ⟨hdue, hs⟩ := (validFrom_ascii (show byte '"' < 0x80 by decide)).mp hp
        exact ⟨(validFrom_idle hdue []).mpr rfl, hs⟩
      · have hvalid := hlone hhigh []
        rw [List.append_nil] at hvalid
        exact hvalid
  | case3 => exact fun h => (by cases h)
  | case4 e s c hescape _ ih =>
      intro ps r h
      obtain ⟨ps', hps, rfl⟩ := pieces_rest h
      obtain ⟨hread, -⟩ := ih hps
      obtain ⟨he, hc⟩ := ascii_shortEscape hescape
      refine ⟨fun p hp => ?_, fun high hhigh hs => ?_⟩
      · obtain ⟨hdue, hs⟩ := (validFrom_ascii hslash).mp hp
        rw [Utf8.valid_cons_ascii he] at hs
        obtain ⟨hjoin, hr⟩ := hread Utf8.between hs
        exact ⟨(validFrom_ascii hc).mpr ⟨hdue, hjoin⟩, hr⟩
      · rw [Utf8.valid_cons_ascii hslash, Utf8.valid_cons_ascii he] at hs
        rw [joinAfter, hlone hhigh, Utf8.valid_cons_ascii hc]
        exact (hread Utf8.between hs).1
  | case5 h₁ h₂ h₃ h₄ s n hunit _ _ ih =>
      intro ps r h
      obtain ⟨ps', hps, rfl⟩ := pieces_rest h
      obtain ⟨hread, hafter⟩ := ih hps
      have hn := hexUnit_lt hunit
      refine ⟨fun p hp => ?_, fun high hhigh hs => ?_⟩
      · obtain ⟨hdue, hs⟩ := (validFrom_ascii hslash).mp hp
        rw [Utf8.valid_cons_ascii hu, valid_hexUnit hunit] at hs
        obtain ⟨hjoin, hr⟩ := hread Utf8.between hs
        rw [validFrom_idle hdue, joinAfter]
        refine ⟨?_, hr⟩
        split
        · rename_i hfirst
          exact hafter n hfirst hs
        · rw [valid_loneUnit hn]
          exact hjoin
      · rw [Utf8.valid_cons_ascii hslash, Utf8.valid_cons_ascii hu, valid_hexUnit hunit] at hs
        obtain ⟨hjoin, -⟩ := hread Utf8.between hs
        rw [joinAfter]
        split
        · rename_i hsecond
          rw [valid_pair hhigh hsecond]
          exact hjoin
        · split
          · rename_i hfirst
            rw [hlone hhigh]
            exact hafter n hfirst hs
          · rw [List.append_assoc, hlone hhigh, valid_loneUnit hn]
            exact hjoin
  | case6 => exact fun h => (by cases h)
  | case7 => exact fun h => (by cases h)
  | case8 => exact fun h => (by cases h)
  | case9 => exact fun h => (by cases h)
  | case10 b s _ _ _ ih =>
      intro ps r h
      obtain ⟨ps', hps, rfl⟩ := pieces_rest h
      obtain ⟨hread, -⟩ := ih hps
      refine ⟨fun p hp => ?_, fun high hhigh hs => ?_⟩
      · obtain ⟨q, hstep, hq⟩ := validFrom_cons.mp hp
        obtain ⟨hjoin, hr⟩ := hread q hq
        exact ⟨validFrom_cons.mpr ⟨q, hstep, hjoin⟩, hr⟩
      · obtain ⟨q, hstep, hq⟩ := validFrom_cons.mp (show ValidFrom Utf8.between (b :: s) from hs)
        rw [joinAfter, hlone hhigh]
        exact validFrom_cons.mpr ⟨q, hstep, (hread q hq).1⟩

theorem valid_text {s a r : ByteString} (hs : Utf8.valid s = true) (h : text s = some (a, r)) :
    Utf8.valid a = true ∧ Utf8.valid r = true := by
  obtain ⟨⟨ps, r'⟩, hpieces, heq⟩ := Option.map_eq_some_iff.mp h
  obtain ⟨rfl, rfl⟩ := Prod.mk.inj heq
  exact (valid_pieces s hpieces).1 Utf8.between hs

/-! ## Values -/

/-- Every string in the value is UTF-8. -/
inductive IsUtf8 : Json → Prop
  | null : IsUtf8 .null
  | bool (b : Bool) : IsUtf8 (.bool b)
  | integer (n : Int) : IsUtf8 (.integer n)
  | real (literal : ByteString) : IsUtf8 (.real literal)
  | string {s : ByteString} (h : Utf8.valid s = true) : IsUtf8 (.string s)
  | array {items : List Json} (h : ∀ v ∈ items, IsUtf8 v) : IsUtf8 (.array items)
  | object {members : List (ByteString × Json)} (names : ∀ m ∈ members, Utf8.valid m.1 = true)
      (values : ∀ m ∈ members, IsUtf8 m.2) : IsUtf8 (.object members)

/-- What is read of UTF-8 has a property, and leaves UTF-8. -/
def ReadsUtf8 {α : Type} (item : ByteString → Option (α × ByteString)) (good : α → Prop) : Prop :=
  ∀ s a r, Utf8.valid s = true → item s = some (a, r) → good a ∧ Utf8.valid r = true

theorem valid_dropWhile {test : UInt8 → Bool} (htest : ∀ b, test b = true → b < 0x80)
    (s : ByteString) : Utf8.valid (s.dropWhile test) = Utf8.valid s := by
  induction s with
  | nil => rfl
  | cons b s ih =>
      by_cases hb : test b = true
      · rw [List.dropWhile_cons_of_pos hb, ih, Utf8.valid_cons_ascii (htest b hb)]
      · rw [List.dropWhile_cons_of_neg hb]

theorem ascii_isBlank (b : UInt8) (h : isBlank b = true) : b < 0x80 := by
  simp only [isBlank, Bool.or_eq_true, beq_iff_eq] at h
  rcases h with ((rfl | rfl) | rfl) | rfl <;> decide

theorem valid_skip (s : ByteString) : Utf8.valid (skip s) = Utf8.valid s :=
  valid_dropWhile ascii_isBlank s

theorem valid_expect {c : UInt8} (hc : c < 0x80) {s t : ByteString} (hs : Utf8.valid s = true)
    (h : expect c s = some t) : Utf8.valid t = true := by
  rw [expect.eq_def] at h
  rw [← valid_skip] at hs
  split at h
  · rename_i d u hskip
    split at h
    · rename_i hd
      rw [hskip, hd, Utf8.valid_cons_ascii hc, Option.some.inj h] at hs
      exact hs
    · cases h
  · cases h

section Items

variable {α : Type} {item : ByteString → Option (α × ByteString)} {good : α → Prop} {close : UInt8}

theorem readsUtf8_separated (hclose : close < 0x80) (h : ReadsUtf8 item good) (fuel : Nat) :
    ReadsUtf8 (separated item close fuel) (fun as => ∀ a ∈ as, good a) := by
  induction fuel with
  | zero =>
      intro s as r _ hread
      cases hread
  | succ fuel ih =>
      intro s as r hs hread
      rw [separated] at hread
      obtain ⟨⟨a, t⟩, hitem, hread⟩ := Option.bind_eq_some_iff.mp hread
      rw [← valid_skip] at hs
      obtain ⟨ha, ht⟩ := h _ _ _ hs hitem
      rw [← valid_skip] at ht
      dsimp only at hread
      split at hread
      · cases hread
      · rename_i c u hskip
        rw [hskip] at ht
        split at hread
        · rename_i hend
          obtain ⟨rfl, rfl⟩ := Prod.mk.inj (Option.some.inj hread)
          rw [hend, Utf8.valid_cons_ascii hclose] at ht
          exact ⟨List.forall_mem_singleton.mpr ha, ht⟩
        · split at hread
          · rename_i hcomma
            obtain ⟨⟨as', r'⟩, hmore, heq⟩ := Option.map_eq_some_iff.mp hread
            obtain ⟨rfl, rfl⟩ := Prod.mk.inj heq
            rw [hcomma, Utf8.valid_cons_ascii (by decide)] at ht
            obtain ⟨has, hr⟩ := ih _ _ _ ht hmore
            exact ⟨List.forall_mem_cons.mpr ⟨ha, has⟩, hr⟩
          · cases hread

theorem readsUtf8_items (hclose : close < 0x80) (h : ReadsUtf8 item good) :
    ReadsUtf8 (items item close) (fun as => ∀ a ∈ as, good a) := by
  intro s as r hs hread
  rw [items] at hread
  split at hread
  · rename_i t hexpect
    obtain ⟨rfl, rfl⟩ := Prod.mk.inj (Option.some.inj hread)
    exact ⟨fun a ha => absurd ha List.not_mem_nil, valid_expect hclose hs hexpect⟩
  · exact readsUtf8_separated hclose h _ _ _ _ hs hread

end Items

theorem readsUtf8_member {item : ByteString → Option (Json × ByteString)}
    (h : ReadsUtf8 item IsUtf8) :
    ReadsUtf8 (member item) (fun m => Utf8.valid m.1 = true ∧ IsUtf8 m.2) := by
  intro s m r hs hread
  rw [member] at hread
  obtain ⟨s₁, hquote, hread⟩ := Option.bind_eq_some_iff.mp hread
  obtain ⟨⟨name, s₂⟩, hname, hread⟩ := Option.bind_eq_some_iff.mp hread
  obtain ⟨s₃, hcolon, hread⟩ := Option.bind_eq_some_iff.mp hread
  obtain ⟨⟨v, s₄⟩, hvalue, heq⟩ := Option.bind_eq_some_iff.mp hread
  obtain ⟨rfl, rfl⟩ := Prod.mk.inj (Option.some.inj heq)
  obtain ⟨hn, hs₂⟩ := valid_text (valid_expect (by decide) hs hquote) hname
  have hs₃ := valid_expect (by decide) hs₂ hcolon
  rw [← valid_skip] at hs₃
  obtain ⟨hv, hs₄⟩ := h _ _ _ hs₃ hvalue
  exact ⟨⟨hn, hv⟩, hs₄⟩

theorem valid_digits (s : ByteString) :
    Utf8.valid (s.dropWhile isDigitByte) = Utf8.valid s := by
  refine valid_dropWhile (fun b hb => ?_) s
  rw [isDigitByte, Bool.and_eq_true, decide_eq_true_eq, decide_eq_true_eq] at hb
  exact UInt8.lt_of_le_of_lt hb.2 (by decide)

theorem valid_fraction {s f t : ByteString} (h : fraction s = some (f, t)) :
    Utf8.valid t = Utf8.valid s := by
  cases s with
  | nil => rw [(fraction_nil_left h rfl).2]
  | cons c u =>
      rw [fraction] at h
      split at h
      · rw [← (Prod.mk.inj (Option.some.inj h)).2]
      · rename_i hdot
        split at h
        · cases h
        · rw [← (Prod.mk.inj (Option.some.inj h)).2, valid_digits, not_not.mp hdot,
            Utf8.valid_cons_ascii (by decide)]

theorem valid_exponent {s e t : ByteString} (h : exponent s = some (e, t)) :
    Utf8.valid t = Utf8.valid s := by
  cases s with
  | nil => rw [(exponent_nil_left h rfl).2]
  | cons c u =>
      rw [exponent] at h
      split at h
      · rw [← (Prod.mk.inj (Option.some.inj h)).2]
      · rename_i hletter
        have hc : c < 0x80 := by
          rcases not_and_or.mp hletter with he | hE
          · rw [not_not.mp he]
            decide
          · rw [not_not.mp hE]
            decide
        dsimp only at h
        rw [Utf8.valid_cons_ascii hc]
        split at h
        · rename_i hsign
          split at h
          · cases h
          · rw [← (Prod.mk.inj (Option.some.inj h)).2, valid_digits]
            rw [Bool.or_eq_true, startsWith_iff, startsWith_iff] at hsign
            rcases hsign with ⟨w, rfl⟩ | ⟨w, rfl⟩
            · exact (Utf8.valid_cons_ascii (b := byte '+') (by decide) w).symm
            · exact (Utf8.valid_cons_ascii (b := byte '-') (by decide) w).symm
        · split at h
          · cases h
          · rw [← (Prod.mk.inj (Option.some.inj h)).2, valid_digits]
            rfl

theorem readsUtf8_unsigned (negative : Bool) : ReadsUtf8 (unsigned negative) IsUtf8 := by
  intro s v r hs h
  rw [unsigned] at h
  dsimp only at h
  split at h
  · cases h
  · obtain ⟨⟨f, t⟩, hfraction, h⟩ := Option.bind_eq_some_iff.mp h
    obtain ⟨⟨e, t'⟩, hexponent, h⟩ := Option.bind_eq_some_iff.mp h
    dsimp only at hexponent h
    have ht' : Utf8.valid t' = true := by
      rw [valid_exponent hexponent, valid_fraction hfraction, valid_digits, hs]
    split at h
    · obtain ⟨rfl, rfl⟩ := Prod.mk.inj (Option.some.inj h)
      exact ⟨.integer _, ht'⟩
    · obtain ⟨rfl, rfl⟩ := Prod.mk.inj (Option.some.inj h)
      exact ⟨.real _, ht'⟩

theorem readsUtf8_number : ReadsUtf8 number IsUtf8 := by
  intro s v r hs h
  rw [number] at h
  split at h
  · rename_i hminus
    obtain ⟨t, rfl⟩ := startsWith_iff.mp hminus
    have ht : Utf8.valid (byte '-' :: t) = true := hs
    rw [Utf8.valid_cons_ascii (by decide)] at ht
    exact readsUtf8_unsigned true t v r ht h
  · exact readsUtf8_unsigned false s v r hs h

/-- What is read of UTF-8 is UTF-8 throughout. -/
theorem readsUtf8_value (fuel : Nat) : ReadsUtf8 (value fuel) IsUtf8 := by
  induction fuel with
  | zero =>
      intro s v r _ h
      cases h
  | succ fuel ih =>
      intro s v r hs h
      have hword : ∀ {pat t : ByteString}, (∀ b ∈ pat, b < 0x80) →
          Utf8.valid (pat ++ t) = true → Utf8.valid t = true := by
        intro pat t hpat hvalid
        induction pat with
        | nil => exact hvalid
        | cons b pat ihpat =>
            obtain ⟨hb, hrest⟩ := List.forall_mem_cons.mp hpat
            rw [List.cons_append, Utf8.valid_cons_ascii hb] at hvalid
            exact ihpat hrest hvalid
      rcases value_cases h with
        ⟨t, rfl⟩ | ⟨t, rfl⟩ | ⟨t, rfl⟩ | ⟨t, rfl⟩ | ⟨t, rfl⟩ | ⟨t, rfl⟩ | hnumber
      · rw [value_quote] at h
        obtain ⟨⟨a, r'⟩, htext, heq⟩ := Option.map_eq_some_iff.mp h
        obtain ⟨rfl, rfl⟩ := Prod.mk.inj heq
        rw [Utf8.valid_cons_ascii (by decide)] at hs
        obtain ⟨ha, hr⟩ := valid_text hs htext
        exact ⟨.string ha, hr⟩
      · rw [value_brace] at h
        obtain ⟨⟨ms, r'⟩, hitems, heq⟩ := Option.map_eq_some_iff.mp h
        obtain ⟨rfl, rfl⟩ := Prod.mk.inj heq
        rw [Utf8.valid_cons_ascii (by decide)] at hs
        obtain ⟨hms, hr⟩ := readsUtf8_items (by decide) (readsUtf8_member ih) _ _ _ hs hitems
        exact ⟨.object (fun m hm => (hms m hm).1) (fun m hm => (hms m hm).2), hr⟩
      · rw [value_bracket] at h
        obtain ⟨⟨as, r'⟩, hitems, heq⟩ := Option.map_eq_some_iff.mp h
        obtain ⟨rfl, rfl⟩ := Prod.mk.inj heq
        rw [Utf8.valid_cons_ascii (by decide)] at hs
        obtain ⟨has, hr⟩ := readsUtf8_items (by decide) ih _ _ _ hs hitems
        exact ⟨.array has, hr⟩
      · rw [value_null] at h
        obtain ⟨rfl, rfl⟩ := Prod.mk.inj (Option.some.inj h)
        exact ⟨.null, hword (by decide) hs⟩
      · rw [value_true] at h
        obtain ⟨rfl, rfl⟩ := Prod.mk.inj (Option.some.inj h)
        exact ⟨.bool true, hword (by decide) hs⟩
      · rw [value_false] at h
        obtain ⟨rfl, rfl⟩ := Prod.mk.inj (Option.some.inj h)
        exact ⟨.bool false, hword (by decide) hs⟩
      · exact readsUtf8_number s v r hs hnumber

/-- **UTF-8.**  Every string of a value that a text is decoded to is UTF-8. -/
theorem isUtf8_of_decode {s : ByteString} {v : Json} (h : decode s = some v) : IsUtf8 v := by
  rw [decode] at h
  split at h
  · rename_i hs
    split at h
    · rename_i v' rest hread
      split at h
      · rw [← valid_skip] at hs
        rw [← Option.some.inj h]
        exact (readsUtf8_value _ _ _ _ hs hread).1
      · cases h
    · cases h
  · cases h

end JsonText
