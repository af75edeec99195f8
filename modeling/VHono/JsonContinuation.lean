import VHono.RawTexts

/-! # Texts that go on

    What is read of a text is read of every longer one, and what follows is
    left as well.  Only a number looks at the character after it, so where it
    is read to the end of the text, the continuation must not go on with it. -/

namespace JsonText

open ByteString

/-- The text goes on with the characters, which go on with no number that ends it. -/
def GoesOn (r x : ByteString) : Prop := r = [] → Stops x

/-! ## Strings -/

theorem pieces_append (s x : ByteString) : ∀ {ps : List Piece} {r : ByteString},
    pieces s = some (ps, r) → pieces (s ++ x) = some (ps, r ++ x) := by
  have hrest : ∀ {p : Piece} {q q' : Option (List Piece × ByteString)} {ps r},
      (∀ {ps r}, q = some (ps, r) → q' = some (ps, r ++ x)) →
      q.map (fun r => (p :: r.1, r.2)) = some (ps, r) →
      q'.map (fun r => (p :: r.1, r.2)) = some (ps, r ++ x) := by
    intro p q q' ps r hq h
    obtain ⟨⟨ps', r'⟩, hread, heq⟩ := Option.map_eq_some_iff.mp h
    obtain ⟨rfl, rfl⟩ := Prod.mk.inj heq
    rw [hq hread]
    rfl
  fun_induction pieces s with
  | case1 => exact fun h => (by cases h)
  | case2 s =>
      intro ps r h
      obtain ⟨rfl, rfl⟩ := Prod.mk.inj (Option.some.inj h)
      rw [List.cons_append, pieces.eq_def]
      exact if_pos rfl
  | case3 => exact fun h => (by cases h)
  | case4 e s c hescape hslash ih =>
      intro ps r h
      rw [List.cons_append, pieces.eq_def]
      simp only [if_neg hslash, if_true, List.cons_append, hescape]
      exact hrest ih h
  | case5 h₁ h₂ h₃ h₄ s n hunit hslash hescape ih =>
      intro ps r h
      rw [List.cons_append, pieces.eq_def]
      simp only [if_neg hslash, if_true, List.cons_append, hescape, hunit]
      exact hrest ih h
  | case6 => exact fun h => (by cases h)
  | case7 => exact fun h => (by cases h)
  | case8 => exact fun h => (by cases h)
  | case9 => exact fun h => (by cases h)
  | case10 b s hquote hslash hcontrol ih =>
      intro ps r h
      rw [List.cons_append, pieces.eq_def]
      simp only [if_neg hquote, if_neg hslash, if_neg hcontrol]
      exact hrest ih h

theorem text_append {s a r : ByteString} (x : ByteString) (h : text s = some (a, r)) :
    text (s ++ x) = some (a, r ++ x) := by
  obtain ⟨⟨ps, r'⟩, hpieces, heq⟩ := Option.map_eq_some_iff.mp h
  obtain ⟨rfl, rfl⟩ := Prod.mk.inj heq
  rw [text, pieces_append s x hpieces]
  rfl

/-! ## Numbers -/

theorem Stops.head {x : ByteString} (h : Stops x) : ∃ c t, x = c :: t ∧ isDigitByte c = false := by
  obtain ⟨c, t, hx, hc, -⟩ := h
  exact ⟨c, t, hx, hc⟩

/-- Digits end where they ended, or where the continuation has none. -/
theorem digits_append {s x : ByteString} (h : GoesOn (s.dropWhile isDigitByte) x) :
    (s ++ x).takeWhile isDigitByte = s.takeWhile isDigitByte ∧
      (s ++ x).dropWhile isDigitByte = s.dropWhile isDigitByte ++ x := by
  induction s with
  | nil =>
      obtain ⟨c, t, rfl, hc⟩ := (h rfl).head
      have hstop : ¬ isDigitByte c = true := by rw [hc]; exact Bool.false_ne_true
      exact ⟨List.takeWhile_cons_of_neg hstop, List.dropWhile_cons_of_neg hstop⟩
  | cons b s ih =>
      by_cases hb : isDigitByte b = true
      · rw [List.dropWhile_cons_of_pos hb] at h ⊢
        obtain ⟨htake, hdrop⟩ := ih h
        rw [List.cons_append, List.takeWhile_cons_of_pos hb, List.takeWhile_cons_of_pos hb, htake,
          List.dropWhile_cons_of_pos hb]
        exact ⟨rfl, hdrop⟩
      · rw [List.cons_append, List.takeWhile_cons_of_neg hb, List.takeWhile_cons_of_neg hb,
          List.dropWhile_cons_of_neg hb, List.dropWhile_cons_of_neg hb]
        exact ⟨rfl, rfl⟩

theorem fraction_append {s f t x : ByteString} (h : fraction s = some (f, t)) (hx : GoesOn t x) :
    fraction (s ++ x) = some (f, t ++ x) := by
  cases s with
  | nil =>
      obtain ⟨rfl, rfl⟩ := Prod.mk.inj (Option.some.inj h)
      exact fraction_stops (hx rfl)
  | cons c u =>
      rw [fraction] at h
      rw [List.cons_append, fraction]
      split at h
      · rename_i hdot
        obtain ⟨rfl, rfl⟩ := Prod.mk.inj (Option.some.inj h)
        rw [if_pos hdot]
        rfl
      · rename_i hdot
        split at h
        · cases h
        · rename_i hdigits
          obtain ⟨rfl, rfl⟩ := Prod.mk.inj (Option.some.inj h)
          obtain ⟨htake, hdrop⟩ := digits_append hx
          rw [if_neg hdot, htake, hdrop, if_neg hdigits]

theorem exponent_append {s e t x : ByteString} (h : exponent s = some (e, t)) (hx : GoesOn t x) :
    exponent (s ++ x) = some (e, t ++ x) := by
  cases s with
  | nil =>
      obtain ⟨rfl, rfl⟩ := Prod.mk.inj (Option.some.inj h)
      exact exponent_stops (hx rfl)
  | cons c u =>
      rw [exponent] at h
      rw [List.cons_append, exponent]
      split at h
      · rename_i hletter
        obtain ⟨rfl, rfl⟩ := Prod.mk.inj (Option.some.inj h)
        rw [if_pos hletter]
        rfl
      · rename_i hletter
        rw [if_neg hletter]
        dsimp only at h ⊢
        cases u with
        | nil =>
            rw [List.take_nil, List.drop_nil, List.takeWhile_nil, if_pos rfl] at h
            cases h
        | cons b u =>
            -- the first character tells whether there is a sign
            have hone : ∀ v d, startsWith (b :: v) [d] = (d == b) := by
              intro v d
              rw [startsWith_cons, startsWith_nil, Bool.and_true]
            have hsign : ∀ v, (startsWith (b :: v) (ascii "+") || startsWith (b :: v) (ascii "-"))
                = (byte '+' == b || byte '-' == b) := fun v => congrArg₂ _ (hone v _) (hone v _)
            rw [List.cons_append, hsign]
            rw [hsign] at h
            by_cases hb : (byte '+' == b || byte '-' == b) = true
            · rw [if_pos hb] at h ⊢
              rw [List.take_succ_cons, List.take_zero] at h ⊢
              rw [List.length_singleton, List.drop_succ_cons, List.drop_zero] at h ⊢
              split at h
              · cases h
              · rename_i hdigits
                obtain ⟨rfl, rfl⟩ := Prod.mk.inj (Option.some.inj h)
                obtain ⟨htake, hdrop⟩ := digits_append hx
                rw [htake, hdrop, if_neg hdigits]
            · rw [if_neg hb] at h ⊢
              rw [List.take_zero, List.length_nil, List.drop_zero] at h ⊢
              split at h
              · cases h
              · rename_i hdigits
                obtain ⟨rfl, rfl⟩ := Prod.mk.inj (Option.some.inj h)
                obtain ⟨htake, hdrop⟩ := digits_append hx
                rw [← List.cons_append, htake, hdrop, if_neg hdigits]

theorem fraction_nil_left {f t : ByteString} {s : ByteString} (h : fraction s = some (f, t))
    (hs : s = []) : f = [] ∧ t = [] := by
  rw [hs] at h
  obtain ⟨rfl, rfl⟩ := Prod.mk.inj (Option.some.inj h)
  exact ⟨rfl, rfl⟩

theorem exponent_nil_left {e t : ByteString} {s : ByteString} (h : exponent s = some (e, t))
    (hs : s = []) : e = [] ∧ t = [] := by
  rw [hs] at h
  obtain ⟨rfl, rfl⟩ := Prod.mk.inj (Option.some.inj h)
  exact ⟨rfl, rfl⟩

theorem unsigned_append {negative : Bool} {s x r : ByteString} {v : Json}
    (h : unsigned negative s = some (v, r)) (hx : GoesOn r x) :
    unsigned negative (s ++ x) = some (v, r ++ x) := by
  rw [unsigned] at h
  dsimp only at h
  split at h
  · cases h
  · rename_i hwhole
    obtain ⟨⟨f, t⟩, hfraction, h⟩ := Option.bind_eq_some_iff.mp h
    obtain ⟨⟨e, t'⟩, hexponent, h⟩ := Option.bind_eq_some_iff.mp h
    dsimp only at hexponent h
    have hrest : r = t' := by
      split at h
      · exact (Prod.mk.inj (Option.some.inj h)).2.symm
      · exact (Prod.mk.inj (Option.some.inj h)).2.symm
    rw [hrest] at hx
    have hx' : GoesOn t x := fun ht => hx (exponent_nil_left hexponent ht).2
    have hx'' : GoesOn (s.dropWhile isDigitByte) x :=
      fun hs => hx' (fraction_nil_left hfraction hs).2
    obtain ⟨htake, hdrop⟩ := digits_append hx''
    rw [unsigned]
    dsimp only
    rw [htake, hdrop, if_neg hwhole, fraction_append hfraction hx']
    show (exponent (t ++ x)).bind _ = _
    rw [exponent_append hexponent hx]
    show (if f = [] ∧ e = [] then _ else _) = _
    split at h
    · rename_i hint
      rw [if_pos hint, ← (Prod.mk.inj (Option.some.inj h)).1, hrest]
    · rename_i hint
      rw [if_neg hint, ← (Prod.mk.inj (Option.some.inj h)).1, hrest]

theorem number_append {s x r : ByteString} {v : Json} (h : number s = some (v, r))
    (hx : GoesOn r x) : number (s ++ x) = some (v, r ++ x) := by
  rw [number] at h
  cases s with
  | nil => cases h
  | cons b s =>
      have hsign : startsWith (b :: (s ++ x)) (ascii "-") = startsWith (b :: s) (ascii "-") := by
        show startsWith (b :: (s ++ x)) [byte '-'] = startsWith (b :: s) [byte '-']
        rw [startsWith_cons, startsWith_cons, startsWith_nil, startsWith_nil]
      rw [List.cons_append, number, hsign]
      split at h
      · rename_i hminus
        rw [if_pos hminus]
        exact unsigned_append h hx
      · rename_i hminus
        rw [if_neg hminus]
        exact unsigned_append h hx

/-! ## Items -/

/-- What one reader reads of a text, the other reads of the longer one. -/
structure Extends {α : Type} (x : ByteString) (item item' : ByteString → Option (α × ByteString)) :
    Prop where
  nothing : item [] = none
  reads   : ∀ {s a r}, item s = some (a, r) → GoesOn r x → item' (s ++ x) = some (a, r ++ x)

theorem skip_append {s : ByteString} (h : skip s ≠ []) (x : ByteString) :
    skip (s ++ x) = skip s ++ x := by
  induction s with
  | nil => exact absurd rfl h
  | cons b s ih =>
      by_cases hb : isBlank b = true
      · have hblank : ∀ t, skip (b :: t) = skip t := fun t => List.dropWhile_cons_of_pos hb
        rw [hblank] at h
        rw [List.cons_append, hblank, hblank, ih h]
      · have hstop := skip_of_stop (Bool.eq_false_iff.mpr hb)
        rw [List.cons_append, hstop, hstop, List.cons_append]

theorem expect_append {c : UInt8} {s t : ByteString} (h : expect c s = some t) (x : ByteString) :
    expect c (s ++ x) = some (t ++ x) := by
  rw [expect.eq_def] at h
  split at h
  · rename_i d u hskip
    have hne : skip s ≠ [] := by
      rw [hskip]
      exact List.cons_ne_nil d u
    split at h
    · rename_i hd
      rw [expect, skip_append hne, hskip, ← Option.some.inj h]
      exact if_pos hd
    · cases h
  · cases h

theorem expect_none_append {c : UInt8} {s : ByteString} (h : expect c s = none)
    (hne : skip s ≠ []) (x : ByteString) : expect c (s ++ x) = none := by
  rw [expect.eq_def] at h
  split at h
  · rename_i d u hskip
    split at h
    · cases h
    · rename_i hd
      rw [expect, skip_append hne, hskip]
      exact if_neg hd
  · rename_i hskip
    exact absurd hskip hne

section Items

variable {α : Type} {x : ByteString} {item item' : ByteString → Option (α × ByteString)}
variable {close : UInt8}

theorem Extends.skip (h : Extends x item item') {s r : ByteString} {a : α}
    (hread : item (JsonText.skip s) = some (a, r)) :
    JsonText.skip (s ++ x) = JsonText.skip s ++ x := by
  refine skip_append (fun hnil => ?_) x
  rw [hnil, h.nothing] at hread
  cases hread

theorem separated_append (h : Extends x item item') : ∀ {fuel fuel' : Nat} {s as r},
    fuel ≤ fuel' → separated item close fuel s = some (as, r) →
      separated item' close fuel' (s ++ x) = some (as, r ++ x) := by
  intro fuel
  induction fuel with
  | zero =>
      intro fuel' s as r _ hread
      cases hread
  | succ fuel ih =>
      intro fuel' s as r hfuel hread
      obtain ⟨fuel', rfl⟩ := Nat.exists_eq_add_of_le' (Nat.lt_of_lt_of_le (Nat.succ_pos _) hfuel)
      rw [separated] at hread
      obtain ⟨⟨a, t⟩, hitem, hread⟩ := Option.bind_eq_some_iff.mp hread
      dsimp only at hread
      have hskip := h.skip hitem
      cases hnext : JsonText.skip t with
      | nil =>
          rw [hnext] at hread
          cases hread
      | cons c u =>
          have hne : JsonText.skip t ≠ [] := by
            rw [hnext]
            exact List.cons_ne_nil c u
          have hgoes : GoesOn t x := by
            rintro rfl
            exact absurd rfl hne
          rw [hnext] at hread
          dsimp only at hread
          rw [separated, hskip, h.reads hitem hgoes, Option.bind_eq_bind, Option.bind_some]
          dsimp only
          rw [skip_append hne, hnext, List.cons_append]
          dsimp only
          split at hread
          · rename_i hclose
            obtain ⟨rfl, rfl⟩ := Prod.mk.inj (Option.some.inj hread)
            rw [if_pos hclose]
          · rename_i hclose
            rw [if_neg hclose]
            split at hread
            · rename_i hcomma
              obtain ⟨⟨as', r'⟩, hmore, heq⟩ := Option.map_eq_some_iff.mp hread
              obtain ⟨rfl, rfl⟩ := Prod.mk.inj heq
              rw [if_pos hcomma, ih (Nat.le_of_succ_le_succ hfuel) hmore]
              rfl
            · cases hread

theorem items_append (h : Extends x item item') {s as r}
    (hread : items item close s = some (as, r)) :
    items item' close (s ++ x) = some (as, r ++ x) := by
  rw [items] at hread
  cases hexpect : expect close s with
  | some t =>
      rw [hexpect] at hread
      obtain ⟨rfl, rfl⟩ := Prod.mk.inj (Option.some.inj hread)
      rw [items, expect_append hexpect]
  | none =>
      rw [hexpect] at hread
      dsimp only at hread
      have hne : JsonText.skip s ≠ [] := by
        intro hnil
        cases hlength : s.length with
        | zero =>
            rw [hlength] at hread
            cases hread
        | succ n =>
            rw [hlength, separated, hnil, h.nothing] at hread
            cases hread
      rw [items, expect_none_append hexpect hne]
      exact separated_append h (by rw [List.length_append]; exact Nat.le_add_right ..) hread

end Items

theorem member_append {x : ByteString} {item item' : ByteString → Option (Json × ByteString)}
    (h : Extends x item item') : Extends x (member item) (member item') := by
  refine ⟨rfl, fun {s m r} hread hx => ?_⟩
  rw [member] at hread
  obtain ⟨s₁, hquote, hread⟩ := Option.bind_eq_some_iff.mp hread
  obtain ⟨⟨name, s₂⟩, hname, hread⟩ := Option.bind_eq_some_iff.mp hread
  obtain ⟨s₃, hcolon, hread⟩ := Option.bind_eq_some_iff.mp hread
  obtain ⟨⟨v, s₄⟩, hvalue, heq⟩ := Option.bind_eq_some_iff.mp hread
  obtain ⟨rfl, rfl⟩ := Prod.mk.inj (Option.some.inj heq)
  rw [member, expect_append hquote, Option.bind_eq_bind, Option.bind_some, text_append x hname,
    Option.bind_eq_bind, Option.bind_some]
  dsimp only
  rw [expect_append hcolon, Option.bind_eq_bind, Option.bind_some, h.skip hvalue,
    h.reads hvalue hx]
  rfl

/-! ## Values -/

/-- What begins a number. -/
theorem number_head {s r : ByteString} {v : Json} (h : number s = some (v, r)) :
    ∃ c t, s = c :: t ∧ (c = byte '-' ∨ isDigitByte c = true) := by
  cases s with
  | nil => cases h
  | cons c t =>
      refine ⟨c, t, rfl, ?_⟩
      rw [number] at h
      split at h
      · rename_i hminus
        have hsign : (byte '-' == c) = true := by
          have hone : startsWith (c :: t) [byte '-'] = (byte '-' == c) := by
            rw [startsWith_cons, startsWith_nil, Bool.and_true]
          rw [← hone]
          exact hminus
        exact .inl (beq_iff_eq.mp hsign).symm
      · right
        by_contra hdigit
        rw [unsigned, List.takeWhile_cons_of_neg hdigit] at h
        cases h

/-- What is read at the first character: a string, an object, an array, a word or a number. -/
theorem value_cases {fuel : Nat} {s r : ByteString} {v : Json}
    (h : value (fuel + 1) s = some (v, r)) :
    (∃ t, s = byte '"' :: t) ∨ (∃ t, s = byte '{' :: t) ∨ (∃ t, s = byte '[' :: t) ∨
      (∃ t, s = ascii "null" ++ t) ∨ (∃ t, s = ascii "true" ++ t) ∨ (∃ t, s = ascii "false" ++ t) ∨
      number s = some (v, r) := by
  cases s with
  | nil => cases h
  | cons c t =>
      have hword : ∀ pat, startsWith (c :: t) pat = true → ∃ u, c :: t = pat ++ u := by
        intro pat hpat
        obtain ⟨u, hu⟩ := startsWith_iff.mp hpat
        exact ⟨u, hu.symm⟩
      rw [value] at h
      split at h
      · rename_i hc
        exact .inl ⟨t, by rw [hc]⟩
      · split at h
        · rename_i hc
          exact .inr (.inl ⟨t, by rw [hc]⟩)
        · split at h
          · rename_i hc
            exact .inr (.inr (.inl ⟨t, by rw [hc]⟩))
          · split at h
            · rename_i hpat
              exact .inr (.inr (.inr (.inl (hword _ hpat))))
            · split at h
              · rename_i hpat
                exact .inr (.inr (.inr (.inr (.inl (hword _ hpat)))))
              · split at h
                · rename_i hpat
                  exact .inr (.inr (.inr (.inr (.inr (.inl (hword _ hpat))))))
                · exact .inr (.inr (.inr (.inr (.inr (.inr h)))))

/-- **CONTINUATION.**  A value that is read of a text is read of every longer one that goes on with
    no number, and at every fuel from there on. -/
theorem value_append (x : ByteString) : ∀ {fuel fuel' : Nat}, fuel ≤ fuel' →
    Extends x (value fuel) (value fuel') := by
  intro fuel
  induction fuel with
  | zero => exact fun _ => ⟨rfl, fun h => (by cases h)⟩
  | succ fuel ih =>
      intro fuel' hfuel
      obtain ⟨fuel', rfl⟩ := Nat.exists_eq_add_of_le' (Nat.lt_of_lt_of_le (Nat.succ_pos _) hfuel)
      have hinner := ih (Nat.le_of_succ_le_succ hfuel)
      refine ⟨rfl, fun {s v r} hread hx => ?_⟩
      rcases value_cases hread with
        ⟨t, rfl⟩ | ⟨t, rfl⟩ | ⟨t, rfl⟩ | ⟨t, rfl⟩ | ⟨t, rfl⟩ | ⟨t, rfl⟩ | hnumber
      · rw [value_quote] at hread
        obtain ⟨⟨a, r'⟩, htext, heq⟩ := Option.map_eq_some_iff.mp hread
        obtain ⟨rfl, rfl⟩ := Prod.mk.inj heq
        rw [List.cons_append, value_quote, text_append x htext]
        rfl
      · rw [value_brace] at hread
        obtain ⟨⟨as, r'⟩, hitems, heq⟩ := Option.map_eq_some_iff.mp hread
        obtain ⟨rfl, rfl⟩ := Prod.mk.inj heq
        rw [List.cons_append, value_brace, items_append (member_append hinner) hitems]
        rfl
      · rw [value_bracket] at hread
        obtain ⟨⟨as, r'⟩, hitems, heq⟩ := Option.map_eq_some_iff.mp hread
        obtain ⟨rfl, rfl⟩ := Prod.mk.inj heq
        rw [List.cons_append, value_bracket, items_append hinner hitems]
        rfl
      · rw [value_null] at hread
        obtain ⟨rfl, rfl⟩ := Prod.mk.inj (Option.some.inj hread)
        rw [List.append_assoc, value_null]
      · rw [value_true] at hread
        obtain ⟨rfl, rfl⟩ := Prod.mk.inj (Option.some.inj hread)
        rw [List.append_assoc, value_true]
      · rw [value_false] at hread
        obtain ⟨rfl, rfl⟩ := Prod.mk.inj (Option.some.inj hread)
        rw [List.append_assoc, value_false]
      · obtain ⟨c, t, rfl, hc⟩ := number_head hnumber
        rw [List.cons_append, value_number hc, ← List.cons_append]
        exact number_append hnumber hx

/-! ## Texts of values -/

/-- A text of one value, with no blanks around it. -/
structure TextOf (t : ByteString) (v : Json) : Prop where
  valid : Utf8.valid t = true
  whole : value t.length t = some (v, [])

/-- What a text of a value begins with. -/
theorem TextOf.head {t : ByteString} {v : Json} (h : TextOf t v) :
    ∃ b s, t = b :: s ∧ isBlank b = false ∧ b ≠ byte '}' := by
  obtain ⟨-, hwhole⟩ := h
  cases hlength : t.length with
  | zero =>
      rw [hlength] at hwhole
      cases hwhole
  | succ n =>
      rw [hlength] at hwhole
      rcases value_cases hwhole with
        ⟨s, rfl⟩ | ⟨s, rfl⟩ | ⟨s, rfl⟩ | ⟨s, rfl⟩ | ⟨s, rfl⟩ | ⟨s, rfl⟩ | hnumber
      · exact ⟨_, s, rfl, by decide, by decide⟩
      · exact ⟨_, s, rfl, by decide, by decide⟩
      · exact ⟨_, s, rfl, by decide, by decide⟩
      · exact ⟨byte 'n', ascii "ull" ++ s, rfl, by decide, by decide⟩
      · exact ⟨byte 't', ascii "rue" ++ s, rfl, by decide, by decide⟩
      · exact ⟨byte 'f', ascii "alse" ++ s, rfl, by decide, by decide⟩
      · obtain ⟨c, s, rfl, hc⟩ := number_head hnumber
        have hother := fun d => ne_of_numeral (d := d) hc
        refine ⟨c, s, rfl, ?_, hother _ (by decide) (by decide)⟩
        simp only [isBlank, Bool.or_eq_false_iff, beq_eq_false_iff_ne]
        exact ⟨⟨⟨hother _ (by decide) (by decide), hother _ (by decide) (by decide)⟩,
          hother _ (by decide) (by decide)⟩, hother _ (by decide) (by decide)⟩

/-- The text is decoded to the value. -/
theorem TextOf.decode {t : ByteString} {v : Json} (h : TextOf t v) : decode t = some v := by
  have hskip : skip t = t := by
    obtain ⟨b, s, rfl, hb, -⟩ := h.head
    exact skip_of_stop hb s
  rw [JsonText.decode, if_pos h.valid, hskip, h.whole]
  rfl

/-- As a member's value the text is read as the value. -/
theorem TextOf.settles {t : ByteString} {v : Json} (h : TextOf t v) {fuel : Nat}
    (hfuel : t.length ≤ fuel) : Settles (value fuel) (byte '}') t v True := by
  refine ⟨h.head, fun _ c s hc => ?_, fun _ => trivial⟩
  have hstops : Stops (c :: s) := by
    refine ⟨c, s, rfl, ?_⟩
    rcases hc with rfl | rfl <;> decide
  exact (value_append (c :: s) hfuel).reads h.whole (fun _ => hstops)

end JsonText
