import VHono.S3Signing

/-! # Hash functions that tell signatures apart

    Signatures of two texts agree for every hash function only if the texts
    agree: otherwise there is a hash function, with the known sum of the empty
    text, under which one signature is filled with a tag and the other with
    zeros.  It looks at the end of a text; the pads of HMAC stand in front, and
    no request begins like one of them. -/

namespace VHono

open ByteString

/-- The sum of the empty text. -/
def emptySum : { d : ByteString // d.length = 32 } :=
  ⟨[0xe3, 0xb0, 0xc4, 0x42, 0x98, 0xfc, 0x1c, 0x14, 0x9a, 0xfb, 0xf4, 0xc8, 0x99, 0x6f, 0xb9, 0x24,
    0x27, 0xae, 0x41, 0xe4, 0x64, 0x9b, 0x93, 0x4c, 0xa4, 0x95, 0x99, 0x1b, 0x78, 0x52, 0xb8, 0x55],
    rfl⟩

theorem hexStr_emptySum : LocalStorage.hexStr emptySum.val = emptyPayloadHash := by decide

/-- The hash function has the known sum of the empty text. -/
def KnowsEmpty (sha256 : HashSum 32) : Prop :=
  LocalStorage.hexStr (sha256 []).val = emptyPayloadHash

/-- One of two bytes to fill a sum with. -/
def tagByte (tag : Bool) : UInt8 := if tag then 1 else 2

def filled (b : UInt8) : { d : ByteString // d.length = 32 } :=
  ⟨List.replicate 32 b, List.length_replicate⟩

/-- The tag for the texts that are marked, zeros for the others. -/
def markedSum (marked : ByteString → Bool) (tag : Bool) : HashSum 32 := fun x =>
  if x = [] then emptySum else if marked x = true then filled (tagByte tag) else filled 0

def zerosHex : ByteString := LocalStorage.hexStr (filled 0).val

def tagHex (tag : Bool) : ByteString := LocalStorage.hexStr (filled (tagByte tag)).val

section Marked

variable {marked : ByteString → Bool} {tag : Bool} {x : ByteString}

theorem knowsEmpty_markedSum : KnowsEmpty (markedSum marked tag) := hexStr_emptySum

theorem markedSum_pos (hx : x ≠ []) (h : marked x = true) :
    markedSum marked tag x = filled (tagByte tag) := by rw [markedSum, if_neg hx, if_pos h]

theorem markedSum_neg (hx : x ≠ []) (h : marked x = false) :
    markedSum marked tag x = filled 0 := by
  rw [markedSum, if_neg hx, if_neg (by rw [h]; exact Bool.false_ne_true)]

end Marked

theorem getLast_zerosHex : zerosHex.getLast? = some (byte '0') := by decide

theorem getLast_tagHex (tag : Bool) : (tagHex tag).getLast? = some (tagByte tag + 48) := by
  cases tag <;> decide

theorem getLast_emptyPayloadHash : emptyPayloadHash.getLast? = some (byte '5') := by decide

theorem getLast_filled (b : UInt8) : (filled b).val.getLast? = some b := rfl

theorem tagByte_ne (tag : Bool) : tagByte tag ≠ 0 ∧ tagByte tag ≠ byte '0' ∧ tagByte tag ≠ byte '5' ∧
    tagByte tag + 48 ≠ 0 ∧ tagByte tag + 48 ≠ byte '0' ∧ tagByte tag + 48 ≠ byte '5' := by
  cases tag <;> decide

theorem tagHex_ne (tag : Bool) : tagHex tag ≠ zerosHex := by cases tag <;> decide

/-- A tag that a text does not end with, neither as it is nor in digits. -/
theorem exists_tag (last : Option UInt8) :
    ∃ tag, last ≠ some (tagByte tag) ∧ last ≠ some (tagByte tag + 48) := by
  by_cases h : last = some (tagByte true) ∨ last = some (tagByte true + 48)
  · refine ⟨false, ?_, ?_⟩ <;> rcases h with h | h <;> rw [h] <;> decide
  · exact ⟨true, fun h' => h (.inl h'), fun h' => h (.inr h')⟩

/-! ## The pads -/

/-- A text that begins with a capital letter. -/
def StartsUpper (x : ByteString) : Prop := ∃ b rest, x = b :: rest ∧ byte 'A' ≤ b ∧ b ≤ byte 'Z'

theorem StartsUpper.ne_nil {x : ByteString} (h : StartsUpper x) : x ≠ [] := by
  obtain ⟨b, rest, rfl, -⟩ := h
  exact List.cons_ne_nil _ _

/-- What HMAC puts in front of the data is no text that begins with a capital letter. -/
theorem mac_pads (marked : ByteString → Bool) (tag : Bool) (x : ByteString) :
    ∃ inner outer : ByteString, (∀ y, inner ++ y ≠ [] ∧ ¬ StartsUpper (inner ++ y)) ∧
      (∀ y, outer ++ y ≠ [] ∧ ¬ StartsUpper (outer ++ y)) ∧
      ∀ data, s3HmacSha256 (markedSum marked tag) (markedSum marked tag x).val data
        = (markedSum marked tag (outer ++ (markedSum marked tag (inner ++ data)).val)).val := by
  obtain ⟨first, rest, hkey, hfirst⟩ : ∃ first rest, (markedSum marked tag x).val = first :: rest ∧
      first ∈ [0xe3, 0, 1, 2] := by
    rw [markedSum]
    split
    · exact ⟨_, _, rfl, by decide⟩
    · split
      · exact ⟨tagByte tag, _, rfl, by cases tag <;> decide⟩
      · exact ⟨0, _, rfl, by decide⟩
  have hblock : Hmac.blockKey (fun s => (markedSum marked tag s).val) 64
      (markedSum marked tag x).val = first :: (rest ++ List.replicate 32 0) := by
    rw [Hmac.blockKey, (markedSum marked tag x).property, if_neg (by decide),
      (markedSum marked tag x).property, hkey]
    rfl
  have hpad : ∀ pad ∈ [(0x36 : UInt8), 0x5c], ∀ y,
      Hmac.xorPad pad (first :: (rest ++ List.replicate 32 0)) ++ y ≠ [] ∧
        ¬ StartsUpper (Hmac.xorPad pad (first :: (rest ++ List.replicate 32 0)) ++ y) := by
    intro pad hpadMem y
    refine ⟨List.cons_ne_nil _ _, ?_⟩
    rintro ⟨b, tail, heq, hlow, hhigh⟩
    obtain rfl : first ^^^ pad = b := (List.cons.inj heq).1
    have hall : ∀ pad ∈ [(0x36 : UInt8), 0x5c], ∀ first ∈ [(0xe3 : UInt8), 0, 1, 2],
        ¬(byte 'A' ≤ first ^^^ pad ∧ first ^^^ pad ≤ byte 'Z') := by
      decide
    exact hall pad hpadMem first hfirst ⟨hlow, hhigh⟩
  refine ⟨_, _, hpad 0x36 (by decide), hpad 0x5c (by decide), fun data => ?_⟩
  have hmac : s3HmacSha256 (markedSum marked tag) (markedSum marked tag x).val data
      = Hmac.hmac (fun s => (markedSum marked tag s).val) 64 (markedSum marked tag x).val data :=
    storageHmac_eq _ (by decide) _ _
  rw [hmac, Hmac.hmac, hblock]

/-! ## Different texts -/

/-- The sum of the payload as it is written into a request. -/
def payloadHex (sha256 : HashSum 32) (payload : ByteString) : ByteString :=
  LocalStorage.hexStr (sha256 payload).val

theorem getLast_of_suffix {h x : ByteString} (hsuffix : h <:+ x) {b : UInt8}
    (hlast : h.getLast? = some b) : x.getLast? = some b := by
  obtain ⟨front, rfl⟩ := hsuffix
  have hne : h ≠ [] := by
    rintro rfl
    cases hlast
  rw [List.getLast?_append_of_ne_nil _ hne, hlast]

section Separation

variable {payload : ByteString} {c c' : ByteString → ByteString}

/-- Different requests, of which the first is not the payload. -/
theorem separate_requests_of (hend : ∀ h, h <:+ c' h) (hupper : ∀ h, StartsUpper (c h))
    (hupper' : ∀ h, StartsUpper (c' h)) (hne : ∀ h, c h ≠ c' h)
    (hpayload : payload ≠ [] → payload ≠ c zerosHex) (u u' : ByteString) :
    ∃ sum : HashSum 32, KnowsEmpty sum ∧ ∀ x,
      LocalStorage.hexStr (s3HmacSha256 sum (sum x).val
          (u ++ LocalStorage.hexStr (sum (c (payloadHex sum payload))).val))
        ≠ LocalStorage.hexStr (s3HmacSha256 sum (sum x).val
          (u' ++ LocalStorage.hexStr (sum (c' (payloadHex sum payload))).val)) := by
  obtain ⟨tag, hlast, hlastHex⟩ := exists_tag payload.getLast?
  obtain ⟨h0, hzero, h05, h480, h48zero, h485⟩ := tagByte_ne tag
  let hash := if payload = [] then emptyPayloadHash else zerosHex
  let marked : ByteString → Bool := fun x => decide (x = c hash ∨
    x.getLast? = some (tagByte tag) ∨ x.getLast? = some (tagByte tag + 48))
  have hmarked : ∀ {x}, x.getLast? = some (tagByte tag + 48) ∨ x.getLast? = some (tagByte tag) →
      marked x = true := fun h => decide_eq_true (.inr h.symm)
  have hunmarked : ∀ {x b}, x ≠ c hash → x.getLast? = some b → b ≠ tagByte tag →
      b ≠ tagByte tag + 48 → marked x = false := by
    intro x b hx hb hne hneHex
    refine decide_eq_false ?_
    rintro (heq | hin | hin)
    · exact hx heq
    · exact hne (Option.some.inj (hb.symm.trans hin))
    · exact hneHex (Option.some.inj (hb.symm.trans hin))
  have hhash : payloadHex (markedSum marked tag) payload = hash := by
    by_cases hnil : payload = []
    · show _ = ite _ _ _
      rw [if_pos hnil, hnil]
      exact hexStr_emptySum
    · have hpay : marked payload = false := by
        refine decide_eq_false ?_
        rintro (heq | hin | hin)
        · refine hpayload hnil (heq.trans ?_)
          show c (ite _ _ _) = _
          rw [if_neg hnil]
        · exact hlast hin
        · exact hlastHex hin
      show LocalStorage.hexStr (markedSum marked tag payload).val = ite _ _ _
      rw [markedSum_neg hnil hpay, if_neg hnil]
      rfl
  have hfirst : markedSum marked tag (c hash) = filled (tagByte tag) :=
    markedSum_pos (hupper hash).ne_nil (decide_eq_true (.inl rfl))
  have hsecond : markedSum marked tag (c' hash) = filled 0 := by
    by_cases hnil : payload = []
    · have hlast5 : (c' hash).getLast? = some (byte '5') := by
        refine getLast_of_suffix (hend hash) ?_
        show (ite _ _ _ : ByteString).getLast? = _
        rw [if_pos hnil]
        exact getLast_emptyPayloadHash
      exact markedSum_neg (hupper' hash).ne_nil
        (hunmarked (fun heq => hne hash heq.symm) hlast5 h05.symm h485.symm)
    · have hlast0 : (c' hash).getLast? = some (byte '0') := by
        refine getLast_of_suffix (hend hash) ?_
        show (ite _ _ _ : ByteString).getLast? = _
        rw [if_neg hnil]
        exact getLast_zerosHex
      exact markedSum_neg (hupper' hash).ne_nil
        (hunmarked (fun heq => hne hash heq.symm) hlast0 hzero.symm h48zero.symm)
  refine ⟨markedSum marked tag, knowsEmpty_markedSum, fun x => ?_⟩
  obtain ⟨inner, outer, hinner, houter, hmac⟩ := mac_pads marked tag x
  have hnot : ∀ {y}, ¬ StartsUpper y → y ≠ c hash := by
    rintro y hy rfl
    exact hy (hupper hash)
  rw [hhash, hfirst, hsecond, hmac, hmac]
  -- the first chain keeps the tag at its end, the second one the zeros
  have hinner₁ : markedSum marked tag (inner ++ (u ++ tagHex tag)) = filled (tagByte tag) := by
    refine markedSum_pos (hinner _).1 (hmarked (.inl ?_))
    rw [← List.append_assoc]
    exact getLast_of_suffix (List.suffix_append _ _) (getLast_tagHex tag)
  have houter₁ : markedSum marked tag (outer ++ (filled (tagByte tag)).val)
      = filled (tagByte tag) :=
    markedSum_pos (houter _).1
      (hmarked (.inr (getLast_of_suffix (List.suffix_append _ _) (getLast_filled _))))
  have hinner₂ : markedSum marked tag (inner ++ (u' ++ zerosHex)) = filled 0 := by
    have hlast0 : (inner ++ (u' ++ zerosHex)).getLast? = some (byte '0') := by
      rw [← List.append_assoc]
      exact getLast_of_suffix (List.suffix_append _ _) getLast_zerosHex
    exact markedSum_neg (hinner _).1
      (hunmarked (hnot (hinner _).2) hlast0 hzero.symm h48zero.symm)
  have houter₂ : markedSum marked tag (outer ++ (filled 0).val) = filled 0 :=
    markedSum_neg (houter _).1 (hunmarked (hnot (houter _).2)
      (getLast_of_suffix (List.suffix_append _ _) (getLast_filled 0)) h0.symm h480.symm)
  show LocalStorage.hexStr (markedSum marked tag
      (outer ++ (markedSum marked tag (inner ++ (u ++ tagHex tag))).val)).val
    ≠ LocalStorage.hexStr (markedSum marked tag
      (outer ++ (markedSum marked tag (inner ++ (u' ++ zerosHex))).val)).val
  rw [hinner₁, houter₁, hinner₂, houter₂]
  exact tagHex_ne tag

/-- **DIFFERENT REQUESTS** are told apart. -/
theorem separate_requests (hend : ∀ h, h <:+ c h) (hend' : ∀ h, h <:+ c' h)
    (hupper : ∀ h, StartsUpper (c h)) (hupper' : ∀ h, StartsUpper (c' h)) (hne : ∀ h, c h ≠ c' h)
    (payload u u' : ByteString) :
    ∃ sum : HashSum 32, KnowsEmpty sum ∧ ∀ x,
      LocalStorage.hexStr (s3HmacSha256 sum (sum x).val
          (u ++ LocalStorage.hexStr (sum (c (payloadHex sum payload))).val))
        ≠ LocalStorage.hexStr (s3HmacSha256 sum (sum x).val
          (u' ++ LocalStorage.hexStr (sum (c' (payloadHex sum payload))).val)) := by
  by_cases hpayload : payload = c zerosHex
  · have hother : payload ≠ [] → payload ≠ c' zerosHex := by
      intro _ heq
      exact hne zerosHex (hpayload.symm.trans heq)
    obtain ⟨sum, hknows, hdiffer⟩ := separate_requests_of hend hupper' hupper
      (fun h => (hne h).symm) hother u' u
    exact ⟨sum, hknows, fun x => (hdiffer x).symm⟩
  · exact separate_requests_of hend' hupper hupper' hne (fun _ => hpayload) u u'

/-- **DIFFERENT TEXTS** around the hash of one request are told apart. -/
theorem separate_texts (hend : ∀ h, h <:+ c h) (hupper : ∀ h, StartsUpper (c h))
    (payload : ByteString) {u u' : ByteString} (hlength : u.length = u'.length) (hne : u ≠ u') :
    ∃ sum : HashSum 32, KnowsEmpty sum ∧ ∀ x,
      LocalStorage.hexStr (s3HmacSha256 sum (sum x).val
          (u ++ LocalStorage.hexStr (sum (c (payloadHex sum payload))).val))
        ≠ LocalStorage.hexStr (s3HmacSha256 sum (sum x).val
          (u' ++ LocalStorage.hexStr (sum (c (payloadHex sum payload))).val)) := by
  obtain ⟨tag, hlast, -⟩ := exists_tag payload.getLast?
  obtain ⟨h0, hzero, -, h480, h48zero, -⟩ := tagByte_ne tag
  let hash := if payload = [] then emptyPayloadHash
    else if u ++ zerosHex <:+ payload then tagHex tag else zerosHex
  let marked : ByteString → Bool := fun x => decide (x ≠ c hash ∧
    (u ++ zerosHex <:+ x ∨ x.getLast? = some (tagByte tag)))
  have hhash : payloadHex (markedSum marked tag) payload = hash := by
    by_cases hnil : payload = []
    · show _ = ite _ _ _
      rw [if_pos hnil, hnil]
      exact hexStr_emptySum
    · show LocalStorage.hexStr (markedSum marked tag payload).val = ite _ _ _
      rw [if_neg hnil]
      by_cases hsuffix : u ++ zerosHex <:+ payload
      · have hother : payload ≠ c hash := by
          intro heq
          have hlast0 : payload.getLast? = some (byte '0') :=
            getLast_of_suffix ((List.suffix_append u zerosHex).trans hsuffix) getLast_zerosHex
          have hlastTag : payload.getLast? = some (tagByte tag + 48) := by
            rw [heq]
            refine getLast_of_suffix (hend hash) ?_
            show (ite _ _ _ : ByteString).getLast? = _
            rw [if_neg hnil, if_pos hsuffix]
            exact getLast_tagHex tag
          exact h48zero (Option.some.inj (hlastTag.symm.trans hlast0))
        rw [if_pos hsuffix, markedSum_pos hnil (decide_eq_true ⟨hother, .inl hsuffix⟩)]
        rfl
      · have hpay : marked payload = false :=
          decide_eq_false (fun h => h.2.elim hsuffix hlast)
        rw [if_neg hsuffix, markedSum_neg hnil hpay]
        rfl
  have hrequest : markedSum marked tag (c hash) = filled 0 :=
    markedSum_neg (hupper hash).ne_nil (decide_eq_false (fun h => h.1 rfl))
  refine ⟨markedSum marked tag, knowsEmpty_markedSum, fun x => ?_⟩
  obtain ⟨inner, outer, hinner, houter, hmac⟩ := mac_pads marked tag x
  have hnot : ∀ {y}, ¬ StartsUpper y → y ≠ c hash := by
    rintro y hy rfl
    exact hy (hupper hash)
  rw [hhash, hrequest, hmac, hmac]
  have hinner₁ : markedSum marked tag (inner ++ (u ++ zerosHex)) = filled (tagByte tag) :=
    markedSum_pos (hinner _).1
      (decide_eq_true ⟨hnot (hinner _).2, .inl (List.suffix_append _ _)⟩)
  have houter₁ : markedSum marked tag (outer ++ (filled (tagByte tag)).val)
      = filled (tagByte tag) :=
    markedSum_pos (houter _).1 (decide_eq_true ⟨hnot (houter _).2,
      .inr (getLast_of_suffix (List.suffix_append _ _) (getLast_filled _))⟩)
  have hinner₂ : markedSum marked tag (inner ++ (u' ++ zerosHex)) = filled 0 := by
    refine markedSum_neg (hinner _).1 (decide_eq_false ?_)
    rintro ⟨-, hsuffix | htag⟩
    · have hsame : u ++ zerosHex = u' ++ zerosHex := by
        refine List.IsSuffix.eq_of_length (List.suffix_of_suffix_length_le hsuffix
          (List.suffix_append inner (u' ++ zerosHex)) ?_) ?_
        · rw [List.length_append, List.length_append, hlength]
        · rw [List.length_append, List.length_append, hlength]
      exact hne (List.append_cancel_right hsame)
    · have hlast0 : (inner ++ (u' ++ zerosHex)).getLast? = some (byte '0') := by
        rw [← List.append_assoc]
        exact getLast_of_suffix (List.suffix_append _ _) getLast_zerosHex
      exact hzero (Option.some.inj (htag.symm.trans hlast0))
  have houter₂ : markedSum marked tag (outer ++ (filled 0).val) = filled 0 := by
    have hlast0 : (outer ++ (filled 0).val).getLast? = some 0 :=
      getLast_of_suffix (List.suffix_append _ _) (getLast_filled 0)
    refine markedSum_neg (houter _).1 (decide_eq_false ?_)
    rintro ⟨-, hsuffix | htag⟩
    · have hdigit : (outer ++ (filled 0).val).getLast? = some (byte '0') :=
        getLast_of_suffix ((List.suffix_append u zerosHex).trans hsuffix) getLast_zerosHex
      exact absurd (Option.some.inj (hlast0.symm.trans hdigit)) (by decide)
    · exact h0 (Option.some.inj (htag.symm.trans hlast0))
  show LocalStorage.hexStr (markedSum marked tag
      (outer ++ (markedSum marked tag (inner ++ (u ++ zerosHex))).val)).val
    ≠ LocalStorage.hexStr (markedSum marked tag
      (outer ++ (markedSum marked tag (inner ++ (u' ++ zerosHex))).val)).val
  rw [hinner₁, houter₁, hinner₂, houter₂]
  exact tagHex_ne tag

end Separation

end VHono
