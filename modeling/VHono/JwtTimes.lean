import VHono.JwtTokens

/-! # The times and the issuer of a token

    `verify_jwt_with_options` compares `exp` and `nbf` with the clock and `iss`
    with the options.  The two times it compares are those of the payload, in
    which a time that is absent is zero; `iat` has an option and no comparison. -/

namespace VHono

open ByteString

structure JwtVerifyOptions where
  iss : ByteString := []
  exp : Bool := true
  nbf : Bool := true
  iat : Bool := true

/-- `now` is `time.now().unix()`. -/
def verifyJwtWithOptions (json2 : Json2) (hashes : KeyedHashes) (token secret : ByteString)
    (alg : JwtAlgorithm) (options : JwtVerifyOptions) (now : Int64) :
    Except ByteString JwtPayload :=
  match verifyJwt json2 hashes token secret alg with
  | .error err => .error err
  | .ok payload =>
      if (options.exp = true ∧ payload.exp ≠ 0) ∧ now > payload.exp then
        .error (ascii "Token expired")
      else if (options.nbf = true ∧ payload.nbf ≠ 0) ∧ now < payload.nbf then
        .error (ascii "Token not yet valid")
      else if options.iss.length > 0 ∧ payload.iss ≠ options.iss then
        .error (ascii "Invalid issuer: expected " ++ options.iss ++ ascii ", got " ++ payload.iss)
      else .ok payload

/-! ## What a token says -/

/-- The members of the second part of a token. -/
def tokenMembers (token : ByteString) : InsertionMap ByteString Json :=
  match token.splitOn (byte '.') with
  | [_, payload, _] => ((JsonText.decode (base64urlDecode payload)).map asMap).getD .empty
  | _ => .empty

/-- A time of a token, if the token has it. -/
def tokenTime (json2 : Json2) (token name : ByteString) : Option Int64 :=
  ((tokenMembers token).get? name).map json2.i64

/-- The issuer of a token, if the token has one. -/
def tokenIssuer (json2 : Json2) (token : ByteString) : Option ByteString :=
  ((tokenMembers token).get? (ascii "iss")).map json2.str

/-- The claims that the options ask for hold at a time: not expired, valid already, issued
    already, and by the issuer. -/
structure ClaimsHold (json2 : Json2) (token : ByteString) (options : JwtVerifyOptions)
    (now : Int64) : Prop where
  exp : options.exp = true → ∀ e, tokenTime json2 token (ascii "exp") = some e → now < e
  nbf : options.nbf = true → ∀ n, tokenTime json2 token (ascii "nbf") = some n → n ≤ now
  iat : options.iat = true → ∀ i, tokenTime json2 token (ascii "iat") = some i → i ≤ now
  iss : options.iss = [] ∨ tokenIssuer json2 token = some options.iss

section Verify

variable {json2 : Json2} {hashes : KeyedHashes} {token secret : ByteString} {alg : JwtAlgorithm}
variable {options : JwtVerifyOptions} {now : Int64} {payload : JwtPayload}

theorem strOf_eq (v : Option Json) : json2.strOf v = (v.map json2.str).getD [] := by
  cases v with
  | none => rfl
  | some v => rfl

theorem i64Of_eq (v : Option Json) : json2.i64Of v = (v.map json2.i64).getD 0 := by
  cases v with
  | none => rfl
  | some v => rfl

theorem tokenMembers_eq {header text signature : ByteString}
    (h : token.splitOn (byte '.') = [header, text, signature]) : tokenMembers token
      = ((JsonText.decode (base64urlDecode text)).map asMap).getD .empty := by
  rw [tokenMembers, h]

/-- The payload has the times and the issuer of the token, zero and empty for absent ones. -/
theorem payload_of_decodeJwt (h : decodeJwt json2 token = .ok payload) :
    payload.exp = (tokenTime json2 token (ascii "exp")).getD 0 ∧
      payload.nbf = (tokenTime json2 token (ascii "nbf")).getD 0 ∧
      payload.iss = (tokenIssuer json2 token).getD [] := by
  rw [decodeJwt] at h
  rw [tokenTime, tokenTime, tokenIssuer, ← i64Of_eq, ← i64Of_eq, ← strOf_eq]
  split at h
  · rename_i header text signature hsplit
    rw [tokenMembers_eq hsplit]
    rw [parsePayload] at h
    cases hdecode : JsonText.decode (base64urlDecode text) with
    | none =>
        rw [hdecode] at h
        cases h
    | some raw =>
        rw [hdecode] at h
        rw [← Except.ok.inj h]
        exact ⟨rfl, rfl, rfl⟩
  · cases h

/-- A check of the code refuses the token. -/
def RefusedByCheck (json2 : Json2) (token : ByteString) (options : JwtVerifyOptions)
    (now : Int64) : Prop :=
  (options.exp = true ∧ ∃ e, tokenTime json2 token (ascii "exp") = some e ∧ e ≠ 0 ∧ e < now) ∨
  (options.nbf = true ∧ ∃ n, tokenTime json2 token (ascii "nbf") = some n ∧ n ≠ 0 ∧ now < n) ∨
  (options.iss ≠ [] ∧ tokenIssuer json2 token ≠ some options.iss)

/-- The token is not on the edge of a check: it does not expire right now and has no zero for a
    time, and it was not issued later. -/
structure OffTheEdges (json2 : Json2) (token : ByteString) (options : JwtVerifyOptions)
    (now : Int64) : Prop where
  exp : options.exp = true → ∀ e, tokenTime json2 token (ascii "exp") = some e →
    e ≠ now ∧ (e = 0 → now < 0)
  nbf : options.nbf = true → tokenTime json2 token (ascii "nbf") = some 0 → 0 ≤ now
  iat : options.iat = true → ∀ i, tokenTime json2 token (ascii "iat") = some i → i ≤ now

/-- The check of `exp`, of the token's time. -/
theorem expired_iff {t : Option Int64} {asked : Bool} :
    ((asked = true ∧ t.getD 0 ≠ 0) ∧ now > t.getD 0) ↔
      (asked = true ∧ ∃ e, t = some e ∧ e ≠ 0 ∧ e < now) := by
  rw [and_assoc]
  refine and_congr_right (fun _ => ?_)
  cases t with
  | none => simp
  | some e => simp

theorem early_iff {t : Option Int64} {asked : Bool} :
    ((asked = true ∧ t.getD 0 ≠ 0) ∧ now < t.getD 0) ↔
      (asked = true ∧ ∃ n, t = some n ∧ n ≠ 0 ∧ now < n) := by
  rw [and_assoc]
  refine and_congr_right (fun _ => ?_)
  cases t with
  | none => simp
  | some n => simp

/-- An absent issuer is no issuer that is asked for. -/
theorem otherIssuer_iff {iss : Option ByteString} {asked : ByteString} :
    (asked.length > 0 ∧ iss.getD [] ≠ asked) ↔ (asked ≠ [] ∧ iss ≠ some asked) := by
  rw [gt_iff_lt, List.length_pos_iff]
  refine and_congr_right (fun hne => not_congr ?_)
  cases iss with
  | none => simpa using Ne.symm hne
  | some iss => simp

/-- A token that is signed is accepted unless one of the three checks refuses it. -/
theorem verifyJwtWithOptions_iff (h : verifyJwt json2 hashes token secret alg = .ok payload) :
    (∃ result, verifyJwtWithOptions json2 hashes token secret alg options now = .ok result) ↔
      ¬ RefusedByCheck json2 token options now := by
  obtain ⟨-, -, -, -, -, hdecode⟩ := verifyJwt_eq_ok.mp h
  obtain ⟨hexp, hnbf, hiss⟩ := payload_of_decodeJwt hdecode
  rw [verifyJwtWithOptions, h, RefusedByCheck, ← expired_iff, ← early_iff, ← otherIssuer_iff, ← hexp,
    ← hnbf, ← hiss, not_or, not_or]
  dsimp only
  split
  · rename_i hcheck
    exact ⟨by rintro ⟨_, ⟨⟩⟩, fun hnone => absurd hcheck hnone.1⟩
  · rename_i hpassed
    split
    · rename_i hcheck
      exact ⟨by rintro ⟨_, ⟨⟩⟩, fun hnone => absurd hcheck hnone.2.1⟩
    · rename_i hpassed'
      split
      · rename_i hcheck
        exact ⟨by rintro ⟨_, ⟨⟩⟩, fun hnone => absurd hcheck hnone.2.2⟩
      · rename_i hpassed''
        exact ⟨fun _ => ⟨hpassed, hpassed', hpassed''⟩, fun _ => ⟨payload, rfl⟩⟩

/-! ## Both at once -/

theorem expiry_iff {t : Option Int64} : (∀ e, t = some e → now < e) ↔
    ¬ (∃ e, t = some e ∧ e ≠ 0 ∧ e < now) ∧ ∀ e, t = some e → e ≠ now ∧ (e = 0 → now < 0) := by
  cases t with
  | none => simp
  | some e =>
      simp only [Option.some.injEq, forall_eq', exists_eq_left']
      have hzero : (0 : Int64).toInt = 0 := rfl
      rw [ne_eq, ne_eq, Int64.lt_iff_toInt_lt, Int64.lt_iff_toInt_lt, Int64.lt_iff_toInt_lt,
        ← Int64.toInt_inj, ← Int64.toInt_inj, hzero]
      omega

theorem start_iff {t : Option Int64} : (∀ n, t = some n → n ≤ now) ↔
    ¬ (∃ n, t = some n ∧ n ≠ 0 ∧ now < n) ∧ (t = some 0 → 0 ≤ now) := by
  cases t with
  | none => simp
  | some n =>
      simp only [Option.some.injEq, forall_eq', exists_eq_left']
      have hzero : (0 : Int64).toInt = 0 := rfl
      rw [ne_eq, Int64.le_iff_toInt_le, Int64.le_iff_toInt_le, Int64.lt_iff_toInt_lt,
        ← Int64.toInt_inj, hzero]
      omega

/-- What the options ask for is what the checks leave, off their edges. -/
theorem claimsHold_iff : ClaimsHold json2 token options now ↔
    ¬ RefusedByCheck json2 token options now ∧ OffTheEdges json2 token options now := by
  have hissuer : ¬ (options.iss ≠ [] ∧ tokenIssuer json2 token ≠ some options.iss) ↔
      options.iss = [] ∨ tokenIssuer json2 token = some options.iss := by
    rw [not_and_or, not_not, not_not]
  constructor
  · intro h
    refine ⟨?_, fun hon => (expiry_iff.mp (h.exp hon)).2, fun hon => (start_iff.mp (h.nbf hon)).2,
      h.iat⟩
    rintro (⟨hon, hrefused⟩ | ⟨hon, hrefused⟩ | hrefused)
    · exact (expiry_iff.mp (h.exp hon)).1 hrefused
    · exact (start_iff.mp (h.nbf hon)).1 hrefused
    · exact hissuer.mpr h.iss hrefused
  · rintro ⟨hnone, hedges⟩
    rw [RefusedByCheck, not_or, not_or] at hnone
    refine ⟨fun hon => ?_, fun hon => ?_, hedges.iat, hissuer.mp hnone.2.2⟩
    · exact expiry_iff.mpr ⟨fun hrefused => hnone.1 ⟨hon, hrefused⟩, hedges.exp hon⟩
    · exact start_iff.mpr ⟨fun hrefused => hnone.2.1 ⟨hon, hrefused⟩, hedges.nbf hon⟩

end Verify

/-- A token is accepted exactly if what the options ask for holds. -/
def AcceptsExactly (json2 : Json2) (hashes : KeyedHashes) (token secret : ByteString)
    (alg : JwtAlgorithm) (options : JwtVerifyOptions) (now : Int64) : Prop :=
  (∃ result, verifyJwtWithOptions json2 hashes token secret alg options now = .ok result) ↔
    ClaimsHold json2 token options now

/-- **TIMES AND ISSUER.**  A signed token is accepted exactly if what the options ask for holds,
    unless no check refuses it and it is on the edge of one: it expires right now, has a zero for a
    time, or was issued later than now. -/
theorem acceptsExactly_iff (json2 : Json2) (hashes : KeyedHashes) (token secret : ByteString)
    (alg : JwtAlgorithm) (options : JwtVerifyOptions) (now : Int64)
    (hsigned : Accepted json2 hashes token secret alg) :
    AcceptsExactly json2 hashes token secret alg options now ↔
      RefusedByCheck json2 token options now ∨ OffTheEdges json2 token options now := by
  obtain ⟨payload, h⟩ := hsigned
  rw [AcceptsExactly, verifyJwtWithOptions_iff h, claimsHold_iff]
  constructor
  · intro hsame
    by_cases hrefused : RefusedByCheck json2 token options now
    · exact Or.inl hrefused
    · exact Or.inr (hsame.mp hrefused).2
  · rintro (hrefused | hedges)
    · exact ⟨fun hnone => absurd hrefused hnone, fun hboth => hboth.1⟩
    · exact ⟨fun hnone => ⟨hnone, hedges⟩, fun hboth => hboth.1⟩

/-- `{"iat":9}` -/
def issuedAtNine : ByteString := plainToken (ascii "\x7b\"iat\":9\x7d")

theorem accepted_issuedAtNine : Accepted plainJson2 plainHashes issuedAtNine (ascii "k") .hs256 := by
  decide +kernel

theorem issuedAtNine_time : tokenTime plainJson2 issuedAtNine (ascii "iat") = some 9 := by
  decide +kernel

/-- A token that was issued at nine is settled at nine. -/
theorem acceptsExactly_issuedAtNine :
    AcceptsExactly plainJson2 plainHashes issuedAtNine (ascii "k") .hs256 {} 9 := by
  have hexp : tokenTime plainJson2 issuedAtNine (ascii "exp") = none := by decide +kernel
  have hnbf : tokenTime plainJson2 issuedAtNine (ascii "nbf") = none := by decide +kernel
  refine (acceptsExactly_iff plainJson2 plainHashes issuedAtNine (ascii "k") .hs256 {} 9
    accepted_issuedAtNine).mpr (Or.inr ⟨fun _ e he => ?_, fun _ hn => ?_, fun _ i hi => ?_⟩)
  · rw [hexp] at he
    cases he
  · rw [hnbf] at hn
    cases hn
  · rw [issuedAtNine_time, Option.some.injEq] at hi
    rw [← hi]
    decide

/-- It is signed, and accepted at five, before it was issued. -/
theorem unissued_token_accepted :
    Accepted plainJson2 plainHashes issuedAtNine (ascii "k") .hs256 ∧
      ¬ AcceptsExactly plainJson2 plainHashes issuedAtNine (ascii "k") .hs256 {} 5 := by
  refine ⟨accepted_issuedAtNine, fun h => ?_⟩
  have hok : (verifyJwtWithOptions plainJson2 plainHashes issuedAtNine (ascii "k") .hs256 {}
      5).toOption.isSome = true := by decide +kernel
  obtain ⟨result, hresult⟩ : ∃ result, verifyJwtWithOptions plainJson2 plainHashes issuedAtNine
      (ascii "k") .hs256 {} 5 = .ok result := by
    cases hverify : verifyJwtWithOptions plainJson2 plainHashes issuedAtNine (ascii "k") .hs256 {}
        5 with
    | error err =>
        rw [hverify] at hok
        cases hok
    | ok result => exact ⟨result, rfl⟩
  exact absurd ((h.mp ⟨result, hresult⟩).iat rfl 9 issuedAtNine_time) (by decide)

end VHono
