import VHono.AuthGuards
import VHono.JwtRoundTrip

/-! # The claims that a handler reads

    The JWT middleware leaves the claims in the store of the context, each under
    its name after `jwt_`, and the whole payload last.  A handler that asks for a
    claim by its name reads the member of the token. -/

namespace InsertionMap

variable {κ α β : Type*} [DecidableEq κ]

theorem map_find?_eq_lookup (k : κ) : ∀ es : List (κ × α),
    (es.find? (fun e => decide (e.1 = k))).map Prod.snd = es.lookup k
  | [] => rfl
  | (k', v) :: es => by
      by_cases h : k = k'
      · subst h
        simp
      · rw [List.lookup_cons, beq_eq_false_iff_ne.mpr h,
          List.find?_cons_of_neg (by simpa using Ne.symm h)]
        exact map_find?_eq_lookup k es

/-- **MANY WRITES.**  Under each key a map has what was written there, or what it had. -/
theorem get?_foldl_insert (key : β → κ) (f : β → α) (k : κ) : ∀ (bs : List β)
    (m : InsertionMap κ α), (bs.map key).Nodup →
      (bs.foldl (fun m b => m.insert (key b) (f b)) m).get? k
        = ((bs.find? (fun b => decide (key b = k))).map f).or (m.get? k) := by
  intro bs
  induction bs with
  | nil => exact fun m _ => rfl
  | cons b bs ih =>
      intro m hnodup
      obtain ⟨hb, hbs⟩ := List.nodup_cons.mp hnodup
      rw [List.foldl_cons, ih _ hbs, get?_insert]
      by_cases h : key b = k
      · subst h
        have hnone : bs.find? (fun b' => decide (key b' = key b)) = none := by
          rw [List.find?_eq_none]
          intro b' hb' heq
          exact hb (List.mem_map.mpr ⟨b', hb', by simpa using heq⟩)
        rw [hnone, if_pos rfl, List.find?_cons_of_pos (by simp)]
        rfl
      · rw [if_neg (Ne.symm h), List.find?_cons_of_neg (by simpa using h)]

end InsertionMap

namespace VHono

open ByteString

/-! ## The claims of a payload -/

/-- What a handler should read of a claim of the token: a text that is empty and a time that is
    zero count as none. -/
def claimText (json2 : Json2) (token name : ByteString) : Option ByteString :=
  let member := (tokenMembers token).get? name
  if name ∈ [ascii "sub", ascii "iss", ascii "aud", ascii "jti"] then
    (member.map json2.str).filter (fun s => decide (s ≠ []))
  else if name ∈ [ascii "exp", ascii "nbf", ascii "iat"] then
    ((member.map json2.i64).filter (fun n => decide (n ≠ 0))).map (fun n => intStr n.toInt)
  else member.map json2.str

theorem get?_claims (json2 : Json2) (obj : InsertionMap ByteString Json) (name : ByteString) :
    (obj.entries.foldl (fun claims claim =>
        if claim.1 ∉ standardClaims then claims.insert claim.1 (json2.str claim.2) else claims)
      InsertionMap.empty).get? name
      = if name ∈ standardClaims then none else (obj.get? name).map json2.str := by
  have hfilter : obj.entries.foldl (fun (claims : InsertionMap ByteString ByteString) claim =>
        if claim.1 ∉ standardClaims then claims.insert claim.1 (json2.str claim.2) else claims)
        InsertionMap.empty
      = (obj.entries.filter isCustom).foldl
          (fun claims claim => claims.insert claim.1 (json2.str claim.2)) InsertionMap.empty := by
    simp only [List.foldl_filter, isCustom, decide_eq_true_eq]
  have hnodup : ((obj.entries.filter isCustom).map Prod.fst).Nodup :=
    obj.nodup.sublist (List.Sublist.map _ List.filter_sublist)
  rw [hfilter, InsertionMap.get?_foldl_insert Prod.fst (fun claim => json2.str claim.2) name _ _
    hnodup, InsertionMap.get?_empty, Option.or_none, List.find?_filter]
  by_cases hname : name ∈ standardClaims
  · rw [if_pos hname, List.find?_eq_none.mpr]
    · rfl
    · intro claim _ h
      rw [decide_eq_true_iff, isCustom, decide_eq_true_iff, decide_eq_true_iff] at h
      exact h.1 (h.2 ▸ hname)
  · have hsame : (fun claim : ByteString × Json =>
          decide (isCustom claim = true ∧ decide (claim.1 = name) = true))
        = fun claim => decide (claim.1 = name) := by
      funext claim
      rw [decide_eq_decide, isCustom, decide_eq_true_iff, decide_eq_true_iff]
      exact and_iff_right_of_imp (fun h => h ▸ hname)
    rw [if_neg hname, hsame, InsertionMap.get?, ← InsertionMap.map_find?_eq_lookup, Option.map_map]
    rfl

/-- The payload that is decoded has the members of the token, as they are read. -/
theorem payload_of_token {json2 : Json2} {token : ByteString} {payload : JwtPayload}
    (h : decodeJwt json2 token = .ok payload) :
    (payload.sub = json2.strOf ((tokenMembers token).get? (ascii "sub")) ∧
      payload.iss = json2.strOf ((tokenMembers token).get? (ascii "iss")) ∧
      payload.aud = json2.strOf ((tokenMembers token).get? (ascii "aud")) ∧
      payload.jti = json2.strOf ((tokenMembers token).get? (ascii "jti"))) ∧
    (payload.exp = json2.i64Of ((tokenMembers token).get? (ascii "exp")) ∧
      payload.nbf = json2.i64Of ((tokenMembers token).get? (ascii "nbf")) ∧
      payload.iat = json2.i64Of ((tokenMembers token).get? (ascii "iat"))) ∧
    ∀ name, payload.claims.get? name = if name ∈ standardClaims then none
      else ((tokenMembers token).get? name).map json2.str := by
  rw [decodeJwt] at h
  split at h
  · rename_i header text signature hsplit
    rw [parsePayload] at h
    cases hdecode : JsonText.decode (base64urlDecode text) with
    | none =>
        rw [hdecode] at h
        cases h
    | some raw =>
        rw [hdecode] at h
        have hmembers : tokenMembers token = asMap raw := by
          rw [tokenMembers_eq hsplit, hdecode]
          rfl
        rw [hmembers, ← Except.ok.inj h]
        exact ⟨⟨rfl, rfl, rfl, rfl⟩, ⟨rfl, rfl, rfl⟩, get?_claims json2 (asMap raw)⟩
  · cases h

/-! ## The store -/

def presentText (s : ByteString) : Option ByteString := if s.length > 0 then some s else none

def presentTime (n : Int64) : Option ByteString := if n ≠ 0 then some (intStr n.toInt) else none

/-- The standard claims, each with its text if it is stored. -/
def standardTexts (payload : JwtPayload) : List (ByteString × Option ByteString) :=
  [(ascii "sub", presentText payload.sub), (ascii "iss", presentText payload.iss),
   (ascii "aud", presentText payload.aud), (ascii "exp", presentTime payload.exp),
   (ascii "nbf", presentTime payload.nbf), (ascii "iat", presentTime payload.iat),
   (ascii "jti", presentText payload.jti)]

/-- A claim is stored under its name after `jwt_`, if it has a text. -/
def putClaim (c : Context) (claim : ByteString × Option ByteString) : Context :=
  match claim.2 with
  | some v => c.set (ascii "jwt_" ++ claim.1) v
  | none => c

theorem putClaim_text (c : Context) (name s : ByteString) :
    (if decide (s.length > 0) = true then c.set (ascii "jwt_" ++ name) s else c)
      = putClaim c (name, presentText s) := by
  rw [putClaim, presentText]
  by_cases h : s.length > 0
  · rw [if_pos (decide_eq_true h), if_pos h]
  · rw [if_neg (by simpa using h), if_neg h]

theorem putClaim_time (c : Context) (name : ByteString) (n : Int64) :
    (if decide (n ≠ 0) = true then c.set (ascii "jwt_" ++ name) (intStr n.toInt) else c)
      = putClaim c (name, presentTime n) := by
  rw [putClaim, presentTime]
  by_cases h : n ≠ 0
  · rw [if_pos (decide_eq_true h), if_pos h]
  · rw [if_neg (by simpa using h), if_neg h]

/-- The store is filled in three steps. -/
theorem storeJwtPayload_eq (c : Context) (payload : JwtPayload) : storeJwtPayload c payload
    = (payload.claims.entries.foldl (fun c claim => c.set (ascii "jwt_" ++ claim.1) claim.2)
        ((standardTexts payload).foldl putClaim c)).set (ascii "jwt_payload")
          (encodePayload payload) := by
  have hsub : ascii "jwt_sub" = ascii "jwt_" ++ ascii "sub" := by decide
  have hiss : ascii "jwt_iss" = ascii "jwt_" ++ ascii "iss" := by decide
  have haud : ascii "jwt_aud" = ascii "jwt_" ++ ascii "aud" := by decide
  have hexp : ascii "jwt_exp" = ascii "jwt_" ++ ascii "exp" := by decide
  have hnbf : ascii "jwt_nbf" = ascii "jwt_" ++ ascii "nbf" := by decide
  have hiat : ascii "jwt_iat" = ascii "jwt_" ++ ascii "iat" := by decide
  have hjti : ascii "jwt_jti" = ascii "jwt_" ++ ascii "jti" := by decide
  rw [storeJwtPayload, hsub, hiss, haud, hexp, hnbf, hiat, hjti]
  simp only [standardTexts, List.foldl_cons, List.foldl_nil, ← putClaim_text, ← putClaim_time]

theorem get_putClaim (c : Context) (claim : ByteString × Option ByteString) (name : ByteString) :
    (putClaim c claim).get (ascii "jwt_" ++ name)
      = (if name = claim.1 then claim.2 else none).or (c.get (ascii "jwt_" ++ name)) := by
  obtain ⟨name', v⟩ := claim
  cases v with
  | none => simp [putClaim]
  | some v =>
      rw [putClaim]
      dsimp only
      rw [Context.get, Context.set, InsertionMap.get?_insert]
      by_cases h : name = name'
      · rw [if_pos (by rw [h]), if_pos h]
        rfl
      · rw [if_neg (fun heq => h (List.append_cancel_left heq)), if_neg h]
        rfl

/-- Under each name there is what was put there, or what was there. -/
theorem get_foldl_putClaim (name : ByteString) : ∀ (claims : List (ByteString × Option ByteString))
    (c : Context), (claims.map Prod.fst).Nodup →
      (claims.foldl putClaim c).get (ascii "jwt_" ++ name)
        = (claims.lookup name).join.or (c.get (ascii "jwt_" ++ name)) := by
  intro claims
  induction claims with
  | nil => exact fun c _ => rfl
  | cons claim claims ih =>
      intro c hnodup
      obtain ⟨hclaim, hclaims⟩ := List.nodup_cons.mp hnodup
      rw [List.foldl_cons, ih _ hclaims, get_putClaim, List.lookup_cons]
      by_cases h : name = claim.1
      · have hnone : claims.lookup name = none := by
          rw [List.lookup_eq_none_iff]
          intro claim' hclaim'
          rw [h, bne_iff_ne]
          exact fun heq => hclaim (List.mem_map.mpr ⟨claim', hclaim', heq.symm⟩)
        rw [hnone, if_pos h, beq_iff_eq.mpr h]
        rfl
      · rw [if_neg h, beq_false_of_ne h]
        rfl

theorem store_foldl_set (claims : List (ByteString × ByteString)) : ∀ c : Context,
    (claims.foldl (fun c claim => c.set (ascii "jwt_" ++ claim.1) claim.2) c).store
      = claims.foldl (fun m claim => m.insert (ascii "jwt_" ++ claim.1) claim.2) c.store := by
  induction claims with
  | nil => exact fun c => rfl
  | cons claim claims ih => exact fun c => ih (c.set _ _)

/-- The name is that of a standard claim, or else of one of the others. -/
theorem get_storeJwtPayload (c : Context) {payload : JwtPayload} {name : ByteString}
    (hname : name ≠ ascii "payload") (hfresh : c.get (ascii "jwt_" ++ name) = none) :
    getJwtClaim (storeJwtPayload c payload) name
      = (payload.claims.get? name).or ((standardTexts payload).lookup name).join := by
  have hkey : ascii "jwt_" ++ name ≠ ascii "jwt_payload" :=
    fun h => hname (List.append_cancel_left h)
  have hnodup : (payload.claims.entries.map (fun claim => ascii "jwt_" ++ claim.1)).Nodup := by
    have hmapped := payload.claims.nodup.map (f := fun key => ascii "jwt_" ++ key)
      (fun a b h => List.append_cancel_left h)
    rw [List.map_map] at hmapped
    exact hmapped
  have hstandard := get_foldl_putClaim name (standardTexts payload) c nodup_standardClaims
  rw [hfresh, Option.or_none] at hstandard
  rw [getJwtClaim, storeJwtPayload_eq, Context.get, Context.set,
    InsertionMap.get?_insert_ne _ _ hkey, store_foldl_set,
    InsertionMap.get?_foldl_insert (fun claim : ByteString × ByteString =>
      ascii "jwt_" ++ claim.1) Prod.snd _ _ _ hnodup]
  rw [Context.get] at hstandard
  rw [hstandard]
  simp only [List.append_cancel_left_eq]
  rw [InsertionMap.map_find?_eq_lookup]
  rfl

/-! ## The claims of a token -/

theorem presentText_getD (v : Option ByteString) :
    presentText (v.getD []) = v.filter (fun s => decide (s ≠ [])) := by
  cases v with
  | none => rfl
  | some s =>
      rw [presentText, Option.getD_some, Option.filter_some]
      cases s with
      | nil => rfl
      | cons b s => rfl

theorem presentTime_getD (v : Option Int64) : presentTime (v.getD 0)
    = (v.filter (fun n => decide (n ≠ 0))).map (fun n => intStr n.toInt) := by
  cases v with
  | none => rfl
  | some n =>
      rw [presentTime, Option.getD_some, Option.filter_some]
      by_cases h : n ≠ 0
      · rw [if_pos h, if_pos (decide_eq_true h)]
        rfl
      · rw [if_neg h, if_neg (by simpa using h)]
        rfl

/-- The texts that are stored of a decoded token are those of its members. -/
theorem lookup_standardTexts {json2 : Json2} {token : ByteString} {payload : JwtPayload}
    (h : decodeJwt json2 token = .ok payload) (name : ByteString) :
    (payload.claims.get? name).or ((standardTexts payload).lookup name).join
      = claimText json2 token name := by
  obtain ⟨⟨hsub, hiss, haud, hjti⟩, ⟨hexp, hnbf, hiat⟩, hclaims⟩ := payload_of_token h
  rw [hclaims]
  by_cases hname : name ∈ standardClaims
  · rw [if_pos hname, Option.none_or]
    simp only [standardClaims, List.mem_cons, List.not_mem_nil, or_false] at hname
    rcases hname with rfl | rfl | rfl | rfl | rfl | rfl | rfl
    · show presentText payload.sub = _
      rw [hsub, strOf_eq, presentText_getD]
      rfl
    · show presentText payload.iss = _
      rw [hiss, strOf_eq, presentText_getD]
      rfl
    · show presentText payload.aud = _
      rw [haud, strOf_eq, presentText_getD]
      rfl
    · show presentTime payload.exp = _
      rw [hexp, i64Of_eq, presentTime_getD]
      rfl
    · show presentTime payload.nbf = _
      rw [hnbf, i64Of_eq, presentTime_getD]
      rfl
    · show presentTime payload.iat = _
      rw [hiat, i64Of_eq, presentTime_getD]
      rfl
    · show presentText payload.jti = _
      rw [hjti, strOf_eq, presentText_getD]
      rfl
  · have hlookup : (standardTexts payload).lookup name = none := by
      rw [List.lookup_eq_none_iff]
      intro claim hclaim
      rw [bne_iff_ne]
      rintro rfl
      exact hname (List.mem_map_of_mem (f := Prod.fst) hclaim)
    have htexts : [ascii "sub", ascii "iss", ascii "aud", ascii "jti"] ⊆ standardClaims := by decide
    have htimes : [ascii "exp", ascii "nbf", ascii "iat"] ⊆ standardClaims := by decide
    rw [if_neg hname, hlookup, claimText, if_neg (fun h => hname (htexts h)),
      if_neg (fun h => hname (htimes h))]
    exact Option.or_none

theorem decodeJwt_of_verified {json2 : Json2} {hashes : KeyedHashes} {token secret : ByteString}
    {alg : JwtAlgorithm} {options : JwtVerifyOptions} {now : Int64} {payload : JwtPayload}
    (h : verifyJwtWithOptions json2 hashes token secret alg options now = .ok payload) :
    decodeJwt json2 token = .ok payload := by
  rw [verifyJwtWithOptions] at h
  cases hverify : verifyJwt json2 hashes token secret alg with
  | error err =>
      rw [hverify] at h
      cases h
  | ok result =>
      rw [hverify] at h
      dsimp only at h
      split_ifs at h
      rw [← Except.ok.inj h]
      exact (verifyJwt_eq_ok.mp hverify).2.choose_spec.choose_spec.2.2

/-- Nothing but the signature is looked at. -/
def signatureOnly : JwtOptions :=
  { secret := ascii "k", verifyOptions := { exp := false, nbf := false } }

theorem verified_issuedAtNine : ∃ payload, verifyJwtWithOptions plainJson2 plainHashes issuedAtNine
    signatureOnly.secret signatureOnly.alg signatureOnly.verifyOptions 9 = .ok payload := by
  obtain ⟨payload, hsigned⟩ := accepted_issuedAtNine
  refine (verifyJwtWithOptions_iff hsigned).mpr ?_
  rintro (⟨h, -⟩ | ⟨h, -⟩ | ⟨h, -⟩)
  · cases h
  · cases h
  · exact h rfl

end VHono
