import VHono.Cookies
import VHono.ErrorTexts
import VHono.JwtTimes

/-! # The bodies of refusals

    The validator answers with its errors and the token check with one message,
    put into JSON as they stand.  A body is read as what it was made of exactly
    if all that is quoted can be: names, patterns and values of the schema on
    one side, and on the other the algorithm that the token names, what the
    JSON reader says of a part of it, and the issuers that differ. -/

namespace VHono

open ByteString JsonText

/-! ## Refused data -/

namespace Validator

variable {F : Type}

/-- The errors for the data of a request, or for why there is none. -/
def refusedErrors (lib : Library F) (data : Except ByteString (InsertionMap ByteString Json))
    (properties : Properties F) : List ValidationError :=
  match data with
  | .error msg => [⟨[], msg, ascii "parse_error"⟩]
  | .ok data => (validateSchema lib data properties).errors

/-- All that is quoted of the data and the schema can be. -/
def DataTells (lib : Library F) (data : Except ByteString (InsertionMap ByteString Json))
    (properties : Properties F) : Prop :=
  match data with
  | .error msg => Verbatim msg
  | .ok data => TellsProperties lib True data properties

theorem told_refusedErrors (lib : Library F)
    (data : Except ByteString (InsertionMap ByteString Json)) (properties : Properties F) :
    Told (refusedErrors lib data properties) ↔ DataTells lib data properties := by
  cases data with
  | error msg =>
      have hcode : Verbatim (ascii "parse_error") := by decide
      exact List.forall_mem_singleton.trans
        ((and_iff_right verbatim_nil).trans (and_iff_left hcode))
  | ok data => exact told_validateSchema data properties

end Validator

/-! ## Refused tokens -/

structure JwtOptions where
  secret        : ByteString
  alg           : JwtAlgorithm := .hs256
  cookie        : ByteString := []
  headerName    : ByteString := ascii "Authorization"
  verifyOptions : JwtVerifyOptions := {}

def getJwtToken (c : Context) (options : JwtOptions) : Except ByteString ByteString :=
  match if options.cookie.length > 0 then getCookie c options.cookie else none with
  | some cookieToken => .ok cookieToken
  | none =>
      match c.req.header.getCustom options.headerName with
      | none => .error (ascii "Missing authorization header")
      | some headerValue =>
          if headerValue.length = 0 then .error (ascii "Missing authorization header")
          else if startsWith headerValue (ascii "Bearer ") then
            let token := trimSpace (headerValue.drop 7)
            if token.length = 0 then .error (ascii "Invalid token format") else .ok token
          else .ok headerValue

/-- The error that the middleware answers with, if it does. -/
def jwtRefusal (json2 : Json2) (hashes : KeyedHashes) (options : JwtOptions) (now : Int64)
    (c : Context) : Option ByteString :=
  match getJwtToken c options with
  | .error err => some err
  | .ok token =>
      match verifyJwtWithOptions json2 hashes token options.secret options.alg
        options.verifyOptions now with
      | .error err => some err
      | .ok _ => none

/-- `'{"error":"Unauthorized","message":"${err}"}'` -/
def unauthorizedBody (err : ByteString) : ByteString :=
  ascii "\x7b\"error\":\"Unauthorized\",\"message\":\"" ++ err ++ ascii "\"\x7d"

def unauthorizedJson (err : ByteString) : Json :=
  .object [(ascii "error", .string (ascii "Unauthorized")), (ascii "message", .string err)]

theorem unauthorizedBody_eq (err : ByteString) : unauthorizedBody err
    = rawObject [(ascii "error", ascii "Unauthorized"), (ascii "message", err)] := by
  simp [unauthorizedBody, rawObject, objectText, rawMember, memberText, ascii, List.intercalate]

theorem decode_unauthorizedBody (err : ByteString) :
    decode (unauthorizedBody err) = some (unauthorizedJson err) ↔ Verbatim err := by
  obtain ⟨-, hmessage, -, herror, -⟩ := verbatim_names
  have hfirst : Verbatim (ascii "error") ∧ Verbatim (ascii "Unauthorized") :=
    ⟨herror, by decide⟩
  rw [unauthorizedBody_eq]
  refine (decode_rawObject _).trans ?_
  rw [List.forall_mem_cons, List.forall_mem_singleton, and_iff_right hfirst,
    and_iff_right hmessage]

/-! ## What is quoted of a token -/

/-- The algorithm that a header names, as a text. -/
def algText (json2 : Json2) (raw : Json) : ByteString :=
  json2.str (((asMap raw).get? (ascii "alg")).getD (.string []))

/-- What is quoted of the parts of a token can be: what the JSON reader says of a header that is no
    JSON, an algorithm that is none of the three, and what the reader says of a payload that is no
    JSON though it is signed. -/
structure PartsTell (json2 : Json2) (hashes : KeyedHashes) (secret : ByteString)
    (alg : JwtAlgorithm) (header payload signature : ByteString) : Prop where
  headerJson  : decode (base64urlDecode header) = none →
    Verbatim (json2.decodeError (base64urlDecode header))
  unsupported : ∀ raw, decode (base64urlDecode header) = some raw → headerAlg json2 header = none →
    Verbatim (algText json2 raw)
  payloadJson : headerAlg json2 header = some alg →
    signature = base64urlEncode (hashes.signMessage (header ++ ascii "." ++ payload) secret alg) →
    decode (base64urlDecode payload) = none →
    Verbatim (json2.decodeError (base64urlDecode payload))

/-- What basic verification quotes of a token can be quoted. -/
def SignedTells (json2 : Json2) (hashes : KeyedHashes) (token secret : ByteString)
    (alg : JwtAlgorithm) : Prop :=
  secret ≠ [] → ∀ header payload signature,
    token.splitOn (byte '.') = [header, payload, signature] →
    PartsTell json2 hashes secret alg header payload signature

/-- And the two issuers, of a token whose times are right, if they differ. -/
structure TokenTells (json2 : Json2) (hashes : KeyedHashes) (token : ByteString)
    (options : JwtOptions) (now : Int64) : Prop where
  signed : SignedTells json2 hashes token options.secret options.alg
  issuer : Accepted json2 hashes token options.secret options.alg →
    ¬ (options.verifyOptions.exp = true ∧
      ∃ e, tokenTime json2 token (ascii "exp") = some e ∧ e ≠ 0 ∧ e < now) →
    ¬ (options.verifyOptions.nbf = true ∧
      ∃ n, tokenTime json2 token (ascii "nbf") = some n ∧ n ≠ 0 ∧ now < n) →
    options.verifyOptions.iss ≠ [] ∧ tokenIssuer json2 token ≠ some options.verifyOptions.iss →
    Verbatim options.verifyOptions.iss ∧ Verbatim ((tokenIssuer json2 token).getD [])

/-- If there is an error, it can be quoted. -/
def ErrorTold {α : Type} (r : Except ByteString α) : Prop := ∀ err, r = .error err → Verbatim err

theorem errorTold_ok {α : Type} (a : α) : ErrorTold (.ok a) := by
  rintro err ⟨⟩

theorem errorTold_error {α : Type} {err : ByteString} :
    ErrorTold (.error err : Except ByteString α) ↔ Verbatim err :=
  ⟨fun h => h err rfl, fun h _ heq => Except.error.inj heq ▸ h⟩

variable {json2 : Json2} {hashes : KeyedHashes} {token secret : ByteString} {alg : JwtAlgorithm}

theorem errorTold_decodeJwt {header payload signature : ByteString}
    (h : token.splitOn (byte '.') = [header, payload, signature]) :
    ErrorTold (decodeJwt json2 token) ↔ (decode (base64urlDecode payload) = none →
      Verbatim (json2.decodeError (base64urlDecode payload))) := by
  rw [decodeJwt, h]
  dsimp only
  rw [parsePayload]
  cases decode (base64urlDecode payload) with
  | none =>
      dsimp only
      rw [errorTold_error, verbatim_before (by decide)]
      exact true_imp_iff.symm.trans (imp_congr_left (iff_of_true trivial rfl))
  | some raw => exact iff_of_true (errorTold_ok _) (fun h => (by cases h))

theorem algToString_of_ok {s : ByteString} {a : JwtAlgorithm} (h : stringToAlg s = .ok a) :
    s = algToString a := by
  rw [stringToAlg] at h
  split at h
  · rename_i hs
    rw [← Except.ok.inj h, hs, algToString]
  · split at h
    · rename_i hs
      rw [← Except.ok.inj h, hs, algToString]
    · split at h
      · rename_i hs
        rw [← Except.ok.inj h, hs, algToString]
      · cases h

theorem stringToAlg_error {s err : ByteString} (h : stringToAlg s = .error err) :
    err = ascii "Unsupported algorithm: " ++ s := by
  rw [stringToAlg] at h
  split at h
  · cases h
  · split at h
    · cases h
    · split at h
      · cases h
      · exact (Except.error.inj h).symm

theorem verbatim_algToString (a : JwtAlgorithm) : ∀ b ∈ algToString a, isPlainByte b = true := by
  cases a <;> decide

/-- Of three parts the error is told if what is quoted of them can be. -/
theorem errorTold_parts (hsecret : secret ≠ []) {header payload signature : ByteString}
    (h : token.splitOn (byte '.') = [header, payload, signature]) :
    ErrorTold (verifyJwt json2 hashes token secret alg) ↔
      PartsTell json2 hashes secret alg header payload signature := by
  have hlength : ¬ secret.length = 0 := fun hzero => hsecret (List.length_eq_zero_iff.mp hzero)
  have halgs : headerAlg json2 header = ((decode (base64urlDecode header)).bind
      (fun raw => (stringToAlg (algText json2 raw)).toOption)) := by
    rw [headerAlg]
    cases decode (base64urlDecode header) <;> rfl
  rw [verifyJwt, if_neg hlength, h]
  dsimp only
  cases hheader : decode (base64urlDecode header) with
  | none =>
      rw [hheader, Option.bind_none] at halgs
      dsimp only
      rw [errorTold_error, verbatim_before (by decide)]
      refine ⟨fun hquote => ⟨fun _ => hquote, fun raw hraw => ?_, fun halg => ?_⟩,
        fun hparts => hparts.headerJson hheader⟩
      · rw [hheader] at hraw
        cases hraw
      · rw [halgs] at halg
        cases halg
  | some raw =>
      rw [hheader, Option.bind_some] at halgs
      dsimp only
      have hjson : ¬ decode (base64urlDecode header) = none := by
        rw [hheader]
        exact Option.some_ne_none raw
      have hfold : json2.str (((asMap raw).get? (ascii "alg")).getD (.string []))
          = algText json2 raw := rfl
      rw [hfold]
      cases halg : stringToAlg (algText json2 raw) with
      | error err =>
          rw [halg] at halgs
          dsimp only
          rw [errorTold_error, stringToAlg_error halg, verbatim_before (by decide)]
          refine ⟨fun hquote => ⟨fun hnone => absurd hnone hjson, fun raw' hraw' _ => ?_,
            fun hsame => ?_⟩, fun hparts => hparts.unsupported raw hheader halgs⟩
          · rw [hheader] at hraw'
            rwa [← Option.some.inj hraw']
          · rw [halgs] at hsame
            cases hsame
      | ok tokenAlg =>
          rw [halg] at halgs
          have hnamed : ¬ headerAlg json2 header = none := by
            rw [halgs]
            exact Option.some_ne_none tokenAlg
          dsimp only
          by_cases hsame : tokenAlg = alg
          · rw [if_neg (not_not.mpr hsame)]
            have hkind : headerAlg json2 header = some alg := by
              rw [halgs, ← hsame]
              rfl
            by_cases hsign : signature = base64urlEncode
                (hashes.signMessage (header ++ ascii "." ++ payload) secret alg)
            · have hcompare := (constantTimeCompareJwt_iff _ _).mpr hsign
              rw [hcompare, Bool.not_true, if_neg Bool.false_ne_true, errorTold_decodeJwt h]
              exact ⟨fun hpayload => ⟨fun hnone => absurd hnone hjson,
                fun _ _ hnone => absurd hnone hnamed, fun _ _ => hpayload⟩,
                fun hparts => hparts.payloadJson hkind hsign⟩
            · have hcompare := Bool.eq_false_iff.mpr
                (fun heq => hsign ((constantTimeCompareJwt_iff _ _).mp heq))
              rw [hcompare, Bool.not_false, if_pos rfl]
              exact iff_of_true (errorTold_error.mpr (by decide))
                ⟨fun hnone => absurd hnone hjson, fun _ _ hnone => absurd hnone hnamed,
                  fun _ hsigned => absurd hsigned hsign⟩
          · rw [if_pos hsame, errorTold_error, algToString_of_ok halg]
            refine iff_of_true ?_ ⟨fun hnone => absurd hnone hjson,
              fun _ _ hnone => absurd hnone hnamed, fun hkind => ?_⟩
            · exact (verbatim_after (verbatim_algToString tokenAlg) _).mpr
                ((verbatim_after (by decide) _).mpr
                  ((verbatim_after (verbatim_algToString alg) _).mpr (by decide)))
            · rw [halgs] at hkind
              exact absurd (Option.some.inj hkind) hsame

theorem errorTold_verifyJwt :
    ErrorTold (verifyJwt json2 hashes token secret alg) ↔
      SignedTells json2 hashes token secret alg := by
  by_cases hsecret : secret = []
  · have herror : verifyJwt json2 hashes token secret alg = .error (ascii "Secret is required") :=
      if_pos (List.length_eq_zero_iff.mpr hsecret)
    rw [herror, errorTold_error]
    exact iff_of_true (by decide) (fun hne => absurd hsecret hne)
  · have hlength : ¬ secret.length = 0 := fun hzero => hsecret (List.length_eq_zero_iff.mp hzero)
    by_cases hparts : ∃ header payload signature,
        token.splitOn (byte '.') = [header, payload, signature]
    · obtain ⟨header, payload, signature, h⟩ := hparts
      rw [errorTold_parts hsecret h]
      refine ⟨fun hone _ header' payload' signature' h' => ?_, fun hall => hall hsecret _ _ _ h⟩
      rw [h] at h'
      obtain ⟨rfl, hrest⟩ := List.cons.inj h'
      obtain ⟨rfl, hlast⟩ := List.cons.inj hrest
      obtain ⟨rfl, -⟩ := List.cons.inj hlast
      exact hone
    · have herror : verifyJwt json2 hashes token secret alg
          = .error (ascii "Invalid token format") := by
        rw [verifyJwt, if_neg hlength]
        split
        · rename_i header payload signature h
          exact absurd ⟨header, payload, signature, h⟩ hparts
        · rfl
      rw [herror, errorTold_error]
      exact iff_of_true (by decide)
        (fun _ header payload signature h => absurd ⟨header, payload, signature, h⟩ hparts)

variable {options : JwtOptions} {now : Int64}

/-- The error of a token can be quoted exactly if what is quoted of it can be. -/
theorem errorTold_verifyJwtWithOptions :
    ErrorTold (verifyJwtWithOptions json2 hashes token options.secret options.alg
      options.verifyOptions now) ↔ TokenTells json2 hashes token options now := by
  rw [verifyJwtWithOptions]
  cases hverify : verifyJwt json2 hashes token options.secret options.alg with
  | error err =>
      dsimp only
      have hsigned : ErrorTold (verifyJwt json2 hashes token options.secret options.alg) ↔
          Verbatim err := by
        rw [hverify, errorTold_error]
      rw [errorTold_error, ← hsigned, errorTold_verifyJwt]
      refine ⟨fun h => ⟨h, ?_⟩, fun h => h.signed⟩
      rintro ⟨payload, haccepted⟩
      rw [hverify] at haccepted
      cases haccepted
  | ok payload =>
      have haccepted : Accepted json2 hashes token options.secret options.alg := ⟨payload, hverify⟩
      have hsigned : SignedTells json2 hashes token options.secret options.alg := by
        rw [← errorTold_verifyJwt, hverify]
        exact errorTold_ok payload
      obtain ⟨-, -, -, -, -, hdecode⟩ := verifyJwt_eq_ok.mp hverify
      obtain ⟨hexp, hnbf, hiss⟩ := payload_of_decodeJwt hdecode
      have hissuer : Verbatim (ascii "Invalid issuer: expected " ++ options.verifyOptions.iss ++
          ascii ", got " ++ payload.iss) ↔
            Verbatim options.verifyOptions.iss ∧ Verbatim payload.iss := by
        rw [List.append_assoc, List.append_assoc, verbatim_before (by decide)]
        exact (verbatim_between (by decide) _ _).trans
          (and_congr_right (fun _ => verbatim_before (p := ascii " got ") (by decide) _))
      have hpremise : TokenTells json2 hashes token options now ↔
          (¬ ((options.verifyOptions.exp = true ∧ payload.exp ≠ 0) ∧ now > payload.exp) →
            ¬ ((options.verifyOptions.nbf = true ∧ payload.nbf ≠ 0) ∧ now < payload.nbf) →
            options.verifyOptions.iss.length > 0 ∧ payload.iss ≠ options.verifyOptions.iss →
            Verbatim options.verifyOptions.iss ∧ Verbatim payload.iss) := by
        rw [hexp, hnbf, hiss, expired_iff, early_iff, otherIssuer_iff]
        exact ⟨fun h => h.issuer haccepted, fun h => ⟨hsigned, fun _ => h⟩⟩
      rw [hpremise, ← hissuer]
      dsimp only
      split
      · rename_i hexpired
        exact iff_of_true (errorTold_error.mpr (by decide)) (fun h => absurd hexpired h)
      · rename_i hexpired
        rw [forall_prop_of_true hexpired]
        split
        · rename_i hearly
          exact iff_of_true (errorTold_error.mpr (by decide)) (fun h => absurd hearly h)
        · rename_i hearly
          rw [forall_prop_of_true hearly]
          split
          · rename_i hother
            rw [forall_prop_of_true hother]
            exact errorTold_error
          · rename_i hother
            exact iff_of_true (errorTold_ok payload) (fun h => absurd h hother)

/-- The errors without a token are constant. -/
theorem verbatim_getJwtToken {c : Context} : ErrorTold (getJwtToken c options) := by
  rw [getJwtToken]
  split
  · exact errorTold_ok _
  · split
    · exact errorTold_error.mpr (by decide)
    · split
      · exact errorTold_error.mpr (by decide)
      · split
        · dsimp only
          split
          · exact errorTold_error.mpr (by decide)
          · exact errorTold_ok _
        · exact errorTold_ok _

theorem verbatim_jwtRefusal {c : Context} :
    (∀ err, jwtRefusal json2 hashes options now c = some err → Verbatim err) ↔
      ∀ token, getJwtToken c options = .ok token → TokenTells json2 hashes token options now := by
  rw [jwtRefusal]
  cases htoken : getJwtToken c options with
  | error err =>
      refine iff_of_true (fun err' herr => ?_) (fun token h => (by cases h))
      rw [← Option.some.inj herr]
      exact verbatim_getJwtToken err htoken
  | ok token =>
      have hone : (∀ token', (Except.ok token : Except ByteString ByteString) = .ok token' →
          TokenTells json2 hashes token' options now) ↔ TokenTells json2 hashes token options now :=
        ⟨fun h => h token rfl, fun h _ heq => Except.ok.inj heq ▸ h⟩
      rw [hone, ← errorTold_verifyJwtWithOptions]
      dsimp only
      cases verifyJwtWithOptions json2 hashes token options.secret options.alg
          options.verifyOptions now with
      | error err =>
          rw [errorTold_error]
          exact ⟨fun h => h err rfl, fun h _ heq => Option.some.inj heq ▸ h⟩
      | ok payload => exact iff_of_true (fun err h => (by cases h)) (errorTold_ok payload)

/-! ## Both bodies -/

/-- The body for refused data is read as the errors. -/
def ReportsErrors {F : Type} (lib : Validator.Library F)
    (data : Except ByteString (InsertionMap ByteString Json))
    (properties : Validator.Properties F) : Prop :=
  decode (buildErrorResponse (Validator.refusedErrors lib data properties))
    = some (errorsJson (Validator.refusedErrors lib data properties))

/-- The body for a refused token is read as the message. -/
def ReportsToken (json2 : Json2) (hashes : KeyedHashes) (options : JwtOptions) (now : Int64)
    (c : Context) : Prop :=
  ∀ err, jwtRefusal json2 hashes options now c = some err →
    decode (unauthorizedBody err) = some (unauthorizedJson err)

theorem reportsErrors_quoted {F : Type} {lib : Validator.Library F}
    {data : Except ByteString (InsertionMap ByteString Json)}
    {properties : Validator.Properties F} :
    ReportsErrors lib data properties ↔ Validator.DataTells lib data properties := by
  rw [ReportsErrors, decode_buildErrorResponse, Validator.told_refusedErrors]

theorem reportsToken_quoted {c : Context} :
    ReportsToken json2 hashes options now c ↔
      ∀ token, getJwtToken c options = .ok token → TokenTells json2 hashes token options now := by
  rw [← verbatim_jwtRefusal]
  exact forall₂_congr (fun err _ => decode_unauthorizedBody err)

/-- **ERROR BODIES.**  The body for refused data is read as its errors, and the one for a refused
    token as its message, exactly if what they quote of the schema and the data, and of the token,
    can stand between quotes. -/
theorem errorBodies_iff {F : Type} (lib : Validator.Library F)
    (data : Except ByteString (InsertionMap ByteString Json))
    (properties : Validator.Properties F) (json2 : Json2) (hashes : KeyedHashes)
    (options : JwtOptions) (now : Int64) (c : Context) :
    (ReportsErrors lib data properties ↔ Validator.DataTells lib data properties) ∧
      (ReportsToken json2 hashes options now c ↔
        ∀ token, getJwtToken c options = .ok token →
          TokenTells json2 hashes token options now) :=
  ⟨reportsErrors_quoted, reportsToken_quoted⟩

/-- A library that knows the pattern of digits. -/
def digitsLibrary : Validator.Library Nat :=
  { Validator.sampleLibrary with
    regexOpt := fun pattern =>
      if pattern = ascii "^\\d+$" then some (fun text => text ≠ [] && text.all isDigitByte)
      else none }

def digitsProperties : Validator.Properties Nat :=
  .cons (ascii "code") (.string ⟨true, 0, 0, ascii "^\\d+$", []⟩) .nil

def lettersData : InsertionMap ByteString Json :=
  InsertionMap.empty.insert (ascii "code") (.string (ascii "abc"))

/-- `{"alg":"\""}` -/
def quoteAlgHeader : ByteString := base64urlEncode (ascii "\x7b\"alg\":\"\\\"\"\x7d")

def bearerContext (token : ByteString) : Context where
  req := ⟨.get, ascii "/", [], [(ascii "Authorization", ascii "Bearer " ++ token)]⟩
  params := .empty
  query := .empty
  url := ascii "/"
  path := ascii "/"
  statusCode := 200
  headers := .empty
  body := []
  store := .empty

/-- A pattern with a backslash, and a quote for an algorithm, break the bodies. -/
theorem quoted_texts_unreadable :
    ¬ ReportsErrors digitsLibrary (.ok lettersData) digitsProperties ∧
      ¬ ReportsToken plainJson2 plainHashes { secret := ascii "k" } 0
        (bearerContext (quoteAlgHeader ++ ascii ".e30.x")) := by
  refine ⟨fun h => ?_, fun h => ?_⟩
  · have htold := (decode_buildErrorResponse _).mp h
    have hmessage : Validator.refusedErrors digitsLibrary (.ok lettersData) digitsProperties
        = [⟨ascii "code", ascii "Value does not match pattern: ^\\d+$", ascii "pattern"⟩] := by
      decide +kernel
    rw [hmessage] at htold
    exact absurd (htold _ (List.mem_cons_self ..)).2.1 (by decide +kernel)
  · have hrefused : jwtRefusal plainJson2 plainHashes { secret := ascii "k" } 0
        (bearerContext (quoteAlgHeader ++ ascii ".e30.x"))
        = some (ascii "Unsupported algorithm: \"") := by
      decide +kernel
    exact absurd ((decode_unauthorizedBody _).mp (h _ hrefused)) (by decide +kernel)

end VHono
