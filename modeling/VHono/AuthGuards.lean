import VHono.Guards
import VHono.MiddlewareOnion
import VHono.ErrorBodies
import VHono.AuthSessions
import VHono.DispatchAgreement

/-! # The middlewares that guard

    The session, permission, bearer and JWT middlewares and CORS either run the
    rest of the chain once or answer themselves.  Each is written as in the
    source and shown to be the layer of a guard. -/

namespace VHono

open ByteString Guards MachineRuns

/-- A middleware returns the response and the context that it leaves. -/
abbrev Middleware := ContextMiddleware Context (HttpResponse × Context)

/-- `c.status(code)` and `return c.json(body)` -/
def Context.reply (c : Context) (code : Int) (body : ByteString) : HttpResponse × Context :=
  ((c.status code).json body, c.status code)

/-! ## Sessions and permissions -/

/-- `json2.encode[ErrorResponseBody](ErrorResponseBody{error: …})` of a plain text. -/
def errorResponseBody (error : ByteString) : ByteString :=
  ascii "\x7b\"error\":\"" ++ error ++ ascii "\"\x7d"

/-- `c.req.header.get_custom('Authorization') or { '' }` -/
def authorization (c : Context) : ByteString :=
  (c.req.header.getCustom (ascii "Authorization")).getD []

def authMiddleware (verifyToken : ByteString → Except ByteString User) : Middleware :=
  fun c next =>
    if authorization c = [] then
      c.reply 401 (errorResponseBody (ascii "Authorization token required"))
    else
      match verifyToken (authorization c) with
      | .error _ => c.reply 401 (errorResponseBody (ascii "Invalid or expired token"))
      | .ok _ => next c

def permissionMiddleware (verifyToken : ByteString → Except ByteString User)
    (requiredPermission : ByteString) : Middleware := fun c next =>
  match verifyToken (authorization c) with
  | .error _ => c.reply 401 (errorResponseBody (ascii "Invalid or expired token"))
  | .ok user =>
    if !checkPermission user.role requiredPermission then
      c.reply 403 (errorResponseBody (ascii "Insufficient permissions"))
    else next c

/-! ## Bearer tokens -/

inductive BearerToken
  | one (token : ByteString)
  | many (tokens : List ByteString)

structure BearerAuthOptions where
  token        : BearerToken
  realm        : ByteString := []
  /-- `prefix` -/
  pfx          : ByteString := ascii "Bearer"
  headerName   : ByteString := ascii "Authorization"
  hashFunction : Option (ByteString → ByteString) := none
  verifyToken  : Option (ByteString → Context → Bool) := none

def extractBearerToken (authHeader pfx : ByteString) : Except ByteString ByteString :=
  let expectedPrefix := pfx ++ ascii " "
  if !startsWith authHeader expectedPrefix then .error (ascii "Invalid authorization format")
  else
    let token := trimSpace (authHeader.drop expectedPrefix.length)
    if token.length = 0 then .error (ascii "Empty token") else .ok token

/-- The same loop as for the signature of a JWT. -/
def constantTimeCompareBearer (a b : ByteString) : Bool := constantTimeCompareJwt a b

def secureTokenCompare (provided expected : ByteString)
    (hashFn : Option (ByteString → ByteString)) : Bool :=
  match hashFn with
  | some hashFunction => constantTimeCompareBearer (hashFunction provided) (hashFunction expected)
  | none => constantTimeCompareBearer provided expected

def validateBearerToken (token : ByteString) (options : BearerAuthOptions) (c : Context) : Bool :=
  match options.verifyToken with
  | some verifyFn => verifyFn token c
  | none =>
    match options.token with
    | .one validToken => secureTokenCompare token validToken options.hashFunction
    | .many tokens =>
      tokens.any (fun validToken => secureTokenCompare token validToken options.hashFunction)

def unauthorizedResponse (c : Context) (realm message : ByteString) : HttpResponse × Context :=
  let wwwAuth :=
    if realm.length > 0 then ascii "Bearer realm=\"" ++ realm ++ ascii "\"" else ascii "Bearer"
  (c.setHeader (ascii "WWW-Authenticate") wwwAuth).reply 401 (unauthorizedBody message)

def bearerAuth (options : BearerAuthOptions) : Middleware := fun c next =>
  match c.req.header.getCustom options.headerName with
  | none => unauthorizedResponse c options.realm (ascii "Missing authorization header")
  | some authHeader =>
    if authHeader.length = 0 then
      unauthorizedResponse c options.realm (ascii "Missing authorization header")
    else
      match extractBearerToken authHeader options.pfx with
      | .error _ => unauthorizedResponse c options.realm (ascii "Invalid token format")
      | .ok token =>
        if !validateBearerToken token options c then
          unauthorizedResponse c options.realm (ascii "Invalid token")
        else next (c.set (ascii "bearer_token") token)

def getBearerToken (c : Context) : Option ByteString := c.get (ascii "bearer_token")

/-! ## JSON web tokens -/

def jwtMiddleware (json2 : Json2) (hashes : KeyedHashes) (options : JwtOptions) (now : Int64) :
    Middleware := fun c next =>
  match getJwtToken c options with
  | .error err => c.reply 401 (unauthorizedBody err)
  | .ok token =>
    match verifyJwtWithOptions json2 hashes token options.secret options.alg
        options.verifyOptions now with
    | .error err => c.reply 401 (unauthorizedBody err)
    | .ok payload => next (storeJwtPayload c payload)

def getJwtClaim (c : Context) (key : ByteString) : Option ByteString := c.get (ascii "jwt_" ++ key)

/-! ## CORS -/

inductive CorsOrigin
  | one (origin : ByteString)
  | many (origins : List ByteString)
  | callback (f : ByteString → Context → ByteString)

structure CorsOptions where
  origin        : CorsOrigin := .one (ascii "*")
  allowMethods  : List ByteString :=
    [ascii "GET", ascii "HEAD", ascii "PUT", ascii "POST", ascii "DELETE", ascii "PATCH"]
  allowHeaders  : List ByteString := []
  exposeHeaders : List ByteString := []
  maxAge        : Int := 0
  credentials   : Bool := false

/-- The loop over several origins. -/
def originAmong (requestOrigin : ByteString) : List ByteString → ByteString
  | [] => []
  | allowed :: rest =>
    if allowed = ascii "*" then ascii "*"
    else if allowed = requestOrigin then requestOrigin
    else originAmong requestOrigin rest

def getAllowedOrigin (requestOrigin : ByteString) (originConfig : CorsOrigin) (c : Context) :
    ByteString :=
  match originConfig with
  | .one origin =>
    if origin = ascii "*" then ascii "*"
    else if origin = requestOrigin then requestOrigin
    else []
  | .many origins => originAmong requestOrigin origins
  | .callback f => f requestOrigin c

/-- `words.join(', ')` -/
def commaList (words : List ByteString) : ByteString := (ascii ", ").intercalate words

def handlePreflight (c : Context) (opts : CorsOptions) : HttpResponse × Context :=
  let c := if opts.allowMethods.length > 0 then
      c.setHeader (ascii "Access-Control-Allow-Methods") (commaList opts.allowMethods)
    else c
  let c := if opts.allowHeaders.length > 0 then
      c.setHeader (ascii "Access-Control-Allow-Headers") (commaList opts.allowHeaders)
    else
      match c.req.header.getCustom (ascii "Access-Control-Request-Headers") with
      | some requestHeaders => c.setHeader (ascii "Access-Control-Allow-Headers") requestHeaders
      | none => c
  let c := if opts.maxAge > 0 then
      c.setHeader (ascii "Access-Control-Max-Age") (intStr opts.maxAge)
    else c
  let c := c.status 204
  ({ statusCode := c.statusCode
     header := Header.addAll [] ((ascii "Connection", ascii "keep-alive") :: c.headers.entries)
     body := [] }, c)

/-- The headers that every allowed origin is answered with. -/
def grantOrigin (c : Context) (opts : CorsOptions) (allowedOrigin : ByteString) : Context :=
  let c := c.setHeader (ascii "Access-Control-Allow-Origin") allowedOrigin
  let c := if opts.credentials then
      c.setHeader (ascii "Access-Control-Allow-Credentials") (ascii "true")
    else c
  if opts.exposeHeaders.length > 0 then
    c.setHeader (ascii "Access-Control-Expose-Headers") (commaList opts.exposeHeaders)
  else c

/-- `c.req.header.get_custom('Origin') or { '' }` -/
def requestOrigin (c : Context) : ByteString := (c.req.header.getCustom (ascii "Origin")).getD []

def cors (opts : CorsOptions) : Middleware := fun c next =>
  let origin := requestOrigin c
  if origin.length = 0 then next c
  else
    let allowedOrigin := getAllowedOrigin origin opts.origin c
    if allowedOrigin.length = 0 then next c
    else
      let c := grantOrigin c opts allowedOrigin
      if c.req.method = .options then handlePreflight c opts else next c

/-! ## The guards -/

abbrev ContextGuard := Guard Context (HttpResponse × Context)

/-- One of the middlewares, with its arguments. -/
inductive SourceGuard
  | auth (verifyToken : ByteString → Except ByteString User)
  | permission (verifyToken : ByteString → Except ByteString User)
      (requiredPermission : ByteString)
  | bearer (options : BearerAuthOptions)
  | jwt (json2 : Json2) (hashes : KeyedHashes) (options : JwtOptions) (now : Int64)
  | cors (opts : CorsOptions)

/-- The token that a bearer guard accepts, or why it does not. -/
def bearerToken (options : BearerAuthOptions) (c : Context) : Except ByteString ByteString :=
  match c.req.header.getCustom options.headerName with
  | none => .error (ascii "Missing authorization header")
  | some authHeader =>
    if authHeader.length = 0 then .error (ascii "Missing authorization header")
    else
      match extractBearerToken authHeader options.pfx with
      | .error _ => .error (ascii "Invalid token format")
      | .ok token =>
        if !validateBearerToken token options c then .error (ascii "Invalid token") else .ok token

/-- The payload that a JWT guard accepts, or why it does not. -/
def jwtPayload (json2 : Json2) (hashes : KeyedHashes) (options : JwtOptions) (now : Int64)
    (c : Context) : Except ByteString JwtPayload :=
  match getJwtToken c options with
  | .error err => .error err
  | .ok token =>
    verifyJwtWithOptions json2 hashes token options.secret options.alg options.verifyOptions now

/-- The origin that is allowed, or the empty one. -/
def corsOrigin (opts : CorsOptions) (c : Context) : ByteString :=
  if (requestOrigin c).length = 0 then [] else getAllowedOrigin (requestOrigin c) opts.origin c

namespace SourceGuard

def middleware : SourceGuard → Middleware
  | auth verifyToken => authMiddleware verifyToken
  | permission verifyToken requiredPermission => permissionMiddleware verifyToken requiredPermission
  | bearer options => bearerAuth options
  | jwt json2 hashes options now => jwtMiddleware json2 hashes options now
  | cors opts => VHono.cors opts

def guard : SourceGuard → Context → Except (HttpResponse × Context) Context
  | auth verifyToken, c =>
    if authorization c = [] then
      .error (c.reply 401 (errorResponseBody (ascii "Authorization token required")))
    else
      match verifyToken (authorization c) with
      | .error _ => .error (c.reply 401 (errorResponseBody (ascii "Invalid or expired token")))
      | .ok _ => .ok c
  | permission verifyToken requiredPermission, c =>
    match verifyToken (authorization c) with
    | .error _ => .error (c.reply 401 (errorResponseBody (ascii "Invalid or expired token")))
    | .ok user =>
      if !checkPermission user.role requiredPermission then
        .error (c.reply 403 (errorResponseBody (ascii "Insufficient permissions")))
      else .ok c
  | bearer options, c =>
    match bearerToken options c with
    | .error message => .error (unauthorizedResponse c options.realm message)
    | .ok token => .ok (c.set (ascii "bearer_token") token)
  | jwt json2 hashes options now, c =>
    match jwtPayload json2 hashes options now c with
    | .error err => .error (c.reply 401 (unauthorizedBody err))
    | .ok payload => .ok (storeJwtPayload c payload)
  | cors opts, c =>
    if corsOrigin opts c = [] then .ok c
    else
      let granted := grantOrigin c opts (corsOrigin opts c)
      if granted.req.method = .options then .error (handlePreflight granted opts) else .ok granted

/-- Each middleware is the layer of its guard. -/
theorem middleware_eq (k : SourceGuard) : k.middleware = Guard.layer k.guard := by
  funext c next
  cases k with
  | auth verifyToken =>
      show authMiddleware verifyToken c next = _
      rw [authMiddleware, Guard.layer, guard]
      by_cases hempty : authorization c = []
      · rw [if_pos hempty, if_pos hempty]
      · rw [if_neg hempty, if_neg hempty]
        cases verifyToken (authorization c) with
        | error err => rfl
        | ok user => rfl
  | permission verifyToken requiredPermission =>
      show permissionMiddleware verifyToken requiredPermission c next = _
      rw [permissionMiddleware, Guard.layer, guard]
      cases verifyToken (authorization c) with
      | error err => rfl
      | ok user =>
          dsimp only
          split
          · rfl
          · rfl
  | bearer options =>
      show bearerAuth options c next = _
      rw [bearerAuth, Guard.layer, guard, bearerToken]
      cases c.req.header.getCustom options.headerName with
      | none => rfl
      | some authHeader =>
          dsimp only
          split
          · rfl
          · cases extractBearerToken authHeader options.pfx with
            | error err => rfl
            | ok token =>
                dsimp only
                split
                · rfl
                · rfl
  | jwt json2 hashes options now =>
      show jwtMiddleware json2 hashes options now c next = _
      rw [jwtMiddleware, Guard.layer, guard, jwtPayload]
      cases getJwtToken c options with
      | error err => rfl
      | ok token =>
          dsimp only
          cases verifyJwtWithOptions json2 hashes token options.secret options.alg
              options.verifyOptions now with
          | error err => rfl
          | ok payload => rfl
  | cors opts =>
      show VHono.cors opts c next = _
      rw [VHono.cors, Guard.layer, guard, corsOrigin]
      by_cases horigin : (requestOrigin c).length = 0
      · simp only [if_pos horigin, if_true]
      · simp only [if_neg horigin]
        by_cases hallowed : getAllowedOrigin (requestOrigin c) opts.origin c = []
        · simp only [hallowed, List.length_nil, if_true]
        · simp only [if_neg hallowed, if_neg (mt List.length_eq_zero_iff.mp hallowed)]
          split
          · rfl
          · rfl

/-! ## What they accept -/

end SourceGuard

def BearerToken.tokens : BearerToken → List ByteString
  | .one token => [token]
  | .many tokens => tokens

namespace BearerAuthOptions

def hashed (options : BearerAuthOptions) (token : ByteString) : ByteString :=
  (options.hashFunction.getD id) token

/-- The callback says so, or else the token has the hash of one of those configured. -/
def Accepts (options : BearerAuthOptions) (token : ByteString) (c : Context) : Prop :=
  match options.verifyToken with
  | some verifyFn => verifyFn token c = true
  | none => ∃ validToken ∈ options.token.tokens, options.hashed token = options.hashed validToken

theorem secureTokenCompare_iff (options : BearerAuthOptions) (provided expected : ByteString) :
    secureTokenCompare provided expected options.hashFunction = true ↔
      options.hashed provided = options.hashed expected := by
  rw [hashed, hashed]
  cases options.hashFunction with
  | none => exact constantTimeCompareJwt_iff _ _
  | some hashFunction => exact constantTimeCompareJwt_iff _ _

theorem validate_iff (options : BearerAuthOptions) (token : ByteString) (c : Context) :
    validateBearerToken token options c = true ↔ options.Accepts token c := by
  rw [validateBearerToken, Accepts]
  cases options.verifyToken with
  | some verifyFn => exact Iff.rfl
  | none =>
      dsimp only
      cases options.token with
      | one validToken =>
          rw [BearerToken.tokens]
          simp only [secureTokenCompare_iff, List.mem_singleton, exists_eq_left]
      | many tokens =>
          rw [BearerToken.tokens, List.any_eq_true]
          simp only [secureTokenCompare_iff]

end BearerAuthOptions

theorem extractBearerToken_iff {authHeader pfx token : ByteString} :
    extractBearerToken authHeader pfx = .ok token ↔
      ∃ rest, authHeader = pfx ++ ascii " " ++ rest ∧ token = trimSpace rest ∧ token ≠ [] := by
  rw [extractBearerToken]
  dsimp only
  by_cases hstart : startsWith authHeader (pfx ++ ascii " ") = true
  · obtain ⟨rest, rfl⟩ := startsWith_iff.mp hstart
    rw [hstart, List.drop_left]
    simp only [Bool.not_true, Bool.false_eq_true, if_false, List.length_eq_zero_iff]
    by_cases hempty : trimSpace rest = []
    · rw [if_pos hempty]
      refine iff_of_false (by rintro ⟨⟩) ?_
      rintro ⟨rest', hrest, rfl, hne⟩
      rw [List.append_cancel_left hrest] at hempty
      exact hne hempty
    · rw [if_neg hempty, Except.ok.injEq]
      constructor
      · rintro rfl
        exact ⟨rest, rfl, rfl, hempty⟩
      · rintro ⟨rest', hrest, rfl, -⟩
        rw [List.append_cancel_left hrest]
  · rw [if_pos (by simpa using hstart)]
    refine iff_of_false (by rintro ⟨⟩) ?_
    rintro ⟨rest, rfl, -⟩
    exact hstart (startsWith_iff.mpr ⟨rest, rfl⟩)

theorem bearerToken_iff {options : BearerAuthOptions} {c : Context} {token : ByteString} :
    bearerToken options c = .ok token ↔ ∃ rest,
      c.req.header.getCustom options.headerName = some (options.pfx ++ ascii " " ++ rest) ∧
        token = trimSpace rest ∧ token ≠ [] ∧ options.Accepts token c := by
  rw [bearerToken]
  cases hheader : c.req.header.getCustom options.headerName with
  | none =>
      refine iff_of_false (by rintro ⟨⟩) ?_
      rintro ⟨rest, h, -⟩
      cases h
  | some authHeader =>
      dsimp only
      by_cases hempty : authHeader.length = 0
      · rw [if_pos hempty]
        refine iff_of_false (by rintro ⟨⟩) ?_
        rintro ⟨rest, h, -⟩
        rw [List.length_eq_zero_iff.mp hempty] at h
        simp [ascii] at h
      · rw [if_neg hempty]
        cases hextract : extractBearerToken authHeader options.pfx with
        | error err =>
            refine iff_of_false (by rintro ⟨⟩) ?_
            rintro ⟨rest, h, htoken, hne, -⟩
            have hok := extractBearerToken_iff.mpr ⟨rest, Option.some.inj h, htoken, hne⟩
            rw [hextract] at hok
            cases hok
        | ok found =>
            obtain ⟨rest, rfl, rfl, hne⟩ := extractBearerToken_iff.mp hextract
            dsimp only
            rw [← options.validate_iff]
            by_cases hvalid : validateBearerToken (trimSpace rest) options c = true
            · rw [hvalid]
              constructor
              · intro h
                rw [← Except.ok.inj h]
                exact ⟨rest, rfl, rfl, hne, hvalid⟩
              · rintro ⟨rest', h, rfl, -⟩
                rw [List.append_cancel_left (Option.some.inj h)]
                rfl
            · rw [if_pos (by simpa using hvalid)]
              refine iff_of_false (by rintro ⟨⟩) ?_
              rintro ⟨rest', h, rfl, -, hvalid'⟩
              rw [List.append_cancel_left (Option.some.inj h)] at hvalid
              exact hvalid hvalid'

namespace SourceGuard

/-- What a request must bring. -/
def Accepts : SourceGuard → Context → Prop
  | auth verifyToken, c =>
    authorization c ≠ [] ∧ ∃ user, verifyToken (authorization c) = .ok user
  | permission verifyToken requiredPermission, c =>
    ∃ user, verifyToken (authorization c) = .ok user ∧
      checkPermission user.role requiredPermission = true
  | bearer options, c => ∃ rest,
    c.req.header.getCustom options.headerName = some (options.pfx ++ ascii " " ++ rest) ∧
      trimSpace rest ≠ [] ∧ options.Accepts (trimSpace rest) c
  | jwt json2 hashes options now, c => ∃ token payload, getJwtToken c options = .ok token ∧
    verifyJwtWithOptions json2 hashes token options.secret options.alg options.verifyOptions now
      = .ok payload
  | cors opts, c => corsOrigin opts c = [] ∨ c.req.method ≠ .options

/-- The codes of its answers. -/
def codes : SourceGuard → List Int
  | auth _ => [401]
  | permission _ _ => [401, 403]
  | bearer _ => [401]
  | jwt _ _ _ _ => [401]
  | cors _ => [204]

theorem grantOrigin_req (c : Context) (opts : CorsOptions) (allowedOrigin : ByteString) :
    (grantOrigin c opts allowedOrigin).req = c.req := by
  rw [grantOrigin]
  split <;> split <;> rfl

theorem guard_admits (k : SourceGuard) (c : Context) :
    Guard.Admits k.guard c ↔ k.Accepts c := by
  rw [Guard.Admits]
  cases k with
  | auth verifyToken =>
      rw [guard, Accepts]
      by_cases hempty : authorization c = []
      · rw [if_pos hempty]
        exact iff_of_false (by rintro ⟨_, ⟨⟩⟩) (fun h => h.1 hempty)
      · rw [if_neg hempty, and_iff_right hempty]
        cases verifyToken (authorization c) with
        | error err => exact iff_of_false (by rintro ⟨_, ⟨⟩⟩) (by rintro ⟨_, ⟨⟩⟩)
        | ok user => exact iff_of_true ⟨c, rfl⟩ ⟨user, rfl⟩
  | permission verifyToken requiredPermission =>
      rw [guard, Accepts]
      cases verifyToken (authorization c) with
      | error err => exact iff_of_false (by rintro ⟨_, ⟨⟩⟩) (by rintro ⟨_, ⟨⟩, _⟩)
      | ok user =>
          dsimp only
          by_cases hallowed : checkPermission user.role requiredPermission = true
          · rw [hallowed]
            exact iff_of_true ⟨c, rfl⟩ ⟨user, rfl, hallowed⟩
          · rw [if_pos (by simpa using hallowed)]
            refine iff_of_false (by rintro ⟨_, ⟨⟩⟩) ?_
            rintro ⟨user', huser, h⟩
            rw [← Except.ok.inj huser] at h
            exact hallowed h
  | bearer options =>
      rw [guard, Accepts]
      cases htoken : bearerToken options c with
      | error err =>
          refine iff_of_false (by rintro ⟨_, ⟨⟩⟩) ?_
          rintro ⟨rest, hheader, hne, haccepts⟩
          have hok := bearerToken_iff.mpr ⟨rest, hheader, rfl, hne, haccepts⟩
          rw [htoken] at hok
          cases hok
      | ok token =>
          obtain ⟨rest, hheader, rfl, hne, haccepts⟩ := bearerToken_iff.mp htoken
          exact iff_of_true ⟨_, rfl⟩ ⟨rest, hheader, hne, haccepts⟩
  | jwt json2 hashes options now =>
      rw [guard, Accepts, jwtPayload]
      cases getJwtToken c options with
      | error err => exact iff_of_false (by rintro ⟨_, ⟨⟩⟩) (by rintro ⟨_, _, ⟨⟩, _⟩)
      | ok token =>
          dsimp only
          cases hverify : verifyJwtWithOptions json2 hashes token options.secret options.alg
              options.verifyOptions now with
          | error err =>
              refine iff_of_false (by rintro ⟨_, ⟨⟩⟩) ?_
              rintro ⟨token', payload, htoken, hpayload⟩
              rw [← Except.ok.inj htoken, hverify] at hpayload
              cases hpayload
          | ok payload => exact iff_of_true ⟨_, rfl⟩ ⟨token, payload, rfl, hverify⟩
  | cors opts =>
      rw [guard, Accepts]
      by_cases horigin : corsOrigin opts c = []
      · rw [if_pos horigin]
        exact iff_of_true ⟨c, rfl⟩ (Or.inl horigin)
      · rw [if_neg horigin, or_iff_right horigin]
        dsimp only
        rw [grantOrigin_req]
        by_cases hmethod : c.req.method = .options
        · rw [if_pos hmethod]
          exact iff_of_false (by rintro ⟨_, ⟨⟩⟩) (not_not_intro hmethod)
        · rw [if_neg hmethod]
          exact iff_of_true ⟨_, rfl⟩ hmethod

end SourceGuard

/-! ## What they leave alone -/

/-- The context without what middlewares leave in it for each other. -/
def Context.asSent (c : Context) : Context := { c with headers := .empty, store := .empty }

theorem grantOrigin_asSent (c : Context) (opts : CorsOptions) (allowedOrigin : ByteString) :
    (grantOrigin c opts allowedOrigin).asSent = c.asSent := by
  rw [grantOrigin]
  split <;> split <;> rfl

theorem foldl_set_asSent (claims : List (ByteString × ByteString)) : ∀ c : Context,
    (claims.foldl (fun c claim => c.set (ascii "jwt_" ++ claim.1) claim.2) c).asSent
      = c.asSent := by
  induction claims with
  | nil => exact fun c => rfl
  | cons claim claims ih => exact fun c => ih (c.set _ _)

theorem setIf_asSent (test : Bool) (c : Context) (key v : ByteString) :
    (if test then c.set key v else c).asSent = c.asSent := by
  cases test <;> rfl

theorem storeJwtPayload_asSent (c : Context) (payload : JwtPayload) :
    (storeJwtPayload c payload).asSent = c.asSent := by
  rw [storeJwtPayload]
  dsimp only
  show Context.asSent (List.foldl _ _ payload.claims.entries) = c.asSent
  rw [foldl_set_asSent]
  simp only [setIf_asSent]

namespace SourceGuard

/-- Its callback, if it has one, decides by the request as it was sent. -/
def ReadsRequest : SourceGuard → Prop
  | bearer options => ∀ verifyFn, options.verifyToken = some verifyFn →
    ∀ token c c', Context.asSent c = c'.asSent → verifyFn token c = verifyFn token c'
  | cors opts => ∀ f, opts.origin = .callback f →
    ∀ origin c c', Context.asSent c = c'.asSent → f origin c = f origin c'
  | _ => True

theorem accepts_asSent {k : SourceGuard} (hreads : k.ReadsRequest) {c c' : Context}
    (hsent : c.asSent = c'.asSent) (h : k.Accepts c) : k.Accepts c' := by
  have hreq : c.asSent.req = c'.asSent.req := congrArg Context.req hsent
  change c.req = c'.req at hreq
  cases k with
  | auth verifyToken =>
      rw [Accepts, authorization, ← hreq]
      exact h
  | permission verifyToken requiredPermission =>
      rw [Accepts, authorization, ← hreq]
      exact h
  | bearer options =>
      obtain ⟨rest, hheader, hne, haccepts⟩ := h
      refine ⟨rest, by rw [← hreq]; exact hheader, hne, ?_⟩
      rw [BearerAuthOptions.Accepts] at haccepts ⊢
      cases hverify : options.verifyToken with
      | some verifyFn =>
          rw [hverify] at haccepts
          exact (hreads verifyFn hverify _ c c' hsent).symm.trans haccepts
      | none =>
          rw [hverify] at haccepts
          exact haccepts
  | jwt json2 hashes options now =>
      obtain ⟨token, payload, htoken, hpayload⟩ := h
      refine ⟨token, payload, ?_, hpayload⟩
      rw [← htoken, getJwtToken, getJwtToken, getCookie, getCookie, hreq]
  | cors opts =>
      refine h.imp (fun horigin => ?_) (fun hmethod => by rw [← hreq]; exact hmethod)
      rw [← horigin, corsOrigin, corsOrigin, requestOrigin, requestOrigin, hreq]
      congr 1
      cases hcallback : opts.origin with
      | one origin => rfl
      | many origins => rfl
      | callback f => exact (hreads f hcallback _ c c' hsent).symm

theorem looks {k : SourceGuard} (hreads : k.ReadsRequest) : Looks Context.asSent k.guard where
  decides := by
    intro c c' hsent h
    rw [guard_admits] at h ⊢
    exact accepts_asSent hreads hsent h
  keeps := by
    intro c d h
    cases k with
    | auth verifyToken =>
        rw [guard] at h
        split at h
        · cases h
        · split at h
          · cases h
          · rw [Except.ok.inj h]
    | permission verifyToken requiredPermission =>
        rw [guard] at h
        split at h
        · cases h
        · split at h
          · cases h
          · rw [Except.ok.inj h]
    | bearer options =>
        rw [guard] at h
        split at h
        · cases h
        · rw [← Except.ok.inj h]
          rfl
    | jwt json2 hashes options now =>
        rw [guard] at h
        split at h
        · cases h
        · rw [← Except.ok.inj h, storeJwtPayload_asSent]
    | cors opts =>
        rw [guard] at h
        split at h
        · rw [Except.ok.inj h]
        · dsimp only at h
          split at h
          · cases h
          · rw [← Except.ok.inj h, grantOrigin_asSent]

theorem unauthorizedResponse_code (c : Context) (realm message : ByteString) :
    (unauthorizedResponse c realm message).1.statusCode = 401 := rfl

/-- An answer has one of the codes. -/
theorem code_of_error {k : SourceGuard} {c : Context} {r : HttpResponse × Context}
    (h : k.guard c = .error r) : r.1.statusCode ∈ k.codes := by
  cases k with
  | auth verifyToken =>
      rw [guard] at h
      split at h
      · rw [← Except.error.inj h]
        exact List.mem_singleton.mpr rfl
      · split at h
        · rw [← Except.error.inj h]
          exact List.mem_singleton.mpr rfl
        · cases h
  | permission verifyToken requiredPermission =>
      rw [guard] at h
      split at h
      · rw [← Except.error.inj h]
        exact List.mem_cons_self ..
      · split at h
        · rw [← Except.error.inj h]
          exact List.mem_cons_of_mem _ (List.mem_singleton.mpr rfl)
        · cases h
  | bearer options =>
      rw [guard] at h
      split at h
      · rw [← Except.error.inj h]
        exact List.mem_singleton.mpr rfl
      · cases h
  | jwt json2 hashes options now =>
      rw [guard] at h
      split at h
      · rw [← Except.error.inj h]
        exact List.mem_singleton.mpr rfl
      · cases h
  | cors opts =>
      rw [guard] at h
      split at h
      · cases h
      · dsimp only at h
        split at h
        · rw [← Except.error.inj h]
          exact List.mem_singleton.mpr rfl
        · cases h

end SourceGuard

/-! ## Guards around a handler -/

/-- All three dispatchers answer with this. -/
def Dispatches (middlewares : List Middleware) (c : Context)
    (handler : Context → HttpResponse × Context) (r : HttpResponse × Context) : Prop :=
  execContextMiddlewaresWithList 0 middlewares c handler = r ∧
    ∀ path, execMiddlewaresPicoev 0 middlewares c ⟨path, handler⟩ = r ∧
      execMiddlewaresUsockets 0 middlewares c ⟨path, handler⟩ = r

theorem dispatches_chain (middlewares : List Middleware) (c : Context)
    (handler : Context → HttpResponse × Context) :
    Dispatches middlewares c handler (chain middlewares handler c) := by
  refine ⟨execContextMiddlewaresWithList_eq middlewares c handler, fun path => ⟨?_, ?_⟩⟩
  · exact execMiddlewaresPicoev_eq middlewares c ⟨path, handler⟩
  · exact execMiddlewaresUsockets_eq middlewares c ⟨path, handler⟩

/-- `GET /` with one header field. -/
def contextWith (name value : ByteString) : Context where
  req := ⟨.get, ascii "/", [], [(name, value)]⟩
  params := .empty
  query := .empty
  url := ascii "/"
  path := ascii "/"
  statusCode := 200
  headers := .empty
  body := []
  store := .empty

/-- CORS in front of a bearer token. -/
def corsAndBearer : List SourceGuard := [.cors {}, .bearer { token := .one (ascii "k") }]

theorem corsAndBearer_reads : ∀ k ∈ corsAndBearer, k.ReadsRequest := by
  intro k hk
  rcases List.mem_cons.mp hk with rfl | hk
  · rintro f ⟨⟩
  · rw [List.mem_singleton.mp hk]
    rintro f ⟨⟩

theorem corsAndBearer_accepts : ∀ k ∈ corsAndBearer,
    k.Accepts (contextWith (ascii "Authorization") (ascii "Bearer k")) := by
  intro k hk
  rcases List.mem_cons.mp hk with rfl | hk
  · have hmethod : RouteMethod.get ≠ .options := by decide
    exact Or.inr hmethod
  · rw [List.mem_singleton.mp hk]
    have hheader : (contextWith (ascii "Authorization") (ascii "Bearer k")).req.header.getCustom
        (ascii "Authorization") = some (ascii "Bearer" ++ ascii " " ++ ascii "k") := by decide
    have htrim : trimSpace (ascii "k") = ascii "k" := by decide
    refine ⟨ascii "k", hheader, by decide, ?_⟩
    rw [htrim]
    exact ⟨ascii "k", List.mem_singleton.mpr rfl, rfl⟩

/-! ## Sessions around a handler -/

/-! ## Upgrades -/

/-- Some handler of a route has a part in what the trace does with the request: the results of two
    meanings that differ on such handlers alone are not the same. -/
def RunsHandler {F : Type} (t : Trace Middleware F) (c : Context) : Prop :=
  ∃ finish finish' : Final F → Context → HttpResponse × Context,
    (∀ last, (∀ f, last ≠ .handler f) → finish last = finish' last) ∧
      t.run (fun mw next c => mw c next) finish c ≠ t.run (fun mw next c => mw c next) finish' c

theorem not_runsHandler_shielded {F : Type} {P : Context → Prop} {outer inner : List Middleware}
    (houter : ∀ mw ∈ outer, Confined P mw) {g : ContextGuard}
    (hrefuses : ∀ c, P c → ¬ Guard.Admits g c) {c : Context} (hc : P c) (last : Final F) :
    ¬ RunsHandler ⟨outer ++ Guard.layer g :: inner, last⟩ c := by
  rintro ⟨finish, finish', -, hdiffer⟩
  rw [Trace.run_eq_foldr, Trace.run_eq_foldr] at hdiffer
  exact hdiffer (shielded houter hrefuses inner inner (finish last) (finish' last) hc)

/-- A meaning of final steps that tells a route's handler from all others. -/
def tellHandler {F : Type} : Final F → Context → HttpResponse × Context
  | .handler _, c => c.reply 201 []
  | _, c => c.reply 200 []

theorem runsHandler_bare_iff {F : Type} {last : Final F} {c : Context} :
    RunsHandler ⟨[], last⟩ c ↔ ∃ f, last = .handler f := by
  constructor
  · rintro ⟨finish, finish', hsame, hdiffer⟩
    by_contra hno
    rw [Trace.run_eq_foldr, Trace.run_eq_foldr] at hdiffer
    exact hdiffer (congrFun (hsame last (fun f hf => hno ⟨f, hf⟩)) c)
  · rintro ⟨f, rfl⟩
    refine ⟨fun _ c => c.reply 200 [], tellHandler, ?_, ?_⟩
    · intro last hlast
      cases last with
      | handler f => exact absurd rfl (hlast f)
      | notFound f => rfl
      | default404 => rfl
      | rejected status => rfl
      | badRequest => rfl
    · intro heq
      have hcode := congrArg (fun r => r.1.statusCode) heq
      rw [Trace.run_eq_foldr, Trace.run_eq_foldr] at hcode
      change (200 : Int) = 201 at hcode
      exact absurd hcode (by decide)

section Upgrades

open HttpGrammar Hono

variable {E : RegexEngine} {F : Type}

/-- The request asks for an upgrade that the backend accepts. -/
def AcceptedUpgrade (inc : Incoming) : Prop :=
  inc.upgrade = true ∧ inc.version = ascii "13" ∧ inc.key ≠ []

theorem lowLevel_runsHandler_iff {S : CompareSort} {app l : Hono E Middleware F}
    (hs : SameSetup (app.precomputeMiddlewarePrefixes S) l) {P : Context → Prop}
    {outer inner : List Middleware} {g : ContextGuard}
    (happ : app.contextMiddlewares = outer ++ Guard.layer g :: inner)
    (houter : ∀ mw ∈ outer, Confined P mw) (hrefuses : ∀ c, P c → ¬ Guard.Admits g c)
    {c : Context} (hc : P c) (inc : Incoming) (now : Int) {f : F}
    (hfound : l.lookup inc.method inc.path now = some f) :
    RunsHandler (l.lowLevelDispatch inc now).2 c ↔ AcceptedUpgrade inc := by
  rw [lowLevelDispatch_trace hs, hfound, AcceptedUpgrade]
  dsimp only
  by_cases hupgrade : inc.upgrade = true
  · rw [if_pos hupgrade, runsHandler_bare_iff, and_iff_right hupgrade]
    constructor
    · rintro ⟨f', hf'⟩
      exact ((upgradeFinal_eq_handler_iff inc f' f).mp hf'.symm).2
    · intro haccepted
      exact ⟨f, ((upgradeFinal_eq_handler_iff inc f f).mpr ⟨rfl, haccepted⟩).symm⟩
  · rw [if_neg hupgrade]
    refine iff_of_false ?_ (fun haccepted => hupgrade haccepted.1)
    rw [happ, List.append_assoc, List.cons_append]
    exact not_runsHandler_shielded houter hrefuses hc _

/-- **UPGRADES PASS ALL GUARDS.**  In every application that was built with a guard among its
    middlewares, after any requests, a request that the guard refuses runs no handler under
    `ServerHanler`; under picoev and uSockets it runs the handler of its route exactly if it asks
    for an upgrade that the backend accepts. -/
theorem upgrades_pass_guards (S : CompareSort) (lib : HttpLibrary) (app : Hono E Middleware F)
    (hbuilt : BuiltApp S app) (earlier : List Arrival) (a : Arrival) {P : Context → Prop}
    {outer inner : List Middleware} {g : ContextGuard}
    (happ : app.contextMiddlewares = outer ++ Guard.layer g :: inner)
    (houter : ∀ mw ∈ outer, Confined P mw) (hrefuses : ∀ c, P c → ¬ Guard.Admits g c)
    {c : Context} (hc : P c) :
    ¬ RunsHandler ((running S lib app earlier).server.serverStep lib a).2 c ∧
    (∀ f, (running S lib app earlier).picoev.lookup a.request.method
        (picoevIncoming (picoRequest a.request)).path a.now = some f →
      (RunsHandler ((running S lib app earlier).picoev.picoevStep a).2 c ↔
        AcceptedUpgrade (picoevIncoming (picoRequest a.request)))) ∧
    (∀ f, (running S lib app earlier).usockets.lookup a.request.method
        (usocketsIncoming a.request.render).path a.now = some f →
      (RunsHandler ((running S lib app earlier).usockets.usocketsStep a).2 c ↔
        AcceptedUpgrade (usocketsIncoming a.request.render))) := by
  obtain ⟨hserver, hpicoev, husockets⟩ := sameSetup_running S lib app earlier
  generalize running S lib app earlier = run at *
  refine ⟨?_, fun f hfound => ?_, fun f hfound => ?_⟩
  · rw [serverStep, serverHandle_trace lib hbuilt.configured hserver, happ]
    exact not_runsHandler_shielded houter hrefuses hc _
  · rw [picoevStep, picoevCallback]
    exact lowLevel_runsHandler_iff hpicoev happ houter hrefuses hc _ a.now hfound
  · have hmethod : (usocketsIncoming a.request.render).method = a.request.method :=
      (parseHttpRequestUsockets_render a.request).1
    rw [usocketsStep, usocketsOnData_render]
    exact lowLevel_runsHandler_iff husockets happ houter hrefuses hc _ a.now
      (by rw [hmethod]; exact hfound)

/-- A guard that refuses everything, in front of one route. -/
def lockedGuard : ContextGuard := SourceGuard.guard (.auth (fun _ => .error []))

theorem lockedGuard_refuses (c : Context) : ¬ Guard.Admits lockedGuard c := by
  intro h
  obtain ⟨-, user, huser⟩ := (SourceGuard.guard_admits (.auth (fun _ => .error [])) c).mp h
  cases huser

def lockedApp : Hono segmentEngine Middleware Nat :=
  ((new 0).useMiddleware (Guard.layer lockedGuard)).get .insertion (ascii "/x") 5

theorem lockedApp_built : BuiltApp .insertion lockedApp :=
  .on .get (ascii "/x") 5 (.useMiddleware _ (.new 0))

theorem lockedApp_unreached :
    ¬ RunsHandler ((running .insertion plainLibrary lockedApp []).server.serverStep plainLibrary
      ⟨queryRequest, 0⟩).2 (contextWith (ascii "Authorization") []) :=
  (upgrades_pass_guards .insertion plainLibrary lockedApp lockedApp_built [] ⟨queryRequest, 0⟩
    (P := fun _ => True)
    (show lockedApp.contextMiddlewares = [] ++ Guard.layer lockedGuard :: [] from rfl)
    (List.forall_mem_nil _) (fun c _ => lockedGuard_refuses c) trivial).1

end Upgrades

end VHono
