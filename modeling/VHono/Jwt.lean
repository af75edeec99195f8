import VHono.Base64
import VHono.JsonText
import VHono.InsertionMap
import VHono.Context

/-! # JSON web tokens

    Signing, decoding and verifying, and the payload in the store of a context.
    The keyed hashes are parameters, and so is what `json2` does beyond the
    grammar: the texts of its errors, and its conversions of values of another
    type. -/

namespace VHono

open ByteString

inductive JwtAlgorithm
  | hs256
  | hs384
  | hs512
  deriving DecidableEq, Repr

structure JwtPayload where
  sub    : ByteString
  iss    : ByteString
  aud    : ByteString
  exp    : Int64
  nbf    : Int64
  iat    : Int64
  jti    : ByteString
  claims : InsertionMap ByteString ByteString

structure JwtHeader where
  alg : ByteString
  typ : ByteString

/-- `hmac_sha256`, `hmac_sha384` and `hmac_sha512`, of a message and a secret. -/
structure KeyedHashes where
  hmacSha256 : ByteString → ByteString → ByteString
  hmacSha384 : ByteString → ByteString → ByteString
  hmacSha512 : ByteString → ByteString → ByteString

structure Json2 where
  /-- The error of a text that is no JSON. -/
  decodeError : ByteString → ByteString
  /-- `str()` of a value that is no string. -/
  otherStr    : Json → ByteString
  /-- `i64()` of a value that is no integer of 64 bits. -/
  otherI64    : Json → Int64

namespace Json2

variable (json2 : Json2)

def str (v : Json) : ByteString :=
  match v with
  | .string s => s
  | v => json2.otherStr v

def i64 (v : Json) : Int64 :=
  match v with
  | .integer n => if -2 ^ 63 ≤ n ∧ n < 2 ^ 63 then Int64.ofInt n else json2.otherI64 v
  | v => json2.otherI64 v

/-- The string of a member, empty where there is none. -/
def strOf (v : Option Json) : ByteString :=
  match v with
  | some v => json2.str v
  | none => []

/-- The integer of a member, zero where there is none. -/
def i64Of (v : Option Json) : Int64 :=
  match v with
  | some v => json2.i64 v
  | none => 0

end Json2

/-- `as_map()`: of two members of a name the last one counts. -/
def asMap (v : Json) : InsertionMap ByteString Json :=
  match v with
  | .object members => members.foldl (fun m member => m.insert member.1 member.2) .empty
  | .array items => items.zipIdx.foldl (fun m item => m.insert (decimal item.2) item.1) .empty
  | v => InsertionMap.empty.insert (ascii "0") v

/-! ## The parts of a token -/

/-- `s.trim_right('=')` -/
def trimPadding (s : ByteString) : ByteString :=
  (s.reverse.dropWhile (fun c => c == byte '=')).reverse

def base64urlEncode (data : ByteString) : ByteString :=
  trimPadding (replaceStr (replaceStr (Base64.encode data) (ascii "+") (ascii "-"))
    (ascii "/") (ascii "_"))

def base64urlDecode (data : ByteString) : ByteString :=
  let standard := replaceStr (replaceStr data (ascii "-") (ascii "+")) (ascii "_") (ascii "/")
  Base64.decode (standard ++ List.replicate ((4 - standard.length % 4) % 4) (byte '='))

def KeyedHashes.signMessage (hashes : KeyedHashes) (message secret : ByteString)
    (alg : JwtAlgorithm) : ByteString :=
  match alg with
  | .hs256 => hashes.hmacSha256 message secret
  | .hs384 => hashes.hmacSha384 message secret
  | .hs512 => hashes.hmacSha512 message secret

def algToString (alg : JwtAlgorithm) : ByteString :=
  match alg with
  | .hs256 => ascii "HS256"
  | .hs384 => ascii "HS384"
  | .hs512 => ascii "HS512"

def stringToAlg (s : ByteString) : Except ByteString JwtAlgorithm :=
  if s = ascii "HS256" then .ok .hs256
  else if s = ascii "HS384" then .ok .hs384
  else if s = ascii "HS512" then .ok .hs512
  else .error (ascii "Unsupported algorithm: " ++ s)

/-- The bytes that are escaped are ASCII, the others stand for themselves. -/
def escapeJsonByte (c : UInt8) : ByteString :=
  if c = byte '"' then ascii "\\\""
  else if c = byte '\\' then ascii "\\\\"
  else if c = byte '\n' then ascii "\\n"
  else if c = byte '\r' then ascii "\\r"
  else if c = byte '\t' then ascii "\\t"
  else [c]

def escapeJsonString (s : ByteString) : ByteString := s.flatMap escapeJsonByte

/-- `"name":"value"` -/
def stringPart (name v : ByteString) : ByteString :=
  ascii "\"" ++ name ++ ascii "\":\"" ++ escapeJsonString v ++ ascii "\""

/-- `"name":value` -/
def numberPart (name : ByteString) (v : Int64) : ByteString :=
  ascii "\"" ++ name ++ ascii "\":" ++ intStr v.toInt

def encodePayload (payload : JwtPayload) : ByteString :=
  let parts : List ByteString :=
    (if payload.sub.length > 0 then [stringPart (ascii "sub") payload.sub] else []) ++
    (if payload.iss.length > 0 then [stringPart (ascii "iss") payload.iss] else []) ++
    (if payload.aud.length > 0 then [stringPart (ascii "aud") payload.aud] else []) ++
    (if payload.exp ≠ 0 then [numberPart (ascii "exp") payload.exp] else []) ++
    (if payload.nbf ≠ 0 then [numberPart (ascii "nbf") payload.nbf] else []) ++
    (if payload.iat ≠ 0 then [numberPart (ascii "iat") payload.iat] else []) ++
    (if payload.jti.length > 0 then [stringPart (ascii "jti") payload.jti] else []) ++
    payload.claims.entries.map (fun claim => stringPart (escapeJsonString claim.1) claim.2)
  ascii "\x7b" ++ List.intercalate (ascii ",") parts ++ ascii "\x7d"

def signJwt (hashes : KeyedHashes) (payload : JwtPayload) (secret : ByteString)
    (alg : JwtAlgorithm) : Except ByteString ByteString :=
  if secret.length = 0 then .error (ascii "Secret is required")
  else
    let header : JwtHeader := { alg := algToString alg, typ := ascii "JWT" }
    let headerJson := ascii "\x7b\"alg\":\"" ++ header.alg ++ ascii "\",\"typ\":\"" ++ header.typ ++
      ascii "\"\x7d"
    let headerEncoded := base64urlEncode headerJson
    let payloadEncoded := base64urlEncode (encodePayload payload)
    let signingInput := headerEncoded ++ ascii "." ++ payloadEncoded
    let signatureEncoded := base64urlEncode (hashes.signMessage signingInput secret alg)
    .ok (signingInput ++ ascii "." ++ signatureEncoded)

/-! ## Reading a token -/

def standardClaims : List ByteString :=
  [ascii "sub", ascii "iss", ascii "aud", ascii "exp", ascii "nbf", ascii "iat", ascii "jti"]

def parsePayload (json2 : Json2) (jsonStr : ByteString) : Except ByteString JwtPayload :=
  match JsonText.decode jsonStr with
  | none => .error (ascii "Invalid JSON payload: " ++ json2.decodeError jsonStr)
  | some raw =>
      let obj := asMap raw
      .ok {
        sub := json2.strOf (obj.get? (ascii "sub"))
        iss := json2.strOf (obj.get? (ascii "iss"))
        aud := json2.strOf (obj.get? (ascii "aud"))
        exp := json2.i64Of (obj.get? (ascii "exp"))
        nbf := json2.i64Of (obj.get? (ascii "nbf"))
        iat := json2.i64Of (obj.get? (ascii "iat"))
        jti := json2.strOf (obj.get? (ascii "jti"))
        claims := obj.entries.foldl
          (fun claims claim =>
            if claim.1 ∉ standardClaims then claims.insert claim.1 (json2.str claim.2) else claims)
          .empty }

def decodeJwt (json2 : Json2) (token : ByteString) : Except ByteString JwtPayload :=
  match token.splitOn (byte '.') with
  | [_, payload, _] => parsePayload json2 (base64urlDecode payload)
  | _ => .error (ascii "Invalid token format")

/-- The loop over the bytes of strings of one length. -/
def constantTimeCompareJwt (a b : ByteString) : Bool :=
  if a.length ≠ b.length then false
  else (a.zip b).foldl (fun result pair => result ||| (pair.1 ^^^ pair.2)) 0 == 0

def verifyJwt (json2 : Json2) (hashes : KeyedHashes) (token secret : ByteString)
    (alg : JwtAlgorithm) : Except ByteString JwtPayload :=
  if secret.length = 0 then .error (ascii "Secret is required")
  else
    match token.splitOn (byte '.') with
    | [header, payload, signature] =>
        let headerJson := base64urlDecode header
        match JsonText.decode headerJson with
        | none => .error (ascii "Invalid header JSON: " ++ json2.decodeError headerJson)
        | some headerRaw =>
            let tokenAlgStr := json2.str (((asMap headerRaw).get? (ascii "alg")).getD (.string []))
            match stringToAlg tokenAlgStr with
            | .error e => .error e
            | .ok tokenAlg =>
                if tokenAlg ≠ alg then
                  .error (ascii "Algorithm mismatch: expected " ++ algToString alg ++
                    ascii ", got " ++ tokenAlgStr)
                else
                  let signingInput := header ++ ascii "." ++ payload
                  let expectedSignature := hashes.signMessage signingInput secret alg
                  if !constantTimeCompareJwt signature (base64urlEncode expectedSignature) then
                    .error (ascii "Invalid signature")
                  else decodeJwt json2 token
    | _ => .error (ascii "Invalid token format")

/-! ## The payload in the store -/

def Context.set (c : Context) (key v : ByteString) : Context :=
  { c with store := c.store.insert key v }

def Context.get (c : Context) (key : ByteString) : Option ByteString := c.store.get? key

def storeJwtPayload (c : Context) (payload : JwtPayload) : Context :=
  let setIf (test : Bool) (c : Context) (key v : ByteString) := if test then c.set key v else c
  let c := setIf (payload.sub.length > 0) c (ascii "jwt_sub") payload.sub
  let c := setIf (payload.iss.length > 0) c (ascii "jwt_iss") payload.iss
  let c := setIf (payload.aud.length > 0) c (ascii "jwt_aud") payload.aud
  let c := setIf (payload.exp ≠ 0) c (ascii "jwt_exp") (intStr payload.exp.toInt)
  let c := setIf (payload.nbf ≠ 0) c (ascii "jwt_nbf") (intStr payload.nbf.toInt)
  let c := setIf (payload.iat ≠ 0) c (ascii "jwt_iat") (intStr payload.iat.toInt)
  let c := setIf (payload.jti.length > 0) c (ascii "jwt_jti") payload.jti
  let c := payload.claims.entries.foldl (fun c claim => c.set (ascii "jwt_" ++ claim.1) claim.2) c
  c.set (ascii "jwt_payload") (encodePayload payload)

def getJwtPayload (json2 : Json2) (c : Context) : Option JwtPayload :=
  match c.get (ascii "jwt_payload") with
  | none => none
  | some payloadJson => (parsePayload json2 payloadJson).toOption

end VHono
