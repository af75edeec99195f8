import VHono.ByteCompare
import VHono.Context
import VHono.HmacCopies
import VHono.LocalStorage
import VHono.StorageConfig

/-! # Signed requests of the S3 storage

    A request is addressed by a URL and signed over a text made of the same
    bucket, key, parameters and headers, by functions of its own.  Beside it
    the signature that the service computes of the request that it receives:
    over the host and the path of the URL, the parameters, and the headers as
    they were sent. -/

namespace VHono

open ByteString

/-- `http.Method` -/
inductive HttpMethod
  | get | post | put | head | delete | options | trace | connect | patch
  deriving DecidableEq

def HttpMethod.str : HttpMethod → ByteString
  | get => ascii "GET"
  | post => ascii "POST"
  | put => ascii "PUT"
  | head => ascii "HEAD"
  | delete => ascii "DELETE"
  | options => ascii "OPTIONS"
  | trace => ascii "TRACE"
  | connect => ascii "CONNECT"
  | patch => ascii "PATCH"

/-- A reading of the clock as `YYYYMMDD` and `HHmmss`. -/
structure UtcTime where
  date        : ByteString
  time        : ByteString
  date_length : date.length = 8
  time_length : time.length = 6

def UtcTime.datetimeStamp (now : UtcTime) : ByteString :=
  now.date ++ ascii "T" ++ now.time ++ ascii "Z"

/-! ## Texts -/

/-- `strings.sort()` -/
def sortStrings (strings : List ByteString) : List ByteString :=
  strings.insertionSort (fun a b => precedes b a = false)

/-- `parts.join(separator)` -/
def joinStrings (separator : UInt8) (parts : List ByteString) : ByteString :=
  [separator].intercalate parts

def isUnreserved (b : UInt8) : Bool :=
  (byte 'a' ≤ b && b ≤ byte 'z') || (byte 'A' ≤ b && b ≤ byte 'Z') ||
  (byte '0' ≤ b && b ≤ byte '9') || (ascii "-_.~").contains b

def upperHexDigit (n : Nat) : UInt8 := if n < 10 then (48 + n).toUInt8 else (55 + n).toUInt8

/-- `%XX` -/
def percentByte (b : UInt8) : ByteString :=
  [byte '%', upperHexDigit (b.toNat / 16), upperHexDigit (b.toNat % 16)]

/-- `urllib.query_escape` -/
def queryEscape (s : ByteString) : ByteString :=
  s.flatMap (fun b =>
    if isUnreserved b = true then [b] else if b = byte ' ' then ascii "+" else percentByte b)

/-! ## The storage -/

structure S3Storage where
  config : S3Config
  sha256 : HashSum 32

structure S3SigningInfo where
  method        : ByteString
  uri           : ByteString
  queryString   : ByteString
  headers       : InsertionMap ByteString ByteString
  signedHeaders : ByteString
  payloadHash   : ByteString
  dateStamp     : ByteString
  datetimeStamp : ByteString

/-- What is handed to `http.fetch`. -/
structure S3Request where
  method : HttpMethod
  url    : ByteString
  header : Header
  data   : ByteString

/-- The hash of the empty payload, as it is written. -/
def emptyPayloadHash : ByteString :=
  ascii "e3b0c44298fc1c149afbf4c8996fb92427ae41e4649b934ca495991b7852b855"

namespace S3Storage

variable (s : S3Storage)

def hashPayload (payload : ByteString) : ByteString :=
  if payload = [] then emptyPayloadHash else LocalStorage.hexStr (s.sha256 payload).val

def buildCanonicalQueryString (params : InsertionMap ByteString ByteString) : ByteString :=
  if params.len = 0 then []
  else joinStrings (byte '&') ((sortStrings params.keys).map (fun key =>
    queryEscape key ++ ascii "=" ++ queryEscape ((params.get? key).getD [])))

def headerNames (headers : InsertionMap ByteString ByteString) : List ByteString :=
  sortStrings (headers.keys.map toLower)

def getSignedHeaders (headers : InsertionMap ByteString ByteString) : ByteString :=
  joinStrings (byte ';') (headerNames headers)

def createSigningInfo (now : UtcTime) (method uri : ByteString)
    (queryParams headers : InsertionMap ByteString ByteString) (payload : ByteString) :
    S3SigningInfo where
  method := method
  uri := uri
  queryString := buildCanonicalQueryString queryParams
  headers := headers
  signedHeaders := getSignedHeaders headers
  payloadHash := s.hashPayload payload
  dateStamp := now.date
  datetimeStamp := now.datetimeStamp

/-- `'${name}:${value.trim_space()}\n'` -/
def headerLine (name value : ByteString) : ByteString :=
  name ++ ascii ":" ++ trimSpace value ++ ascii "\n"

/-- The line of the first header of that name. -/
def canonicalHeader (headers : InsertionMap ByteString ByteString) (name : ByteString) :
    ByteString :=
  match headers.entries.find? (fun e => toLower e.1 = name) with
  | some e => headerLine name e.2
  | none => []

/-- The lines of a canonical request. -/
def requestText (method uri queryString headers signedHeaders payloadHash : ByteString) :
    ByteString :=
  method ++ ascii "\n" ++ uri ++ ascii "\n" ++ queryString ++ ascii "\n" ++ headers ++ ascii "\n"
    ++ signedHeaders ++ ascii "\n" ++ payloadHash

def buildCanonicalRequest (info : S3SigningInfo) : ByteString :=
  requestText info.method info.uri info.queryString
    ((headerNames info.headers).flatMap (canonicalHeader info.headers)) info.signedHeaders
    info.payloadHash

def credentialScope (dateStamp : ByteString) : ByteString :=
  dateStamp ++ ascii "/" ++ s.config.region ++ ascii "/s3/aws4_request"

def buildStringToSign (info : S3SigningInfo) (canonicalRequest : ByteString) : ByteString :=
  ascii "AWS4-HMAC-SHA256" ++ ascii "\n" ++ info.datetimeStamp ++ ascii "\n"
    ++ s.credentialScope info.dateStamp ++ ascii "\n"
    ++ LocalStorage.hexStr (s.sha256 canonicalRequest).val

def getSigningKey (dateStamp : ByteString) : ByteString :=
  let kDate := s3HmacSha256 s.sha256 (ascii "AWS4" ++ s.config.secretKey) dateStamp
  let kRegion := s3HmacSha256 s.sha256 kDate s.config.region
  let kService := s3HmacSha256 s.sha256 kRegion (ascii "s3")
  s3HmacSha256 s.sha256 kService (ascii "aws4_request")

def calculateSignature (info : S3SigningInfo) (stringToSign : ByteString) : ByteString :=
  LocalStorage.hexStr (s3HmacSha256 s.sha256 (s.getSigningKey info.dateStamp) stringToSign)

/-- The header with its three parts. -/
def authorizationText (dateStamp signedHeaders signature : ByteString) : ByteString :=
  ascii "AWS4-HMAC-SHA256" ++ ascii " Credential=" ++ s.config.accessKey ++ ascii "/"
    ++ s.credentialScope dateStamp ++ ascii ", SignedHeaders=" ++ signedHeaders
    ++ ascii ", Signature=" ++ signature

def buildAuthorizationHeader (info : S3SigningInfo) (signature : ByteString) : ByteString :=
  s.authorizationText info.dateStamp info.signedHeaders signature

def getHost (bucket : ByteString) : ByteString :=
  if s.config.pathStyle = true ∨ bucket = [] then s.config.endpoint
  else bucket ++ ascii "." ++ s.config.endpoint

/-- The headers that are signed: those given, the host and the two of the signature. -/
def headersToSign (now : UtcTime) (headers : InsertionMap ByteString ByteString)
    (payload : ByteString) : InsertionMap ByteString ByteString :=
  ((headers.insert (ascii "Host") (s.getHost [])).insert (ascii "x-amz-date")
    now.datetimeStamp).insert (ascii "x-amz-content-sha256") (s.hashPayload payload)

/-- The clock is read once for the date header and once more for the signature. -/
def signRequest (now now' : UtcTime) (method uri : ByteString)
    (queryParams headers : InsertionMap ByteString ByteString) (payload : ByteString) :
    InsertionMap ByteString ByteString :=
  let headers := s.headersToSign now headers payload
  let finalInfo := s.createSigningInfo now' method uri queryParams headers payload
  let stringToSign := s.buildStringToSign finalInfo (buildCanonicalRequest finalInfo)
  headers.insert (ascii "Authorization")
    (s.buildAuthorizationHeader finalInfo (s.calculateSignature finalInfo stringToSign))

/-- The path that `get_url` puts behind the host. -/
def urlPath (bucket key : ByteString) : ByteString :=
  let path :=
    if s.config.pathStyle = true then
      (if bucket ≠ [] then ascii "/" ++ bucket else []) ++ (if key ≠ [] then ascii "/" ++ key else [])
    else if key ≠ [] then ascii "/" ++ key else []
  if path = [] then ascii "/" else path

def getUrl (bucket key : ByteString) (queryParams : InsertionMap ByteString ByteString) :
    ByteString :=
  let url := (if s.config.useSsl = true then ascii "https" else ascii "http") ++ ascii "://"
    ++ s.getHost bucket ++ s.urlPath bucket key
  if queryParams.len > 0 then url ++ ascii "?" ++ buildCanonicalQueryString queryParams else url

def getUriPath (bucket key : ByteString) : ByteString :=
  if s.config.pathStyle = true then
    let path := (if bucket ≠ [] then ascii "/" ++ bucket else [])
      ++ (if key ≠ [] then ascii "/" ++ key else [])
    if path = [] then ascii "/" else path
  else if key ≠ [] then ascii "/" ++ key else ascii "/"

/-- The request of `do_request`, up to `http.fetch`. -/
def doRequest (now now' : UtcTime) (method : HttpMethod) (bucket key : ByteString)
    (queryParams extraHeaders : InsertionMap ByteString ByteString) (payload : ByteString) :
    S3Request :=
  let signedHeaders := s.signRequest now now' method.str (s.getUriPath bucket key) queryParams
    extraHeaders payload
  { method := method
    url := s.getUrl bucket key queryParams
    header := Header.addAll [] signedHeaders.entries
    data := payload }

end S3Storage

/-- The value of the `Authorization` header. -/
def S3Request.authorization (r : S3Request) : Option ByteString :=
  (r.header.find? (fun f => f.1 = ascii "Authorization")).map Prod.snd

/-! ## The signature of the service -/

/-- A URL in its parts. -/
structure S3Url where
  scheme : ByteString
  host   : ByteString
  path   : ByteString
  params : InsertionMap ByteString ByteString

namespace AwsSignature

/-- RFC 3986 -/
def uriEncode (s : ByteString) : ByteString :=
  s.flatMap (fun b => if isUnreserved b = true then [b] else percentByte b)

/-- The slashes of a path stay. -/
def encodePath (s : ByteString) : ByteString :=
  s.flatMap (fun b => if isUnreserved b = true ∨ b = byte '/' then [b] else percentByte b)

def canonicalQuery (params : InsertionMap ByteString ByteString) : ByteString :=
  joinStrings (byte '&') ((sortStrings params.keys).map (fun key =>
    uriEncode key ++ ascii "=" ++ uriEncode ((params.get? key).getD [])))

/-- The fields of a request, without the one that carries the signature. -/
def signedFields (header : Header) : Header :=
  header.filter (fun f => toLower f.1 ≠ ascii "authorization")

/-- The names of the fields in lower case, each once. -/
def fieldNames (header : Header) : List ByteString :=
  sortStrings ((signedFields header).map (fun f => toLower f.1)).dedup

/-- The values of a name, in the order of the fields; the host is that of the URL. -/
def fieldValue (host : ByteString) (header : Header) (name : ByteString) : ByteString :=
  if name = ascii "host" then trimSpace host
  else joinStrings (byte ',') (((signedFields header).filter (fun f => toLower f.1 = name)).map
    (fun f => trimSpace f.2))

def canonicalRequest (sha256 : HashSum 32) (url : S3Url) (r : S3Request) : ByteString :=
  S3Storage.requestText r.method.str (encodePath url.path) (canonicalQuery url.params)
    ((fieldNames r.header).flatMap (fun name =>
      name ++ ascii ":" ++ fieldValue url.host r.header name ++ ascii "\n"))
    (joinStrings (byte ';') (fieldNames r.header)) (LocalStorage.hexStr (sha256 r.data).val)

/-- The time of the request is the one that it says. -/
def requestTime (r : S3Request) : ByteString :=
  ((r.header.find? (fun f => f.1 = ascii "x-amz-date")).map Prod.snd).getD []

/-- HMAC-SHA256 -/
def mac (sha256 : HashSum 32) (key data : ByteString) : ByteString :=
  Hmac.hmac (fun s => (sha256 s).val) 64 key data

def signingKey (config : S3Config) (sha256 : HashSum 32) (date : ByteString) : ByteString :=
  mac sha256 (mac sha256 (mac sha256 (mac sha256 (ascii "AWS4" ++ config.secretKey) date)
    config.region) (ascii "s3")) (ascii "aws4_request")

/-- The `Authorization` header that a request must carry. -/
def authorization (config : S3Config) (sha256 : HashSum 32) (url : S3Url) (r : S3Request) :
    ByteString :=
  let time := requestTime r
  let date := time.take 8
  let scope := date ++ ascii "/" ++ config.region ++ ascii "/s3/aws4_request"
  let stringToSign := ascii "AWS4-HMAC-SHA256" ++ ascii "\n" ++ time ++ ascii "\n" ++ scope
    ++ ascii "\n" ++ LocalStorage.hexStr (sha256 (canonicalRequest sha256 url r)).val
  ascii "AWS4-HMAC-SHA256" ++ ascii " Credential=" ++ config.accessKey ++ ascii "/" ++ scope
    ++ ascii ", SignedHeaders=" ++ joinStrings (byte ';') (fieldNames r.header)
    ++ ascii ", Signature="
    ++ LocalStorage.hexStr (mac sha256 (signingKey config sha256 date) stringToSign)

end AwsSignature

/-- The URL of a request in its parts. -/
def S3Storage.requestUrl (s : S3Storage) (bucket key : ByteString)
    (queryParams : InsertionMap ByteString ByteString) : S3Url where
  scheme := if s.config.useSsl = true then ascii "https" else ascii "http"
  host := s.getHost bucket
  path := s.urlPath bucket key
  params := queryParams

/-! ## The parts of a URL -/

/-- What ends the authority of a URL. -/
def endsAuthority (b : UInt8) : Bool := (ascii "/?#").contains b

/-- What ends its path. -/
def endsPath (b : UInt8) : Bool := (ascii "?#").contains b

/-- The authority and the path of a URL behind its scheme. -/
def urlParts (scheme url : ByteString) : ByteString × ByteString :=
  let rest := url.drop (scheme.length + 3)
  (rest.takeWhile (fun b => !endsAuthority b),
    (rest.dropWhile (fun b => !endsAuthority b)).takeWhile (fun b => !endsPath b))

theorem urlPath_rooted (s : S3Storage) (bucket key : ByteString) :
    ∃ tail, s.urlPath bucket key = byte '/' :: tail := by
  rw [S3Storage.urlPath]
  cases s.config.pathStyle <;> cases bucket <;> cases key <;> exact ⟨_, rfl⟩

/-- A host and a path that are one, as the URL they are put into has them. -/
theorem urlParts_getUrl (s : S3Storage) (bucket key : ByteString)
    (queryParams : InsertionMap ByteString ByteString)
    (hhost : ∀ b ∈ s.getHost bucket, endsAuthority b = false)
    (hpath : ∀ b ∈ s.urlPath bucket key, endsPath b = false) :
    urlParts (s.requestUrl bucket key queryParams).scheme (s.getUrl bucket key queryParams)
      = ((s.requestUrl bucket key queryParams).host, (s.requestUrl bucket key queryParams).path) := by
  obtain ⟨tail, htail⟩ := urlPath_rooted s bucket key
  obtain ⟨rest, hrest, hends⟩ : ∃ rest, (s.getUrl bucket key queryParams).drop
      ((s.requestUrl bucket key queryParams).scheme.length + 3)
        = s.getHost bucket ++ (s.urlPath bucket key ++ rest) ∧
      ∀ b, rest.head? = some b → endsPath b = true := by
    have hurl : ∀ rest, ((s.requestUrl bucket key queryParams).scheme ++ ascii "://"
        ++ s.getHost bucket ++ s.urlPath bucket key ++ rest).drop
          ((s.requestUrl bucket key queryParams).scheme.length + 3)
        = s.getHost bucket ++ (s.urlPath bucket key ++ rest) := by
      intro rest
      rw [List.append_assoc, List.append_assoc]
      exact List.drop_left' List.length_append
    rw [S3Storage.getUrl]
    split
    · refine ⟨ascii "?" ++ S3Storage.buildCanonicalQueryString queryParams, ?_, ?_⟩
      · rw [List.append_assoc]
        exact hurl _
      · intro b hb
        rw [← Option.some.inj hb]
        decide
    · refine ⟨[], ?_, fun b hb => (by cases hb)⟩
      have hnil := hurl []
      rwa [List.append_nil] at hnil
  have hslash : endsAuthority (byte '/') = true := by decide
  rw [urlParts, hrest]
  refine Prod.ext ?_ ?_
  · show List.takeWhile _ _ = s.getHost bucket
    rw [List.takeWhile_append_of_pos (fun b hb => by rw [hhost b hb]; rfl), htail, List.cons_append,
      List.takeWhile_cons_of_neg (by rw [hslash]; decide), List.append_nil]
  · show List.takeWhile _ (List.dropWhile _ _) = s.urlPath bucket key
    rw [List.dropWhile_append_of_pos (fun b hb => by rw [hhost b hb]; rfl)]
    have hdrop : List.dropWhile (fun b => !endsAuthority b) (s.urlPath bucket key ++ rest)
        = s.urlPath bucket key ++ rest := by
      rw [htail, List.cons_append, List.dropWhile_cons_of_neg (by rw [hslash]; decide)]
    rw [hdrop, List.takeWhile_append_of_pos (fun b hb => by rw [hpath b hb]; rfl)]
    cases rest with
    | nil => rw [List.takeWhile_nil, List.append_nil]
    | cons b rest =>
        rw [List.takeWhile_cons_of_neg (by rw [hends b rfl]; decide), List.append_nil]

end VHono
