import VHono.Responses

/-! # The compress middleware

    It runs the rest of the chain and replaces the response by one whose body is
    compressed and whose header names the coding.  The compression itself is a
    library function, a parameter here.  Replaced or not, the context is left as
    the chain left it. -/

namespace VHono

open ByteString HttpGrammar

inductive CompressEncoding
  | gzip
  | deflate
  deriving DecidableEq, Repr

def CompressEncoding.str : CompressEncoding → ByteString
  | .gzip => ascii "gzip"
  | .deflate => ascii "deflate"

structure CompressOptions where
  encoding  : Option CompressEncoding := none
  threshold : Int := 1024
  level     : Int := 128

def hasNoTransform (response : HttpResponse) : Bool :=
  containsStr ((response.header.getCustom (ascii "Cache-Control")).getD []) (ascii "no-transform")

def getResponseContentType (response : HttpResponse) : ByteString :=
  (response.header.getCustom (ascii "Content-Type")).getD []

def compressibleTypes : List ByteString :=
  [ascii "text/", ascii "application/json", ascii "application/javascript",
    ascii "application/xml", ascii "application/xhtml+xml", ascii "application/rss+xml",
    ascii "application/atom+xml", ascii "application/x-javascript",
    ascii "application/x-font-ttf", ascii "font/opentype", ascii "font/ttf", ascii "font/eot",
    ascii "image/svg+xml", ascii "image/x-icon", ascii "image/vnd.microsoft.icon"]

def nonCompressibleTypes : List ByteString :=
  [ascii "image/png", ascii "image/jpeg", ascii "image/gif", ascii "image/webp", ascii "video/",
    ascii "audio/", ascii "application/zip", ascii "application/gzip",
    ascii "application/x-gzip", ascii "application/x-compress",
    ascii "application/x-compressed", ascii "application/x-bzip", ascii "application/x-bzip2",
    ascii "application/x-rar-compressed", ascii "application/x-7z-compressed"]

def isCompressibleContentType (contentType : ByteString) : Bool :=
  if contentType.length = 0 then true
  else
    let ctLower := toLower contentType
    if compressibleTypes.any (fun ct => startsWith ctLower ct || containsStr ctLower ct) then true
    else if nonCompressibleTypes.any (fun ct => startsWith ctLower ct || containsStr ctLower ct)
    then false
    else true

def isAlreadyCompressed (response : HttpResponse) : Bool :=
  ((response.header.getCustom (ascii "Content-Encoding")).getD []).length > 0

def acceptsGzip (acceptEncoding : ByteString) : Bool :=
  containsStr acceptEncoding (ascii "gzip") || containsStr acceptEncoding (ascii "*")

def acceptsDeflate (acceptEncoding : ByteString) : Bool :=
  containsStr acceptEncoding (ascii "deflate") || containsStr acceptEncoding (ascii "*")

def selectEncoding (acceptEncoding : ByteString) (preferred : Option CompressEncoding) :
    Option CompressEncoding :=
  match preferred with
  | some .gzip => if acceptsGzip acceptEncoding = true then some .gzip else none
  | some .deflate => if acceptsDeflate acceptEncoding = true then some .deflate else none
  | none =>
    if acceptsGzip acceptEncoding = true then some .gzip
    else if acceptsDeflate acceptEncoding = true then some .deflate
    else none

/-- The header of the response, without its length, under the new coding and length. -/
def compressedHeader (header : Header) (encoding : CompressEncoding) (body : ByteString) :
    Header :=
  let copied : Header := header.keys.foldl (fun h key =>
    (header.customValues key).foldl (fun h value =>
      if toLower key ≠ ascii "content-length" then h.addCustom key value else h) h) []
  ((copied.addCustom (ascii "Content-Encoding") encoding.str).addCustom
    (ascii "Content-Length") (decimal body.length)).addCustom
      (ascii "Vary") (ascii "Accept-Encoding")

/-- The middleware; `next` returns the response and the context it leaves behind. -/
def compress (compressBody : ByteString → CompressEncoding → Int → Option ByteString)
    (opts : CompressOptions) (c : Context) (next : Context → HttpResponse × Context) :
    HttpResponse × Context :=
  let (response, c) := next c
  if hasNoTransform response = true then (response, c)
  else if (response.body.length : Int) < opts.threshold then (response, c)
  else if isCompressibleContentType (getResponseContentType response) = false then (response, c)
  else if isAlreadyCompressed response = true then (response, c)
  else
    let acceptEncoding := (c.req.header.getCustom (ascii "Accept-Encoding")).getD []
    if acceptEncoding.length = 0 then (response, c)
    else
      match selectEncoding acceptEncoding opts.encoding with
      | none => (response, c)
      | some encoding =>
        match compressBody response.body encoding opts.level with
        | none => (response, c)
        | some body =>
          if body.length ≥ response.body.length then (response, c)
          else
            ({ statusCode := response.statusCode
               header := compressedHeader response.header encoding body
               body := body }, c)

/-- The header names the coding. -/
theorem mem_compressedHeader (header : Header) (encoding : CompressEncoding)
    (body : ByteString) :
    (ascii "Content-Encoding", encoding.str) ∈ compressedHeader header encoding body := by
  have hkept : ∀ (h : Header) (name value : ByteString) {p : ByteString × ByteString},
      p ∈ h → p ∈ h.addCustom name value := by
    intro h name value p hp
    rw [Header.addCustom]
    split
    · exact List.mem_append_left _ hp
    · exact hp
  have hadded : ∀ h : Header, (ascii "Content-Encoding", encoding.str)
      ∈ h.addCustom (ascii "Content-Encoding") encoding.str := by
    intro h
    have hvalid : Header.validName (ascii "Content-Encoding") = true := by decide
    rw [Header.addCustom, if_pos hvalid]
    exact List.mem_append_right _ (List.mem_singleton.mpr rfl)
  exact hkept _ _ _ (hkept _ _ _ (hadded _))

/-- The response passes the tests that come before the header of the request. -/
def Transformable (opts : CompressOptions) (response : HttpResponse) : Prop :=
  hasNoTransform response = false ∧ opts.threshold ≤ response.body.length ∧
  isCompressibleContentType (getResponseContentType response) = true ∧
  isAlreadyCompressed response = false

/-- **WHAT THE MIDDLEWARE DOES.**  It returns the response of the chain, or the response has
    passed every test and is returned with a shorter body and a header that names the coding;
    the context stays as the chain left it. -/
theorem compress_cases
    (compressBody : ByteString → CompressEncoding → Int → Option ByteString)
    (opts : CompressOptions) (c : Context) (next : Context → HttpResponse × Context) :
    compress compressBody opts c next = next c ∨
    ∃ encoding body, Transformable opts (next c).1 ∧
      selectEncoding (((next c).2.req.header.getCustom (ascii "Accept-Encoding")).getD [])
        opts.encoding = some encoding ∧
      compressBody (next c).1.body encoding opts.level = some body ∧
      body.length < (next c).1.body.length ∧
      compress compressBody opts c next
        = (⟨(next c).1.statusCode, compressedHeader (next c).1.header encoding body, body⟩,
            (next c).2) := by
  rw [compress]
  obtain ⟨response, c'⟩ := next c
  dsimp only
  -- each test that fails leaves the response of the chain
  split_ifs with hkeep hthreshold htype hplain htext
  · exact Or.inl rfl
  · exact Or.inl rfl
  · exact Or.inl rfl
  · exact Or.inl rfl
  · exact Or.inl rfl
  · have hresponse : Transformable opts response :=
      ⟨eq_false_of_ne_true hkeep, Int.not_lt.mp hthreshold, eq_true_of_ne_false htype,
        eq_false_of_ne_true hplain⟩
    cases hselect : selectEncoding
        ((c'.req.header.getCustom (ascii "Accept-Encoding")).getD []) opts.encoding with
    | none => exact Or.inl rfl
    | some encoding =>
        cases hbody : compressBody response.body encoding opts.level with
        | none =>
            dsimp only
            rw [hbody]
            exact Or.inl rfl
        | some body =>
            dsimp only
            rw [hbody]
            by_cases hlength : body.length ≥ response.body.length
            · exact Or.inl (if_pos hlength)
            · exact Or.inr ⟨encoding, body, hresponse, rfl, hbody, Nat.lt_of_not_le hlength,
                if_neg hlength⟩

end VHono
