import VHono.Responses
import VHono.JwtTokens
import VHono.TextSplits
import VHono.Trimming

/-! # Cookies

    A cookie is written as one string with its attributes into the
    `Set-Cookie` header of the response, and read back from the `Cookie` header
    of a request, which is split at `;` and at the first `=` of each piece.  A
    signed cookie carries its value and a keyed hash of the value. -/

namespace VHono

open ByteString

inductive SameSite
  | strict
  | lax
  | none_
  deriving DecidableEq

/-- `time.Time` -/
structure Time where
  year   : Nat
  month  : Nat
  day    : Nat
  hour   : Nat
  minute : Nat
  second : Nat
  deriving DecidableEq

structure CookieOptions where
  path     : ByteString := ascii "/"
  domain   : ByteString := []
  maxAge   : Int := 0
  expires  : Option Time := none
  httpOnly : Bool := false
  secure   : Bool := false
  sameSite : SameSite := .lax

/-- An array access out of range ends the program; an error is returned. -/
inductive CookieFailure
  | panic
  | error (message : ByteString)
  deriving DecidableEq

/-! ## Writing -/

/-- `t.day_of_week()`: Monday is 1 and Sunday is 7. -/
def Time.dayOfWeek (t : Time) : Option Nat :=
  let year := if t.month < 3 then t.year - 1 else t.year
  if t.month = 0 then none
  else ([0, 3, 2, 5, 0, 3, 5, 1, 4, 6, 2, 4] : List Nat)[t.month - 1]?.map (fun offset =>
    (year + year / 4 - year / 100 + year / 400 + offset + t.day - 1) % 7 + 1)

/-- `time.unix(0)` -/
def Time.epoch : Time := ⟨1970, 1, 1, 0, 0, 0⟩

/-- `${n:02}` -/
def padTwo (n : Nat) : ByteString := if n < 10 then byte '0' :: decimal n else decimal n

def dayNames : List ByteString :=
  [ascii "Sun", ascii "Mon", ascii "Tue", ascii "Wed", ascii "Thu", ascii "Fri", ascii "Sat"]

def monthNames : List ByteString :=
  [ascii "Jan", ascii "Feb", ascii "Mar", ascii "Apr", ascii "May", ascii "Jun", ascii "Jul",
    ascii "Aug", ascii "Sep", ascii "Oct", ascii "Nov", ascii "Dec"]

/-- `days[t.day_of_week()]`; no name where the index is out of range. -/
def Time.dayName (t : Time) : Option ByteString := t.dayOfWeek.bind (fun d => dayNames[d]?)

/-- `months[t.month - 1]` -/
def Time.monthName (t : Time) : Option ByteString :=
  if t.month = 0 then none else monthNames[t.month - 1]?

def formatCookieDate (t : Time) : Option ByteString :=
  match t.dayName, t.monthName with
  | some dayName, some monthName =>
      some (dayName ++ ascii ", " ++ padTwo t.day ++ ascii " " ++ monthName ++ ascii " " ++
        decimal t.year ++ ascii " " ++ padTwo t.hour ++ ascii ":" ++ padTwo t.minute ++ ascii ":" ++
        padTwo t.second ++ ascii " GMT")
  | _, _ => none

def SameSite.attribute : SameSite → ByteString
  | .strict => ascii "SameSite=Strict"
  | .lax => ascii "SameSite=Lax"
  | .none_ => ascii "SameSite=None"

def expiresAttribute (opts : CookieOptions) : Option (List ByteString) :=
  match opts.expires with
  | some expires => (formatCookieDate expires).map (fun date => [ascii "Expires=" ++ date])
  | none => some []

/-- The parts after `name=value`. -/
def cookieAttributes (opts : CookieOptions) : Option (List ByteString) :=
  (expiresAttribute opts).map (fun expires =>
    (if opts.path.length > 0 then [ascii "Path=" ++ opts.path] else []) ++
      (if opts.domain.length > 0 then [ascii "Domain=" ++ opts.domain] else []) ++
      (if opts.maxAge ≠ 0 then [ascii "Max-Age=" ++ intStr opts.maxAge] else []) ++
      expires ++
      (if opts.httpOnly = true then [ascii "HttpOnly"] else []) ++
      (if opts.secure = true then [ascii "Secure"] else []) ++
      [opts.sameSite.attribute])

def buildCookieString (name value : ByteString) (opts : CookieOptions) : Option ByteString :=
  (cookieAttributes opts).map (fun attributes =>
    (ascii "; ").intercalate ((name ++ ascii "=" ++ value) :: attributes))

/-- The first of the optional arguments. -/
def CookieOptions.first (options : List CookieOptions) : CookieOptions := options.headD {}

/-- A `Set-Cookie` header that is there is extended. -/
def Context.appendSetCookie (c : Context) (cookieStr : ByteString) : Context :=
  let line := match c.headers.get? (ascii "Set-Cookie") with
    | some existing => existing ++ ascii ", " ++ cookieStr
    | none => cookieStr
  { c with headers := c.headers.insert (ascii "Set-Cookie") line }

def setCookie (c : Context) (name value : ByteString) (options : List CookieOptions) :
    Except CookieFailure Context :=
  match buildCookieString name value (CookieOptions.first options) with
  | some cookieStr => .ok (c.appendSetCookie cookieStr)
  | none => .error .panic

def CookieOptions.deleting (opts : CookieOptions) : CookieOptions :=
  { opts with maxAge := 0, expires := some Time.epoch }

def deleteCookie (c : Context) (name : ByteString) (options : List CookieOptions) :
    Except CookieFailure Context :=
  match buildCookieString name [] (CookieOptions.first options).deleting with
  | some cookieStr => .ok (c.appendSetCookie cookieStr)
  | none => .error .panic

/-! ## Reading -/

/-- Quotes at both ends. -/
def quoted (value : ByteString) : Bool :=
  decide (value.length ≥ 2) && byteAt value 0 == byte '"' &&
    byteAt value (value.length - 1) == byte '"'

def unquote (value : ByteString) : ByteString :=
  if quoted value = true then slice value 1 (value.length - 1) else value

/-- A piece of the header; a blank one and one without a name are passed over. -/
def parseCookiePair (pair : ByteString) : Option (ByteString × ByteString) :=
  let trimmed := trimSpace pair
  if trimmed.length = 0 then none
  else
    match trimmed.idxOf? (byte '=') with
    | none => none
    | some eqPos =>
        if eqPos = 0 then none
        else
          let name := trimSpace (trimmed.take eqPos)
          let value := if eqPos + 1 < trimmed.length then trimSpace (trimmed.drop (eqPos + 1)) else []
          some (name, unquote value)

def addCookiePair (cookies : InsertionMap ByteString ByteString) (pair : ByteString) :
    InsertionMap ByteString ByteString :=
  match parseCookiePair pair with
  | some (name, value) => cookies.insert name value
  | none => cookies

def parseCookieHeader (header : ByteString) : InsertionMap ByteString ByteString :=
  (header.splitOn (byte ';')).foldl addCookiePair .empty

def getCookie (c : Context) (name : ByteString) : Option ByteString :=
  match c.req.header.getCustom (ascii "Cookie") with
  | none => none
  | some cookieHeader =>
      if cookieHeader.length = 0 then none else (parseCookieHeader cookieHeader).get? name

def getAllCookies (c : Context) : InsertionMap ByteString ByteString :=
  match c.req.header.getCustom (ascii "Cookie") with
  | none => .empty
  | some cookieHeader => if cookieHeader.length = 0 then .empty else parseCookieHeader cookieHeader

/-! ## Signatures -/

/-- A SHA-256 sum. -/
abbrev Digest := { d : ByteString // d.length = 32 }

/-- `replace_each(['+', '-', '/', '_', '=', ''])` at one character -/
def urlText (b : UInt8) : ByteString :=
  if b = byte '+' then ascii "-"
  else if b = byte '/' then ascii "_"
  else if b = byte '=' then []
  else [b]

/-- `base64.url_encode(data)` -/
def urlEncode (data : ByteString) : ByteString := (Base64.encode data).flatMap urlText

section Signed

variable (sha256 : ByteString → Digest)

/-- The key, hashed if it is too long and filled up to a block. -/
def hmacKey (secret : ByteString) : ByteString :=
  let key := if secret.length > 64 then (sha256 secret).val else secret
  key ++ List.replicate (64 - key.length) 0

def generateHmacSignature (value secret : ByteString) : ByteString :=
  let key := hmacKey sha256 secret
  let iKeyPad := key.map (· ^^^ 0x36)
  let oKeyPad := key.map (· ^^^ 0x5c)
  let innerHash := (sha256 (iKeyPad ++ value)).val
  let outerHash := (sha256 (oKeyPad ++ innerHash)).val
  (urlEncode outerHash).filter (fun b => b ≠ byte '=')

def constantTimeCompare (a b : ByteString) : Bool :=
  if a.length ≠ b.length then false
  else (a.zip b).foldl (fun result pair => result ||| (pair.1 ^^^ pair.2)) 0 == 0

def setSignedCookie (c : Context) (name value secret : ByteString) (options : List CookieOptions) :
    Except CookieFailure Context :=
  if secret.length = 0 then .error (.error (ascii "Secret is required for signed cookies"))
  else
    let signature := generateHmacSignature sha256 value secret
    let signedValue := value ++ ascii "." ++ signature
    setCookie c name signedValue [CookieOptions.first options]

def getSignedCookie (c : Context) (name secret : ByteString) : Except ByteString ByteString :=
  if secret.length = 0 then .error (ascii "Secret is required for signed cookies")
  else
    match getCookie c name with
    | none => .error (ascii "Cookie not found: " ++ name)
    | some signedValue =>
        match lastIndexOf (byte '.') signedValue with
        | none => .error (ascii "Invalid signed cookie format")
        | some dotPos =>
            if dotPos = 0 ∨ dotPos ≥ signedValue.length - 1 then
              .error (ascii "Invalid signed cookie format")
            else
              let value := signedValue.take dotPos
              let signature := signedValue.drop (dotPos + 1)
              let expectedSignature := generateHmacSignature sha256 value secret
              if !constantTimeCompare signature expectedSignature then
                .error (ascii "Invalid signature")
              else .ok value

end Signed

/-! ## What a header is read as -/

/-- The cookie of a name is one of the pieces. -/
theorem mem_of_parsed (pairs : List ByteString) (cookies : InsertionMap ByteString ByteString)
    {name value : ByteString} (h : (pairs.foldl addCookiePair cookies).get? name = some value) :
    (∃ pair ∈ pairs, parseCookiePair pair = some (name, value)) ∨
      cookies.get? name = some value := by
  induction pairs generalizing cookies with
  | nil => exact Or.inr h
  | cons pair pairs ih =>
      rw [List.foldl_cons] at h
      rcases ih _ h with ⟨pair', hmem, hpair'⟩ | hbefore
      · exact Or.inl ⟨pair', List.mem_cons_of_mem _ hmem, hpair'⟩
      · rw [addCookiePair] at hbefore
        cases hparse : parseCookiePair pair with
        | none =>
            rw [hparse] at hbefore
            exact Or.inr hbefore
        | some cookie =>
            rw [hparse] at hbefore
            dsimp only at hbefore
            rw [InsertionMap.get?_insert] at hbefore
            split at hbefore
            · rename_i hname
              cases hbefore
              exact Or.inl ⟨pair, List.mem_cons_self .., by rw [hparse, hname]⟩
            · exact Or.inr hbefore

theorem getCookie_some {c : Context} {name value : ByteString} (h : getCookie c name = some value) :
    ∃ header, c.req.header.getCustom (ascii "Cookie") = some header ∧
      ∃ pair ∈ header.splitOn (byte ';'), parseCookiePair pair = some (name, value) := by
  rw [getCookie] at h
  cases hheader : c.req.header.getCustom (ascii "Cookie") with
  | none =>
      rw [hheader] at h
      cases h
  | some header =>
      rw [hheader] at h
      change (if header.length = 0 then none else (parseCookieHeader header).get? name)
        = some value at h
      split at h
      · cases h
      · rcases mem_of_parsed _ _ h with hpair | hempty
        · exact ⟨header, rfl, hpair⟩
        · cases hempty

/-! ## Parts of the header -/

theorem unquote_part (s : ByteString) : unquote s <:+: s := by
  rw [unquote]
  split
  · exact slice_within _ _ _
  · exact List.infix_rfl

theorem splitOn_part {s piece : ByteString} {c : UInt8} (h : piece ∈ s.splitOn c) :
    piece <:+: s := by
  have hpart := infix_intercalate [c] h
  rwa [List.intercalate_splitOn] at hpart

/-- The value of a cookie stands in the piece it is read from. -/
theorem parseCookiePair_part {pair name value : ByteString}
    (h : parseCookiePair pair = some (name, value)) : value <:+: pair := by
  rw [parseCookiePair] at h
  dsimp only at h
  split at h
  · cases h
  · cases heq : (trimSpace pair).idxOf? (byte '=') with
    | none =>
        rw [heq] at h
        cases h
    | some eqPos =>
        rw [heq] at h
        dsimp only at h
        split at h
        · cases h
        · cases h
          refine (unquote_part _).trans ?_
          split
          · exact (trimSpace_part _).trans ((List.drop_suffix _ _).isInfix.trans (trimSpace_part _))
          · exact List.nil_infix

theorem idxOf?_append {c : UInt8} {m : ByteString} (hm : c ∉ m) (s : ByteString) :
    (m ++ c :: s).idxOf? c = some m.length := by
  induction m with
  | nil => rw [List.nil_append, List.idxOf?_cons, beq_self_eq_true]; rfl
  | cons b m ih =>
      have hb : (b == c) = false :=
        beq_eq_false_iff_ne.mpr (fun h => hm (h ▸ List.mem_cons_self ..))
      rw [List.cons_append, List.idxOf?_cons, hb, ih (fun h => hm (List.mem_cons_of_mem _ h))]
      rfl

theorem lastIndexOf_append {c : UInt8} {a b : ByteString} (hb : c ∉ b) :
    lastIndexOf c (a ++ c :: b) = some a.length := by
  have hback : (a ++ c :: b).reverse = b.reverse ++ c :: a.reverse := by simp
  rw [lastIndexOf, hback, idxOf?_append (by simpa using hb)]
  simp

theorem lastIndexOf_eq_some {c : UInt8} {s : ByteString} {k : Nat} (h : lastIndexOf c s = some k) :
    ∃ a b, s = a ++ c :: b ∧ c ∉ b ∧ a.length = k := by
  have hmem : c ∈ s.reverse := by
    by_contra hnot
    rw [lastIndexOf_eq_none (fun hc => hnot (List.mem_reverse.mpr hc))] at h
    cases h
  obtain ⟨b, a, hsplit, hb⟩ := List.eq_append_cons_of_mem hmem
  have hs : s = a.reverse ++ c :: b.reverse := by
    rw [← List.reverse_reverse s, hsplit]
    simp
  rw [hs, lastIndexOf_append (by simpa using hb)] at h
  exact ⟨a.reverse, b.reverse, hs, by simpa using hb, Option.some.inj h⟩

/-! ## Signed cookies -/

/-- The characters of a signature. -/
def isSignatureByte (b : UInt8) : Bool :=
  (byte 'a' ≤ b && b ≤ byte 'z') || (byte 'A' ≤ b && b ≤ byte 'Z') ||
    (byte '0' ≤ b && b ≤ byte '9') || b == byte '-' || b == byte '_'

theorem urlText_digit : ∀ n < 64, urlText (Base64.digit n) = [urlDigit (Base64.digit n)] ∧
    isSignatureByte (urlDigit (Base64.digit n)) = true := by
  decide

theorem urlEncode_eq (data : ByteString) : urlEncode data = (Base64.digits data).map urlDigit := by
  have hpad : ∀ n, (List.replicate n (byte '=')).flatMap urlText = [] := by
    intro n
    rw [List.flatMap_eq_nil_iff]
    intro b hb
    rw [List.eq_of_mem_replicate hb]
    rfl
  rw [urlEncode, Base64.encode, List.flatMap_append, hpad, List.append_nil, List.map_eq_flatMap]
  refine List.flatMap_congr (fun b hb => ?_)
  obtain ⟨n, hn, rfl⟩ := Base64.mem_digits hb
  exact (urlText_digit n hn).1

theorem isSignatureByte_of_mem {data : ByteString} {b : UInt8} (h : b ∈ urlEncode data) :
    isSignatureByte b = true := by
  rw [urlEncode_eq] at h
  obtain ⟨c, hc, rfl⟩ := List.mem_map.mp h
  obtain ⟨n, hn, rfl⟩ := Base64.mem_digits hc
  exact (urlText_digit n hn).2

section Signed

variable {sha256 : ByteString → Digest}

/-- A signature is the text of a digest. -/
theorem signature_eq (sha256 : ByteString → Digest) (value secret : ByteString) :
    ∃ d : Digest, generateHmacSignature sha256 value secret = urlEncode d.val := by
  let key := hmacKey sha256 secret
  refine ⟨sha256 (key.map (· ^^^ 0x5c) ++ (sha256 (key.map (· ^^^ 0x36) ++ value)).val), ?_⟩
  show List.filter _ (urlEncode _) = urlEncode _
  refine List.filter_eq_self.mpr (fun b hb => ?_)
  have hletter := isSignatureByte_of_mem hb
  rw [decide_eq_true_eq]
  rintro rfl
  revert hletter
  decide

theorem isSignatureByte_signature {value secret : ByteString} {b : UInt8}
    (h : b ∈ generateHmacSignature sha256 value secret) : isSignatureByte b = true := by
  obtain ⟨d, hd⟩ := signature_eq sha256 value secret
  rw [hd] at h
  exact isSignatureByte_of_mem h

/-- What is not a letter, a digit, `-` or `_` is not in a signature. -/
theorem not_mem_signature (value secret : ByteString) {b : UInt8} (h : isSignatureByte b = false) :
    b ∉ generateHmacSignature sha256 value secret := by
  intro hmem
  rw [isSignatureByte_signature hmem] at h
  cases h

theorem length_signature (sha256 : ByteString → Digest) (value secret : ByteString) :
    (generateHmacSignature sha256 value secret).length = 43 := by
  obtain ⟨d, hd⟩ := signature_eq sha256 value secret
  have hlength := Base64.length_digits d.val
  rw [d.property] at hlength
  rw [hd, urlEncode_eq, List.length_map]
  omega

theorem constantTimeCompare_iff (a b : ByteString) : constantTimeCompare a b = true ↔ a = b :=
  constantTimeCompareJwt_iff a b

/-- A signed cookie is accepted if the text after its last dot signs the text before. -/
theorem getSignedCookie_ok_iff (c : Context) (name secret value : ByteString) :
    getSignedCookie sha256 c name secret = .ok value ↔
      secret ≠ [] ∧ value ≠ [] ∧ getCookie c name
        = some (value ++ byte '.' :: generateHmacSignature sha256 value secret) := by
  rw [getSignedCookie]
  by_cases hsecret : secret = []
  · rw [if_pos (List.length_eq_zero_iff.mpr hsecret)]
    constructor
    · rintro ⟨⟩
    · exact fun h => absurd hsecret h.1
  rw [if_neg (fun h => hsecret (List.length_eq_zero_iff.mp h))]
  cases hget : getCookie c name with
  | none =>
      constructor
      · rintro ⟨⟩
      · rintro ⟨-, -, ⟨⟩⟩
  | some signedValue =>
      dsimp only
      constructor
      · intro h
        cases hdot : lastIndexOf (byte '.') signedValue with
        | none =>
            rw [hdot] at h
            cases h
        | some dotPos =>
            obtain ⟨a, b, rfl, -, rfl⟩ := lastIndexOf_eq_some hdot
            rw [hdot] at h
            dsimp only at h
            split at h
            · cases h
            · rename_i hpos
              have htake : (a ++ byte '.' :: b).take a.length = a := List.take_left
              have hdrop : (a ++ byte '.' :: b).drop (a.length + 1) = b := by
                rw [← List.drop_drop, List.drop_left]
                rfl
              rw [htake, hdrop] at h
              split at h
              · cases h
              · rename_i hcompare
                cases h
                have heq : b = generateHmacSignature sha256 value secret := by
                  rw [← constantTimeCompare_iff]
                  simpa using hcompare
                refine ⟨hsecret, ?_, by rw [heq]⟩
                rintro rfl
                exact hpos (Or.inl rfl)
      · rintro ⟨-, hvalue, heq⟩
        have hsignature := length_signature sha256 value secret
        have hpos : ¬ (value.length = 0 ∨ value.length ≥
            (value ++ byte '.' :: generateHmacSignature sha256 value secret).length - 1) := by
          rw [List.length_eq_zero_iff, List.length_append, List.length_cons]
          rintro (h | h)
          · exact hvalue h
          · omega
        have hdrop : (value ++ byte '.' :: generateHmacSignature sha256 value secret).drop
            (value.length + 1) = generateHmacSignature sha256 value secret := by
          rw [← List.drop_drop, List.drop_left]
          rfl
        cases heq
        rw [lastIndexOf_append (not_mem_signature value secret (by decide))]
        dsimp only
        rw [if_neg hpos, List.take_left, hdrop, (constantTimeCompare_iff _ _).mpr rfl]
        rfl

end Signed

end VHono
