import VHono.AcceptLists
import VHono.Compress

/-! # Negotiated codings

    The compress middleware looks for the name of a coding, or for a star,
    anywhere in the field that lists the accepted codings.  It does not read the
    weights, nor where a name ends: it applies a coding that is refused, and one
    whose name is part of another.  The body it returns can always be decoded. -/

namespace VHono

open ByteString HttpGrammar

/-! ## The codings a client accepts -/

/-- The names of a coding, which are compared without case. -/
def CompressEncoding.named (encoding : CompressEncoding) (coding : ByteString) : Bool :=
  match encoding with
  | .gzip => eqIgnoreCase coding (ascii "gzip") || eqIgnoreCase coding (ascii "x-gzip")
  | .deflate => eqIgnoreCase coding (ascii "deflate")

/-- The coding announced last, which is the first to be undone. -/
def announced (header : Header) : Option ByteString :=
  (header.customValues (ascii "Content-Encoding")).getLast?

/-- The response is unchanged, or its coding is accepted and announced, and decoding gives
    the body. -/
def Negotiated (decompress : CompressEncoding → ByteString → Option ByteString)
    (elements : List AcceptElement) (original result : HttpResponse) : Prop :=
  result = original ∨
  ∃ encoding : CompressEncoding, Accepts elements encoding.named ∧
    announced result.header = some encoding.str ∧
    decompress encoding result.body = some original.body

/-! ## The coding that is applied -/

/-- The name of the coding, or a star, occurs in a coding of the list. -/
def MentionsCoding (elements : List AcceptElement) (encoding : CompressEncoding) : Prop :=
  ∃ p ∈ preferences elements, containsStr p.coding encoding.str = true ∨
    containsStr p.coding (ascii "*") = true

/-- The coding that is preferred, or the first of the two that is mentioned. -/
def Picks (elements : List AcceptElement) (preferred : Option CompressEncoding)
    (encoding : CompressEncoding) : Prop :=
  MentionsCoding elements encoding ∧
  (preferred = some encoding ∨
    (preferred = none ∧ (encoding = .deflate → ¬ MentionsCoding elements .gzip)))

theorem CompressEncoding.unframed_str (encoding : CompressEncoding) : Unframed encoding.str := by
  cases encoding with
  | gzip => exact ⟨by decide, by decide⟩
  | deflate => exact ⟨by decide, by decide⟩

theorem unframed_star : Unframed (ascii "*") := ⟨by decide, by decide⟩

theorem mentionsCoding_iff (elements : List AcceptElement) (encoding : CompressEncoding) :
    (containsStr (acceptText elements) encoding.str
      || containsStr (acceptText elements) (ascii "*")) = true ↔
        MentionsCoding elements encoding := by
  rw [Bool.or_eq_true, containsStr_acceptText encoding.unframed_str,
    containsStr_acceptText unframed_star]
  constructor
  · rintro (⟨p, hp, hname⟩ | ⟨p, hp, hstar⟩)
    · exact ⟨p, hp, Or.inl hname⟩
    · exact ⟨p, hp, Or.inr hstar⟩
  · rintro ⟨p, hp, hname | hstar⟩
    · exact Or.inl ⟨p, hp, hname⟩
    · exact Or.inr ⟨p, hp, hstar⟩

theorem acceptsGzip_iff (elements : List AcceptElement) :
    acceptsGzip (acceptText elements) = true ↔ MentionsCoding elements .gzip :=
  mentionsCoding_iff elements .gzip

theorem acceptsDeflate_iff (elements : List AcceptElement) :
    acceptsDeflate (acceptText elements) = true ↔ MentionsCoding elements .deflate :=
  mentionsCoding_iff elements .deflate

/-- What the substring tests select. -/
theorem selectEncoding_iff (elements : List AcceptElement) (preferred : Option CompressEncoding)
    (encoding : CompressEncoding) :
    selectEncoding (acceptText elements) preferred = some encoding ↔
      Picks elements preferred encoding := by
  have hgzip := acceptsGzip_iff elements
  have hdeflate := acceptsDeflate_iff elements
  rw [Picks]
  fun_cases selectEncoding (acceptText elements) preferred with
  | case1 haccepts => cases encoding <;> simp [hgzip.mp haccepts]
  | case2 haccepts => cases encoding <;> simp [mt hgzip.mpr haccepts]
  | case3 haccepts => cases encoding <;> simp [hdeflate.mp haccepts]
  | case4 haccepts => cases encoding <;> simp [mt hdeflate.mpr haccepts]
  | case5 haccepts => cases encoding <;> simp [hgzip.mp haccepts]
  | case6 hnone haccepts =>
      cases encoding <;> simp [mt hgzip.mpr hnone, hdeflate.mp haccepts]
  | case7 hnone haccepts =>
      cases encoding <;> simp [mt hgzip.mpr hnone, mt hdeflate.mpr haccepts]

/-! ## The response that is returned -/

theorem customValues_addCustom {name : ByteString} (hvalid : Header.validName name = true)
    (header : Header) (value key : ByteString) :
    (header.addCustom name value).customValues key
      = header.customValues key ++ bif eqIgnoreCase name key then [value] else [] := by
  rw [Header.addCustom, if_pos hvalid, Header.customValues, List.filter_append, List.map_append,
    List.filter_singleton]
  show _ ++ List.map Prod.snd (bif eqIgnoreCase name key then [(name, value)] else []) = _
  cases eqIgnoreCase name key with
  | true => rfl
  | false => rfl

/-- The coding is added after the fields that are copied, so it is announced last. -/
theorem announced_compressedHeader (header : Header) (encoding : CompressEncoding)
    (body : ByteString) :
    announced (compressedHeader header encoding body) = some encoding.str := by
  have hcoding : eqIgnoreCase (ascii "Content-Encoding") (ascii "Content-Encoding") = true := by
    decide
  have hlength : eqIgnoreCase (ascii "Content-Length") (ascii "Content-Encoding") = false := by
    decide
  have hvary : eqIgnoreCase (ascii "Vary") (ascii "Content-Encoding") = false := by decide
  rw [announced, compressedHeader, customValues_addCustom (by decide),
    customValues_addCustom (by decide), customValues_addCustom (by decide), hcoding, hlength,
    hvary, cond_true, cond_false, cond_false, List.append_nil, List.append_nil,
    List.getLast?_concat]

/-- A list in which a coding is mentioned has a text. -/
theorem MentionsCoding.acceptText_ne {elements : List AcceptElement} {encoding : CompressEncoding}
    (h : MentionsCoding elements encoding) : (acceptText elements).length ≠ 0 := by
  intro hlength
  have hcontains := (mentionsCoding_iff elements encoding).mpr h
  rw [List.length_eq_zero_iff.mp hlength, containsStr_nil encoding.unframed_str.1,
    containsStr_nil unframed_star.1] at hcontains
  cases hcontains

theorem CompressEncoding.str_inj {encoding encoding' : CompressEncoding}
    (h : encoding.str = encoding'.str) : encoding = encoding' := by
  cases encoding with
  | gzip =>
      cases encoding' with
      | gzip => rfl
      | deflate => exact absurd h (by decide)
  | deflate =>
      cases encoding' with
      | gzip => exact absurd h (by decide)
      | deflate => rfl

section Runs

variable {compressBody : ByteString → CompressEncoding → Int → Option ByteString}
  {opts : CompressOptions} {c : Context} {next : Context → HttpResponse × Context}
  {elements : List AcceptElement}

/-- **WHEN A CODING IS APPLIED**, where the request has the field. -/
theorem compress_applied {encoding : CompressEncoding} {body : ByteString}
    (hread : (next c).2.req.header.getCustom (ascii "Accept-Encoding")
      = some (acceptText elements))
    (hresponse : Transformable opts (next c).1) (hpicks : Picks elements opts.encoding encoding)
    (hbody : compressBody (next c).1.body encoding opts.level = some body)
    (hshort : body.length < (next c).1.body.length) :
    (compress compressBody opts c next).1
      = ⟨(next c).1.statusCode, compressedHeader (next c).1.header encoding body, body⟩ := by
  have hselect := (selectEncoding_iff elements opts.encoding encoding).mpr hpicks
  have htext := hpicks.1.acceptText_ne
  rw [compress]
  generalize next c = left at hread hresponse hbody hshort ⊢
  obtain ⟨response, c'⟩ := left
  obtain ⟨hkeep, hthreshold, htype, hplain⟩ := hresponse
  dsimp only at hread hkeep hthreshold htype hplain hbody hshort ⊢
  rw [hread, Option.getD_some, if_neg (ne_true_of_eq_false hkeep),
    if_neg (Int.not_lt.mpr hthreshold), if_neg (ne_false_of_eq_true htype),
    if_neg (ne_true_of_eq_false hplain), if_neg htext, hselect]
  dsimp only
  rw [hbody]
  dsimp only
  rw [if_neg (Nat.not_le_of_lt hshort)]

/-- **NEGOTIATION IS RIGHT EXACTLY WHEN WHAT IS PICKED IS ACCEPTED**: whenever the response
    passes the tests and the picked coding makes the body shorter, the client accepts it. -/
theorem negotiated_iff {decompress : CompressEncoding → ByteString → Option ByteString}
    (hinverse : ∀ body encoding level out, compressBody body encoding level = some out →
      decompress encoding out = some body)
    (hread : (next c).2.req.header.getCustom (ascii "Accept-Encoding")
      = some (acceptText elements)) :
    Negotiated decompress elements (next c).1 (compress compressBody opts c next).1 ↔
      ∀ encoding body, Transformable opts (next c).1 → Picks elements opts.encoding encoding →
        compressBody (next c).1.body encoding opts.level = some body →
        body.length < (next c).1.body.length → Accepts elements encoding.named := by
  constructor
  · intro h encoding body hresponse hpicks hbody hshort
    have happlied := compress_applied hread hresponse hpicks hbody hshort
    rw [Negotiated, happlied] at h
    rcases h with hsame | ⟨named, haccepts, hannounced, -⟩
    · -- the body is shorter than the one it would be
      rw [← hsame] at hshort
      exact absurd hshort (Nat.lt_irrefl _)
    · rw [announced_compressedHeader] at hannounced
      rwa [CompressEncoding.str_inj (Option.some.inj hannounced)]
  · intro h
    rcases compress_cases compressBody opts c next with
      hsame | ⟨encoding, body, hresponse, hselect, hbody, hshort, hresult⟩
    · exact Or.inl (congrArg Prod.fst hsame)
    · rw [hread, Option.getD_some] at hselect
      have hpicks := (selectEncoding_iff elements opts.encoding encoding).mp hselect
      rw [Negotiated, hresult]
      exact Or.inr ⟨encoding, h encoding body hresponse hpicks hbody hshort,
        announced_compressedHeader _ _ _, hinverse _ _ _ _ hbody⟩

end Runs

/-! ## A refused coding -/

/-- A body, and what it is compressed to. -/
def letters : ByteString := List.replicate 64 (byte 'a')

def lettersGzip : ByteString :=
  [31, 139, 8, 0, 0, 0, 0, 0, 0, 255, 75, 76, 164, 12, 0, 0, 85, 101, 180, 137, 64, 0, 0, 0]

def gzipLetters (body : ByteString) (encoding : CompressEncoding) (_level : Int) :
    Option ByteString :=
  if encoding = .gzip ∧ body = letters then some lettersGzip else none

def gunzipLetters (encoding : CompressEncoding) (out : ByteString) : Option ByteString :=
  if encoding = .gzip ∧ out = lettersGzip then some letters else none

theorem gunzip_gzipLetters (body : ByteString) (encoding : CompressEncoding) (level : Int)
    (out : ByteString) (h : gzipLetters body encoding level = some out) :
    gunzipLetters encoding out = some body := by
  rw [gzipLetters] at h
  by_cases hletters : encoding = .gzip ∧ body = letters
  · rw [if_pos hletters] at h
    rw [gunzipLetters, if_pos ⟨hletters.1, (Option.some.inj h).symm⟩, hletters.2]
  · rw [if_neg hletters] at h
    cases h

def lettersPage (c : Context) : HttpResponse × Context := (c.text letters, c)

/-- A request for `/` that says what it accepts. -/
def acceptingContext (elements : List AcceptElement) : Context where
  req := { method := .get, url := ascii "/", data := [],
           header := [(ascii "Accept-Encoding", acceptText elements)] }
  params := .empty
  query := .empty
  url := ascii "/"
  path := ascii "/"
  statusCode := 200
  headers := .empty
  body := []
  store := .empty

theorem acceptingContext_read (elements : List AcceptElement) :
    (lettersPage (acceptingContext elements)).2.req.header.getCustom (ascii "Accept-Encoding")
      = some (acceptText elements) := rfl

theorem lettersPage_transformable (elements : List AcceptElement) :
    Transformable { threshold := 64 } (lettersPage (acceptingContext elements)).1 := by
  show Transformable _ ((acceptingContext []).text letters)
  exact ⟨by decide, Int.le_refl _, by decide, by decide⟩

theorem no_blanks : ∀ b ∈ ([] : ByteString), isBlank b = true := List.forall_mem_nil _

/-- `;q=0` -/
def zeroWeight : Weight where
  before := []
  after := []
  letter := byte 'q'
  whole := false
  fraction := none
  before_blank := no_blanks
  after_blank := no_blanks
  letter_q := Or.inl rfl
  digits := by simp
  at_most_one := by simp

def gzipElement (weight : Option Weight) : AcceptElement where
  before := []
  after := []
  preference := some ⟨ascii "gzip", weight, by decide, by decide⟩
  before_blank := no_blanks
  after_blank := no_blanks

theorem gzipElement_picks (weight : Option Weight) : Picks [gzipElement weight] none .gzip := by
  have hname : containsStr (ascii "gzip") CompressEncoding.gzip.str = true := by decide
  refine ⟨⟨_, List.mem_singleton.mpr rfl, Or.inl hname⟩, Or.inr ⟨rfl, ?_⟩⟩
  intro h
  cases h

/-- `Accept-Encoding: gzip` -/
theorem negotiated_gzip :
    Negotiated gunzipLetters [gzipElement none]
      (lettersPage (acceptingContext [gzipElement none])).1
      (compress gzipLetters { threshold := 64 } (acceptingContext [gzipElement none])
        lettersPage).1 := by
  refine (negotiated_iff gunzip_gzipLetters (acceptingContext_read _)).mpr ?_
  intro encoding body _ _ hbody _
  rw [gzipLetters] at hbody
  by_cases hletters : encoding = .gzip ∧
      (lettersPage (acceptingContext [gzipElement none])).1.body = letters
  · rw [hletters.1]
    exact Or.inl ⟨_, List.mem_singleton.mpr rfl, by decide, by simp [Preference.Positive]⟩
  · rw [if_neg hletters] at hbody
    cases hbody

/-- `Accept-Encoding: gzip;q=0` -/
theorem refused_gzip_applied :
    ¬ ∀ (compressBody : ByteString → CompressEncoding → Int → Option ByteString)
      (decompress : CompressEncoding → ByteString → Option ByteString),
      (∀ body encoding level out, compressBody body encoding level = some out →
        decompress encoding out = some body) →
      ∀ (opts : CompressOptions) (c : Context) (next : Context → HttpResponse × Context)
        (elements : List AcceptElement),
        (next c).2.req.header.getCustom (ascii "Accept-Encoding")
          = some (acceptText elements) →
        Negotiated decompress elements (next c).1 (compress compressBody opts c next).1 := by
  intro h
  have hnegotiated := h gzipLetters gunzipLetters gunzip_gzipLetters { threshold := 64 }
    (acceptingContext [gzipElement (some zeroWeight)]) lettersPage _ (acceptingContext_read _)
  have hbody : gzipLetters letters .gzip 128 = some lettersGzip := if_pos ⟨rfl, rfl⟩
  have hshort : lettersGzip.length < letters.length := by decide
  have happlied := compress_applied (acceptingContext_read [gzipElement (some zeroWeight)])
    (lettersPage_transformable _) (gzipElement_picks _) hbody hshort
  rw [Negotiated, happlied] at hnegotiated
  rcases hnegotiated with hsame | ⟨encoding, haccepts, -, -⟩
  · have hlength := congrArg (fun response => response.body.length) hsame
    exact absurd hlength (by decide)
  · rcases haccepts with ⟨p, hp, -, hpositive⟩ | ⟨-, p, hp, hstar, -⟩
    · rw [List.mem_singleton.mp hp] at hpositive
      rcases hpositive zeroWeight rfl with hwhole | ⟨ds, hds, -⟩
      · cases hwhole
      · cases hds
    · rw [List.mem_singleton.mp hp] at hstar
      exact absurd hstar (by decide)

end VHono
