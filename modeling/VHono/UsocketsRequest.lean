import VHono.Context

/-! # Requests of the uSockets backend

    The backend parses the raw bytes itself, by position: request line, path
    and query cut at the first question mark, version, and the body after the
    first empty line.  Header fields are only read for WebSocket upgrades. -/

namespace VHono

open ByteString HttpGrammar

/-- What `parse_http_request_usockets` returns; an empty method is a bad request. -/
structure UsocketsRequest where
  method   : ByteString
  path     : ByteString
  query    : InsertionMap ByteString ByteString
  body     : ByteString
  isHttp11 : Bool

/-! ## Keep-alive of HTTP/1.0 requests -/

/-- Is the token found at a position of the range? -/
def containsKeepAliveToken (raw : ByteString) (start e : Nat) : Bool :=
  (List.range' start (e + 1 - start)).any (fun i =>
    decide (i + 10 ≤ e) && eqIgnoreCase (slice raw i (i + 10)) (ascii "keep-alive"))

/-- Does a `Connection:` field name start at the position? -/
def connectionAt (raw : ByteString) (i : Nat) : Bool :=
  decide (i + 11 < raw.length) && eqIgnoreCase (slice raw i (i + 11)) (ascii "connection:")

/-- The walk over the header lines, from a position on. -/
def keepAliveFrom (raw : ByteString) : Nat → Nat → Bool
  | 0, _ => false
  | fuel + 1, i =>
    if i + 12 < raw.length then
      let lineEnd := byteAt raw i = 13 ∧ i + 1 < raw.length ∧ byteAt raw (i + 1) = 10
      let i := if lineEnd then i + 2 else i
      if lineEnd ∧ i + 1 < raw.length ∧ byteAt raw i = 13 ∧ byteAt raw (i + 1) = 10 then false
      else if connectionAt raw i then
        let valueStart := spanEnd (· == 32) raw (i + 11) raw.length
        let valueEnd := spanEnd (fun b => b != 13 && b != 10) raw valueStart raw.length
        containsKeepAliveToken raw valueStart valueEnd
      else keepAliveFrom raw fuel (i + 1)
    else false

def hasConnectionKeepAlive (raw : ByteString) (headersStart : Nat) : Bool :=
  keepAliveFrom raw raw.length headersStart

/-! ## The parser -/

/-- The answer to bytes without a request line. -/
def badUsocketsRequest : UsocketsRequest where
  method := []
  path := []
  query := .empty
  body := []
  isHttp11 := true

/-- Path and query between two positions of the request line. -/
def usocketsTarget (raw : ByteString) (pathStart pathEnd : Nat) :
    ByteString × InsertionMap ByteString ByteString :=
  let mark := spanEnd (· != byte '?') raw pathStart pathEnd
  if mark < pathEnd then
    (slice raw pathStart mark, parseQueryStringFast raw (mark + 1) pathEnd)
  else (slice raw pathStart pathEnd, .empty)

/-- Does the request keep the connection as HTTP/1.1 does? -/
def usocketsIsHttp11 (raw : ByteString) (pathEnd lineEnd : Nat) : Bool :=
  let versionStart := spanEnd (· == 32) raw (pathEnd + 1) lineEnd
  let isHttp11 :=
    if versionStart + 7 < lineEnd then decide (byteAt raw (versionStart + 7) ≠ byte '0')
    else true
  if ¬ isHttp11 then hasConnectionKeepAlive raw lineEnd else isHttp11

/-- What follows the first empty line. -/
def usocketsBody (raw : ByteString) (lineEnd : Nat) : ByteString :=
  match indexFrom (crlf ++ crlf) raw lineEnd with
  | some i => raw.drop (i + 4)
  | none => []

def parseHttpRequestUsockets (raw : ByteString) : UsocketsRequest :=
  match indexFrom crlf raw 0 with
  | none => badUsocketsRequest
  | some lineEnd =>
    let methodEnd := spanEnd (· != 32) raw 0 lineEnd
    if methodEnd = 0 ∨ methodEnd ≥ lineEnd then badUsocketsRequest
    else
      let pathStart := spanEnd (· == 32) raw (methodEnd + 1) lineEnd
      let pathEnd := spanEnd (· != 32) raw pathStart lineEnd
      let target := usocketsTarget raw pathStart pathEnd
      { method := slice raw 0 methodEnd
        path := target.1
        query := target.2
        body := usocketsBody raw lineEnd
        isHttp11 := usocketsIsHttp11 raw pathEnd lineEnd }

/-! ## WebSocket upgrades -/

def usocketsUpgradeStep (flags : UpgradeFlags) (line : ByteString) : UpgradeFlags :=
  let lowerLine := toLower line
  if startsWith lowerLine (ascii "upgrade:") then
    if containsStr lowerLine (ascii "websocket") then { flags with hasUpgrade := true } else flags
  else if startsWith lowerLine (ascii "connection:") then
    if containsStr lowerLine (ascii "upgrade") then { flags with hasConnection := true } else flags
  else if startsWith lowerLine (ascii "sec-websocket-key:") then { flags with hasWsKey := true }
  else flags

/-- Every line of the message counts, those of the body too. -/
def isUsocketsWsUpgrade (raw : ByteString) : Bool :=
  ((splitStr raw crlf).foldl usocketsUpgradeStep .none).all

/-- The value of the first line that starts with `name:`, in any case. -/
def usocketsHeader (raw name : ByteString) : Option ByteString :=
  ((splitStr raw crlf).find? (fun line => startsWith (toLower line) (name ++ [byte ':']))).map
    (fun line => trimSpace ((line.dropWhile (· ≠ byte ':')).tail))

def getUsocketsWsKey (raw : ByteString) : ByteString :=
  (usocketsHeader raw (ascii "sec-websocket-key")).getD []

def getUsocketsWsVersion (raw : ByteString) : ByteString :=
  (usocketsHeader raw (ascii "sec-websocket-version")).getD (ascii "13")

/-! ## Contexts -/

def createUsocketsContext (req : UsocketsRequest)
    (params : InsertionMap ByteString ByteString) : Context where
  req := {
    method := parseHttpMethodUsockets req.method
    url := req.path
    data := req.body
    header := [] }
  params := params
  query := req.query
  body := req.body
  url := req.path
  path := req.path
  statusCode := 200
  headers := .empty
  store := .empty

/-- The lines after the request line, up to the first empty one. -/
def headerLines (raw : ByteString) : List ByteString :=
  (((splitStr raw crlf).dropWhile (fun line => ¬ containsStr line (ascii " HTTP/"))).tail).takeWhile
    (· ≠ [])

/-- A header line cut at its first colon, if that is not its first byte. -/
def parseHeaderLine (line : ByteString) : Option (ByteString × ByteString) :=
  match indexOf [byte ':'] line with
  | some i => if i > 0 then some (trimSpace (line.take i), trimSpace (line.drop (i + 1))) else none
  | none => none

def createUsocketsContextWithHeaders (raw : ByteString) (req : UsocketsRequest)
    (params : InsertionMap ByteString ByteString) : Context :=
  let ctx := createUsocketsContext req params
  { ctx with req := { ctx.req with
      header := Header.addAll [] ((headerLines raw).filterMap parseHeaderLine) } }

/-! ## The parser on a well-formed message -/

section WellFormed

variable (r : Request)

theorem lineEnd_render : indexFrom crlf r.render 0 = some r.line.length := by
  rw [indexFrom, List.drop_zero, r.indexOf_crlf_render]
  rfl

/-- The message at the blank after its method. -/
theorem render_eq_method :
    r.render = [] ++ (r.method ++ 32 :: (r.target ++ 32 :: r.version
      ++ (crlf ++ (r.headerBlock ++ (crlf ++ r.body))))) := by
  simp only [Request.render, Request.line, List.append_assoc, List.cons_append,
    List.nil_append]

/-- The message at the blank after its target. -/
theorem render_eq_target :
    r.render = (r.method ++ [32]) ++ (r.target ++ 32 :: (r.version
      ++ (crlf ++ (r.headerBlock ++ (crlf ++ r.body))))) := by
  simp only [Request.render, Request.line, List.append_assoc, List.cons_append,
    List.nil_append]

theorem length_line : r.line.length = r.method.length + 1 + r.target.length + 1 + r.version.length := by
  simp only [Request.line, List.length_append, List.length_cons]
  omega

theorem methodEnd_render :
    spanEnd (· != 32) r.render 0 r.line.length = r.method.length := by
  have hne : ∀ b ∈ r.method, (b != 32) = true :=
    fun b hb => bne_iff_ne.mpr (fun h => r.space_not_mem_method (h ▸ hb))
  have hlt : 0 + r.method.length < r.line.length := by
    rw [length_line]
    omega
  exact (spanEnd_stop (render_eq_method r) rfl hne rfl hlt).trans (Nat.zero_add _)

theorem pathStart_render :
    spanEnd (· == 32) r.render (r.method.length + 1) r.line.length = r.method.length + 1 := by
  obtain ⟨b, rest, htarget⟩ := List.exists_cons_of_ne_nil r.target_ne
  have hb : (b == 32) = false := by
    refine beq_eq_false_iff_ne.mpr (fun h => r.space_not_mem_target ?_)
    rw [htarget, h]
    exact List.mem_cons_self ..
  have hrender := render_eq_target r
  rw [htarget] at hrender
  exact spanEnd_stop (m := []) hrender (by simp) (fun b' hb' => by cases hb') hb (by
    rw [length_line]
    simp only [List.length_nil]
    omega)

theorem pathEnd_render :
    spanEnd (· != 32) r.render (r.method.length + 1) r.line.length
      = r.method.length + 1 + r.target.length := by
  have hne : ∀ b ∈ r.target, (b != 32) = true :=
    fun b hb => bne_iff_ne.mpr (fun h => r.space_not_mem_target (h ▸ hb))
  have hlt : r.method.length + 1 + r.target.length < r.line.length := by
    rw [length_line]
    omega
  exact spanEnd_stop (render_eq_target r) (by simp) hne rfl hlt

theorem method_render : slice r.render 0 r.method.length = r.method :=
  slice_eq (render_eq_method r) rfl (by simp)

theorem target_render :
    slice r.render (r.method.length + 1) (r.method.length + 1 + r.target.length) = r.target :=
  slice_eq (render_eq_target r) (by simp) rfl

/-- The path ends at the target's first question mark. -/
theorem usocketsTarget_path :
    (usocketsTarget r.render (r.method.length + 1)
      (r.method.length + 1 + r.target.length)).1 = r.target.takeWhile (· != byte '?') := by
  rw [usocketsTarget, spanEnd, target_render]
  by_cases hmark : r.method.length + 1 + (r.target.takeWhile (· != byte '?')).length
      < r.method.length + 1 + r.target.length
  · rw [if_pos hmark]
    have hrender : r.render = (r.method ++ [32]) ++ (r.target.takeWhile (· != byte '?')
        ++ (r.target.dropWhile (· != byte '?') ++ 32 :: (r.version
          ++ (crlf ++ (r.headerBlock ++ (crlf ++ r.body)))))) := by
      rw [← List.append_assoc (r.target.takeWhile _), List.takeWhile_append_dropWhile]
      exact render_eq_target r
    exact slice_eq hrender (by simp) rfl
  · rw [if_neg hmark]
    have hpre := List.takeWhile_prefix (· != byte '?') (l := r.target)
    exact (hpre.eq_of_length_le (by omega)).symm

/-- Without a question mark there is no query. -/
theorem usocketsTarget_query (h : byte '?' ∉ r.target) :
    (usocketsTarget r.render (r.method.length + 1)
      (r.method.length + 1 + r.target.length)).2 = .empty := by
  have hall : ∀ b ∈ r.target, (b != byte '?') = true :=
    fun b hb => bne_iff_ne.mpr (fun heq => h (heq ▸ hb))
  have htake := takeWhile_append_all (s := []) hall
  rw [List.append_nil, List.takeWhile_nil, List.append_nil] at htake
  rw [usocketsTarget, spanEnd, target_render, htake, if_neg (Nat.lt_irrefl _)]

theorem usocketsBody_render : usocketsBody r.render r.line.length = r.body := by
  have hfind : indexFrom (crlf ++ crlf) r.render r.line.length
      = some (r.headerBlock.length + r.line.length) := by
    rw [Request.render, indexFrom_append, r.indexOf_blank_line_render]
    rfl
  rw [usocketsBody, hfind]
  have hrender : r.render = (r.line ++ (crlf ++ (r.headerBlock ++ crlf))) ++ r.body := by
    simp only [Request.render, List.append_assoc]
  rw [hrender]
  refine List.drop_left' ?_
  simp only [List.length_append, crlf, List.length_cons, List.length_nil]
  omega

/-- Where the parser cuts a well-formed message. -/
theorem parseHttpRequestUsockets_eq :
    parseHttpRequestUsockets r.render =
      { method := slice r.render 0 r.method.length
        path := (usocketsTarget r.render (r.method.length + 1)
          (r.method.length + 1 + r.target.length)).1
        query := (usocketsTarget r.render (r.method.length + 1)
          (r.method.length + 1 + r.target.length)).2
        body := usocketsBody r.render r.line.length
        isHttp11 := usocketsIsHttp11 r.render (r.method.length + 1 + r.target.length)
          r.line.length } := by
  have hpos : ¬ (r.method.length = 0 ∨ r.method.length ≥ r.line.length) := by
    have hne := List.length_pos_of_ne_nil r.method_ne
    rw [length_line]
    omega
  rw [parseHttpRequestUsockets, lineEnd_render]
  dsimp only
  rw [methodEnd_render, if_neg hpos, pathStart_render, pathEnd_render]

/-- **THE PARSER.**  On a well-formed message it finds the method, the path up to
    the first question mark, and the body. -/
theorem parseHttpRequestUsockets_render :
    (parseHttpRequestUsockets r.render).method = r.method ∧
    (parseHttpRequestUsockets r.render).path = r.target.takeWhile (· != byte '?') ∧
    (parseHttpRequestUsockets r.render).body = r.body ∧
    (byte '?' ∉ r.target → (parseHttpRequestUsockets r.render).query = .empty) := by
  rw [parseHttpRequestUsockets_eq]
  exact ⟨method_render r, usocketsTarget_path r, usocketsBody_render r, usocketsTarget_query r⟩

/-! ## Header fields of a well-formed message -/

/-- A field's line is cut back into its name and value. -/
theorem parseHeaderLine_line (f : Field) : parseHeaderLine f.line = some (f.name, f.value) := by
  obtain ⟨hcolon, htake, hdrop⟩ := f.cut_line
  rw [parseHeaderLine, hcolon]
  dsimp only
  rw [if_pos (List.length_pos_of_ne_nil f.name_ne), htake, hdrop, f.trimSpace_name,
    f.trimSpace_value]

theorem headerLines_render : headerLines r.render = r.fields.map Field.line := by
  have hline : containsStr r.line (ascii " HTTP/") = true := by
    have hsplit : r.line = (r.method ++ 32 :: r.target) ++
        (ascii " HTTP/" ++ (ascii "1." ++ [r.minor])) := by
      simp only [Request.line, Request.version, List.append_assoc, List.cons_append]
      rfl
    rw [hsplit]
    exact containsStr_append _ _ _
  have hne : ∀ l ∈ r.fields.map Field.line, decide (l ≠ []) = true := by
    intro l hl
    obtain ⟨f, -, rfl⟩ := List.mem_map.mp hl
    exact decide_eq_true f.line_ne_nil
  rw [headerLines, r.splitStr_render, List.dropWhile_cons_of_neg (by simp [hline]),
    List.tail_cons, List.takeWhile_append_of_pos hne,
    List.takeWhile_cons_of_neg (by simp), List.append_nil]

/-- The fields as the header table holds them. -/
def fieldPairs (fields : List Field) : List (ByteString × ByteString) :=
  fields.map (fun f => (f.name, f.value))

theorem validName_name (f : Field) : Header.validName f.name = true := by
  rw [Header.validName, Bool.and_eq_true]
  exact ⟨decide_eq_true f.name_ne, List.all_eq_true.mpr f.name_token⟩

theorem addAll_fieldPairs (fields : List Field) :
    Header.addAll [] (fieldPairs fields) = fieldPairs fields := by
  refine Header.addAll_valid _ _ (fun p hp => ?_)
  obtain ⟨f, -, rfl⟩ := List.mem_map.mp hp
  exact validName_name f

theorem headerTable_render :
    Header.addAll [] ((headerLines r.render).filterMap parseHeaderLine) = fieldPairs r.fields := by
  have hpairs : (r.fields.map Field.line).filterMap parseHeaderLine = fieldPairs r.fields := by
    induction r.fields with
    | nil => rfl
    | cons f fs ih =>
        rw [List.map_cons, List.filterMap_cons_some (parseHeaderLine_line f), ih]
        rfl
  rw [headerLines_render, hpairs, addAll_fieldPairs]

end WellFormed

end VHono
