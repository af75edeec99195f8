import VHono.Base64
import VHono.Dispatch
import VHono.FrameTerms
import VHono.ResponseDelivery
import VHono.TextSplits
import VHono.Trimming
import VHono.UpgradeDetection
import VHono.WebSocketSteps

/-! # The opening handshake

    A route of `upgrade_websocket` under the two low-level backends: what the
    backend checks, what the handler checks, and the bytes that are sent.  A
    client reads the switch of protocols exactly where its request asks for it
    well, with the accept key of its own key and the first of its subprotocols
    that the route supports.  Any other answer of the handler is sent as `200`,
    and what `on_open` sends goes nowhere. -/

namespace VHono

open ByteString HttpGrammar

/-! ## The handler -/

/-- `ws_magic_guid` -/
def wsMagicGuid : ByteString := ascii "258EAFA5-E914-47DA-95CA-C5AB0DC85B11"

def computeAcceptKey (sha1 : ByteString → ByteString) (key : ByteString) : ByteString :=
  Base64.encode (sha1 (key ++ wsMagicGuid))

/-- `validate_upgrade_request`: the key, or the error. -/
def validateUpgradeRequest (c : Context) : Except ByteString ByteString :=
  match c.req.header.getCustom (ascii "Upgrade") with
  | none => .error (ascii "Missing Upgrade header")
  | some upgrade =>
    if toLower upgrade ≠ ascii "websocket" then .error (ascii "Invalid Upgrade header")
    else
      match c.req.header.getCustom (ascii "Connection") with
      | none => .error (ascii "Missing Connection header")
      | some connection =>
        if containsStr (toLower connection) (ascii "upgrade") = false then
          .error (ascii "Invalid Connection header")
        else
          match c.req.header.getCustom (ascii "Sec-WebSocket-Key") with
          | none => .error (ascii "Missing Sec-WebSocket-Key header")
          | some wsKey =>
            if wsKey.length = 0 then .error (ascii "Empty Sec-WebSocket-Key header")
            else if (c.req.header.getCustom (ascii "Sec-WebSocket-Version")).getD (ascii "13")
                ≠ ascii "13" then .error (ascii "Unsupported WebSocket version")
            else .ok wsKey

/-- The fields of the switch, in the order in which all three places write them. -/
def handshakePairs (acceptKey protocol : ByteString) : List (ByteString × ByteString) :=
  [(ascii "Upgrade", ascii "websocket"), (ascii "Connection", ascii "Upgrade"),
    (ascii "Sec-WebSocket-Accept", acceptKey)]
    ++ if protocol.length > 0 then [(ascii "Sec-WebSocket-Protocol", protocol)] else []

def createHandshakeResponse (sha1 : ByteString → ByteString) (key protocol : ByteString) :
    HttpResponse where
  statusCode := 101
  header := Header.addAll [] (handshakePairs (computeAcceptKey sha1 key) protocol)
  body := []

/-- What a client asks for, in its order. -/
def requestedProtocols (clientProtocols : ByteString) : List ByteString :=
  (splitStr clientProtocols (ascii ",")).map trimSpace

def negotiateSubprotocol (c : Context) (supported : List ByteString) : ByteString :=
  if supported.length = 0 then []
  else
    let clientProtocols := (c.req.header.getCustom (ascii "Sec-WebSocket-Protocol")).getD []
    if clientProtocols.length = 0 then []
    else ((requestedProtocols clientProtocols).find? (fun p => decide (p ∈ supported))).getD []

structure WebSocketOptions where
  pingInterval   : Int := 30000
  maxMessageSize : Int := 1048576
  timeout        : Int := 60000
  protocols      : List ByteString := []

/-- The answer of the handler, and the connection after `on_open`, if it came to that. -/
structure Upgraded where
  response : HttpResponse
  context  : Context
  opened   : Option WSContext

/-- The context that `on_open` gets: open already, and without a socket. -/
def openingContext : WSContext := { createWsContext false false with readyState := .open }

/-- The answer to a request that is no upgrade. -/
def badUpgrade (err : ByteString) : HttpResponse where
  statusCode := 400
  header := Header.addAll [] [(ascii "Content-Type", ascii "text/plain")]
  body := ascii "Bad Request: " ++ err

/-- The handler that `upgrade_websocket` returns; of the events it runs `on_open` alone. -/
def upgradeWebsocket (sha1 : ByteString → ByteString) (factory : Context → Option Callback)
    (opts : WebSocketOptions) (c : Context) : Upgraded :=
  match validateUpgradeRequest c with
  | .error err => { response := badUpgrade err, context := c, opened := none }
  | .ok wsKey =>
    let protocol := negotiateSubprotocol c opts.protocols
    let events := factory c
    let response := createHandshakeResponse sha1 wsKey protocol
    let store := c.store.insert (ascii "_ws_upgrade") (ascii "true")
    let store := store.insert (ascii "_ws_key") wsKey
    let store := store.insert (ascii "_ws_protocol") protocol
    let store := store.insert (ascii "_ws_ping_interval") (intStr opts.pingInterval)
    let store := store.insert (ascii "_ws_max_message_size") (intStr opts.maxMessageSize)
    let store := store.insert (ascii "_ws_timeout") (intStr opts.timeout)
    { response := response
      context := { c with store := store }
      opened := some (match events with
        | some onOpen => onOpen openingContext
        | none => openingContext) }

/-! ## The backends -/

/-- A handler as the backends call it. -/
abbrev RouteHandler := Context → HttpResponse × Context

/-- The answer and the context that the backend goes on with. -/
def upgradeHandler (sha1 : ByteString → ByteString) (factory : Context → Option Callback)
    (opts : WebSocketOptions) : RouteHandler := fun c =>
  let upgraded := upgradeWebsocket sha1 factory opts c
  (upgraded.response, upgraded.context)

/-- `selected_protocol` -/
def selectedProtocol (c : Context) : ByteString := (c.store.get? (ascii "_ws_protocol")).getD []

/-- What is sent, and whether the connection has switched. -/
def handlePicoevWsUpgrade (sha1 : ByteString → ByteString) (req : PicoRequest)
    (handler : RouteHandler) (honoCtx : Context) (config : PicoevConfig) :
    Option ByteString × Bool :=
  let wsKey := getPicoevWsKey req
  if getPicoevWsVersion req ≠ ascii "13" then
    let out := ascii "HTTP/1.1 426 Upgrade Required\r\n"
    let out := resHeader out (ascii "Sec-WebSocket-Version") (ascii "13")
    let out := resHeader out (ascii "Content-Type") (ascii "text/plain")
    (some (resBody out (ascii "Unsupported WebSocket version")), false)
  else if wsKey.length = 0 then
    let out := ascii "HTTP/1.1 400 Bad Request\r\n"
    let out := resHeader out (ascii "Content-Type") (ascii "text/plain")
    (some (resBody out (ascii "Missing Sec-WebSocket-Key header")), false)
  else
    let acceptKey := computeAcceptKey sha1 wsKey
    let (response, ctx) := handler honoCtx
    if response.statusCode ≠ 101 then (sendPicoevResponse ctx response false config, false)
    else
      let out := ascii "HTTP/1.1 101 Switching Protocols\r\n"
      let out := resHeader out (ascii "Upgrade") (ascii "websocket")
      let out := resHeader out (ascii "Connection") (ascii "Upgrade")
      let out := resHeader out (ascii "Sec-WebSocket-Accept") acceptKey
      let out :=
        if (selectedProtocol ctx).length > 0 then
          resHeader out (ascii "Sec-WebSocket-Protocol") (selectedProtocol ctx)
        else out
      (some (resBody out []), true)

/-- The lengths of the two refusals are those of the source. -/
def handleUsocketsWsUpgrade (sha1 : ByteString → ByteString) (raw : ByteString)
    (handler : RouteHandler) (honoCtx : Context) : Option ByteString × Bool :=
  let wsKey := getUsocketsWsKey raw
  if getUsocketsWsVersion raw ≠ ascii "13" then
    (some (ascii "HTTP/1.1 426 Upgrade Required\r\n" ++ ascii "Sec-WebSocket-Version: 13\r\n"
      ++ ascii "Content-Type: text/plain\r\nContent-Length: 28\r\n\r\n"
      ++ ascii "Unsupported WebSocket version"), false)
  else if wsKey.length = 0 then
    (some (ascii "HTTP/1.1 400 Bad Request\r\n"
      ++ ascii "Content-Type: text/plain\r\nContent-Length: 30\r\n\r\n"
      ++ ascii "Missing Sec-WebSocket-Key header"), false)
  else
    let acceptKey := computeAcceptKey sha1 wsKey
    let (response, ctx) := handler honoCtx
    if response.statusCode ≠ 101 then (sendUsocketsResponse ctx response true, false)
    else
      let out := ascii "HTTP/1.1 101 Switching Protocols\r\n"
      let out := resHeader out (ascii "Upgrade") (ascii "websocket")
      let out := resHeader out (ascii "Connection") (ascii "Upgrade")
      let out := resHeader out (ascii "Sec-WebSocket-Accept") acceptKey
      let out :=
        if (selectedProtocol ctx).length > 0 then
          resHeader out (ascii "Sec-WebSocket-Protocol") (selectedProtocol ctx)
        else out
      (some (out ++ crlf), true)

/-- A low-level backend with what it is configured to. -/
inductive LowLevel
  | picoev (config : PicoevConfig)
  | usockets

/-- The context that the handler of a matched route gets. -/
def LowLevel.context (backend : LowLevel) (r : Request)
    (params : InsertionMap ByteString ByteString) : Context :=
  match backend with
  | picoev _ => picoevHandlerContext r params
  | usockets => usocketsHandlerContext r.render params true

/-- What is sent to a request that matched a route. -/
def LowLevel.answer (backend : LowLevel) (sha1 : ByteString → ByteString)
    (middlewares : List (RouteHandler → RouteHandler)) (handler : RouteHandler) (r : Request)
    (params : InsertionMap ByteString ByteString) : Option ByteString :=
  let ctx := backend.context r params
  match backend with
  | picoev config =>
    let req := picoRequest r
    if isPicoevWsUpgrade req then (handlePicoevWsUpgrade sha1 req handler ctx config).1
    else
      let (response, ctx) := execMiddlewares (fun mw => mw) 0 middlewares handler ctx
      sendPicoevResponse ctx response (checkKeepaliveRequest req) config
  | usockets =>
    let raw := r.render
    if isUsocketsWsUpgrade raw then (handleUsocketsWsUpgrade sha1 raw handler ctx).1
    else
      let (response, ctx) := execMiddlewares (fun mw => mw) 0 middlewares handler ctx
      sendUsocketsResponse ctx response (parseHttpRequestUsockets raw).isHttp11

/-! ## What the handler checks -/

/-- Of each field of the upgrade the first one says what it should. -/
structure AsksWell (r : Request) (key : ByteString) : Prop where
  upgrade    : ∃ v, sentValue r (ascii "upgrade") = some v ∧ toLower v = ascii "websocket"
  connection : ∃ v, sentValue r (ascii "connection") = some v ∧
    containsIgnoreCase v (ascii "upgrade") = true
  sent       : sentValue r (ascii "sec-websocket-key") = some key
  nonempty   : key ≠ []
  version    : (sentValue r (ascii "sec-websocket-version")).getD (ascii "13") = ascii "13"

theorem validateUpgradeRequest_iff (c : Context) (key : ByteString) :
    validateUpgradeRequest c = .ok key ↔
      (∃ v, c.req.header.getCustom (ascii "Upgrade") = some v ∧ toLower v = ascii "websocket") ∧
      (∃ v, c.req.header.getCustom (ascii "Connection") = some v ∧
        containsStr (toLower v) (ascii "upgrade") = true) ∧
      c.req.header.getCustom (ascii "Sec-WebSocket-Key") = some key ∧ key ≠ [] ∧
      (c.req.header.getCustom (ascii "Sec-WebSocket-Version")).getD (ascii "13") = ascii "13" := by
  constructor
  · intro h
    rw [validateUpgradeRequest] at h
    cases hupgrade : c.req.header.getCustom (ascii "Upgrade") with
    | none =>
        rw [hupgrade] at h
        cases h
    | some upgrade =>
        cases hconnection : c.req.header.getCustom (ascii "Connection") with
        | none =>
            rw [hupgrade, hconnection] at h
            dsimp only at h
            split_ifs at h
        | some connection =>
            cases hkey : c.req.header.getCustom (ascii "Sec-WebSocket-Key") with
            | none =>
                rw [hupgrade, hconnection, hkey] at h
                dsimp only at h
                split_ifs at h
            | some wsKey =>
                rw [hupgrade, hconnection, hkey] at h
                dsimp only at h
                split_ifs at h with hws hup hempty hversion
                obtain rfl := Except.ok.inj h
                exact ⟨⟨upgrade, rfl, not_not.mp hws⟩,
                  ⟨connection, rfl, (Bool.not_eq_false _).mp hup⟩, rfl,
                  fun hnil => hempty (hnil ▸ rfl), not_not.mp hversion⟩
  · rintro ⟨⟨upgrade, hupgrade, hws⟩, ⟨connection, hconnection, hup⟩, hkey, hne, hversion⟩
    rw [validateUpgradeRequest, hupgrade, hconnection, hkey, hversion]
    dsimp only
    rw [if_neg (not_not_intro hws), if_neg (by rw [hup]; decide),
      if_neg (List.length_eq_zero_iff.not.mpr hne), if_neg (not_not_intro rfl)]

/-- The value under a name is that of the first field with it. -/
theorem getCustom_fieldPairs (r : Request) (name : ByteString) :
    Header.getCustom (fieldPairs r.fields) name = sentValue r (toLower name) := by
  have htest : (fun h : ByteString × ByteString => HttpGrammar.named h name) ∘
      (fun f : Field => (f.name, f.value)) = fun f => decide (toLower f.name = toLower name) := by
    funext f
    show (toLower f.name == toLower name) = _
    rw [beq_eq_decide]
  rw [Header.getCustom, fieldPairs, List.find?_map, Option.map_map, sentValue, htest]
  rfl

/-- With the fields of the request the handler finds a key exactly if the request asks well. -/
theorem validate_iff {r : Request} {c : Context} (h : c.req.header = fieldPairs r.fields)
    (key : ByteString) : validateUpgradeRequest c = .ok key ↔ AsksWell r key := by
  have hupgrade : toLower (ascii "Upgrade") = ascii "upgrade" := by decide
  have hconnection : toLower (ascii "Connection") = ascii "connection" := by decide
  have hkey : toLower (ascii "Sec-WebSocket-Key") = ascii "sec-websocket-key" := by decide
  have hversion : toLower (ascii "Sec-WebSocket-Version") = ascii "sec-websocket-version" := by
    decide
  rw [validateUpgradeRequest_iff, h]
  simp only [getCustom_fieldPairs, hupgrade, hconnection, hkey, hversion]
  exact ⟨fun ⟨hu, hc, hk, hne, hv⟩ => ⟨hu, hc, hk, hne, hv⟩,
    fun ⟨hu, hc, hk, hne, hv⟩ => ⟨hu, hc, hk, hne, hv⟩⟩

theorem field_of_sentValue {r : Request} {name v : ByteString} (h : sentValue r name = some v) :
    ∃ f ∈ r.fields, toLower f.name = name ∧ f.value = v := by
  obtain ⟨f, hf, hv⟩ := Option.map_eq_some_iff.mp h
  have hname := List.find?_some hf
  exact ⟨f, List.mem_of_find?_eq_some hf, of_decide_eq_true hname, hv⟩

/-- Every part of the upgrade is then held by some field. -/
theorem AsksWell.heldExactly {r : Request} {key : ByteString} (h : AsksWell r key) :
    HeldExactly r := by
  obtain ⟨⟨u, hu, hws⟩, ⟨v, hv, hup⟩, hkey, hne, -⟩ := h
  obtain ⟨f, hf, hfname, rfl⟩ := field_of_sentValue hu
  obtain ⟨g, hg, hgname, rfl⟩ := field_of_sentValue hv
  obtain ⟨k, hk, hkname, rfl⟩ := field_of_sentValue hkey
  refine ⟨⟨f, hf, ?_⟩, ⟨g, hg, ?_⟩, ⟨k, hk, ?_⟩⟩
  · rw [exactUpgrade, decide_eq_true hfname, decide_eq_true hws]
    rfl
  · rw [connectionField, isConnectionField, decide_eq_true hgname, hup]
    rfl
  · rw [exactKey, isKeyField, decide_eq_true hkname, decide_eq_true hne]
    rfl

/-! ## The subprotocol -/

/-- The protocol is the first of the requested ones that is supported, or there is none. -/
def AgreedOn (r : Request) (supported : List ByteString) (protocol : ByteString) : Prop :=
  let requested := requestedProtocols
    ((sentValue r (ascii "sec-websocket-protocol")).getD [])
  (∃ before after, requested = before ++ protocol :: after ∧ protocol ∈ supported ∧
    ∀ p ∈ before, p ∉ supported) ∨ (protocol = [] ∧ ∀ p ∈ requested, p ∉ supported)

theorem negotiate_agreed {r : Request} {c : Context} (h : c.req.header = fieldPairs r.fields)
    (supported : List ByteString) : AgreedOn r supported (negotiateSubprotocol c supported) := by
  have hname : toLower (ascii "Sec-WebSocket-Protocol") = ascii "sec-websocket-protocol" := by
    decide
  rw [negotiateSubprotocol, h, getCustom_fieldPairs, hname, AgreedOn]
  generalize (sentValue r (ascii "sec-websocket-protocol")).getD [] = clientProtocols
  dsimp only
  split_ifs with hnone hempty
  · rw [List.length_eq_zero_iff.mp hnone]
    exact .inr ⟨rfl, fun p _ => List.not_mem_nil⟩
  · have hrequested : requestedProtocols [] = [[]] := rfl
    rw [List.length_eq_zero_iff.mp hempty, hrequested]
    by_cases hmem : [] ∈ supported
    · exact .inl ⟨[], [], rfl, hmem, List.forall_mem_nil _⟩
    · exact .inr ⟨rfl, fun p hp => List.mem_singleton.mp hp ▸ hmem⟩
  · cases hfind : (requestedProtocols clientProtocols).find? (fun p => decide (p ∈ supported)) with
    | none =>
        rw [List.find?_eq_none] at hfind
        exact .inr ⟨rfl, fun p hp hmem => hfind p hp (decide_eq_true hmem)⟩
    | some protocol =>
        obtain ⟨hmem, before, after, hsplit, hbefore⟩ := List.find?_eq_some_iff_append.mp hfind
        refine .inl ⟨before, after, hsplit, of_decide_eq_true hmem, fun p hp hsupported => ?_⟩
        have hnot := hbefore p hp
        rw [decide_eq_true hsupported] at hnot
        cases hnot

/-- It is a piece of a field's value, without blanks at its ends. -/
theorem AgreedOn.text {r : Request} {supported : List ByteString} {protocol : ByteString}
    (h : AgreedOn r supported protocol) :
    (∀ b ∈ protocol, isFieldByte b = true) ∧ trimSpace protocol = protocol := by
  rcases h with ⟨before, after, hsplit, -⟩ | ⟨rfl, -⟩
  · have hmem : protocol ∈ requestedProtocols
        ((sentValue r (ascii "sec-websocket-protocol")).getD []) := by
      rw [hsplit]
      exact List.mem_append_right _ (List.mem_cons_self ..)
    obtain ⟨piece, hpiece, rfl⟩ := List.mem_map.mp hmem
    obtain ⟨-, -, -, -, -, hhead, hlast⟩ := exists_padded piece
    refine ⟨fun b hb => ?_, trimSpace_eq_self_iff.mpr ⟨hhead, hlast⟩⟩
    have hvalue := (splitStr_piece_within (by decide) hpiece).subset
      ((trimSpace_part piece).subset hb)
    cases hsent : sentValue r (ascii "sec-websocket-protocol") with
    | none =>
        rw [hsent] at hvalue
        cases hvalue
    | some v =>
        rw [hsent] at hvalue
        obtain ⟨f, -, -, rfl⟩ := field_of_sentValue hsent
        exact f.value_bytes b hvalue
  · exact ⟨List.forall_mem_nil _, rfl⟩

/-! ## The switch of protocols -/

/-- The characters of an accept key. -/
theorem computeAcceptKey_bytes (sha1 : ByteString → ByteString) (key : ByteString) {b : UInt8}
    (h : b ∈ computeAcceptKey sha1 key) : isFieldByte b = true ∧ isBlank b = false := by
  have hdigit : ∀ n < 64,
      isFieldByte (Base64.digit n) = true ∧ isBlank (Base64.digit n) = false := by
    decide
  rw [computeAcceptKey, Base64.encode] at h
  rcases List.mem_append.mp h with h | h
  · obtain ⟨n, hn, rfl⟩ := Base64.mem_digits h
    exact hdigit n hn
  · rw [(List.mem_replicate.mp h).2]
    decide

theorem trimSpace_computeAcceptKey (sha1 : ByteString → ByteString) (key : ByteString) :
    trimSpace (computeAcceptKey sha1 key) = computeAcceptKey sha1 key := by
  have hspace : ∀ b ∈ computeAcceptKey sha1 key, isSpace b = false := fun b hb =>
    isSpace_field (computeAcceptKey_bytes sha1 key hb).1 (computeAcceptKey_bytes sha1 key hb).2
  exact trimSpace_eq_self_iff.mpr ⟨fun b hb => hspace b (List.mem_of_mem_head? hb),
    fun b hb => hspace b (List.mem_of_mem_getLast? hb)⟩

/-- A client reads the switch, with these fields and no others but a length. -/
def Switches (toHead : Bool) (bytes acceptKey protocol : ByteString) : Prop :=
  ∃ p : HttpGrammar.Response toHead, p.render = bytes ∧ p.status = 101 ∧
    (p.fields.map Field.pair).filter (fun q => !isContentLength q)
      = handshakePairs acceptKey protocol

/-- Both backends write the fields one after another. -/
theorem resHeader_handshake (out acceptKey protocol : ByteString) :
    (if protocol.length > 0 then
      resHeader (resHeader (resHeader (resHeader out (ascii "Upgrade") (ascii "websocket"))
        (ascii "Connection") (ascii "Upgrade")) (ascii "Sec-WebSocket-Accept") acceptKey)
        (ascii "Sec-WebSocket-Protocol") protocol
    else
      resHeader (resHeader (resHeader out (ascii "Upgrade") (ascii "websocket"))
        (ascii "Connection") (ascii "Upgrade")) (ascii "Sec-WebSocket-Accept") acceptKey)
      = out ++ pairText (handshakePairs acceptKey protocol) := by
  simp only [resHeader_eq, handshakePairs, List.append_assoc, ← pairText_append]
  split
  · rfl
  · rfl

theorem handshakePairs_valid {acceptKey protocol : ByteString}
    (hkey : ∀ b ∈ acceptKey, isFieldByte b = true)
    (hprotocol : ∀ b ∈ protocol, isFieldByte b = true)
    {q : ByteString × ByteString} (hq : q ∈ handshakePairs acceptKey protocol) :
    ValidPair q ∧ isContentLength q = false := by
  rcases List.mem_append.mp hq with hq | hq
  · simp only [List.mem_cons, List.not_mem_nil, or_false] at hq
    rcases hq with rfl | rfl | rfl
    · exact ⟨validPair_of_texts (by decide) (by decide), by decide⟩
    · exact ⟨validPair_of_texts (by decide) (by decide), by decide⟩
    · exact ⟨validPair_of_value (by decide) hkey, rfl⟩
  · split at hq
    · rw [List.mem_singleton.mp hq]
      exact ⟨validPair_of_value (by decide) hprotocol, rfl⟩
    · cases hq

theorem handshakePairs_trimmed {acceptKey protocol : ByteString}
    (hkey : trimSpace acceptKey = acceptKey) (hprotocol : trimSpace protocol = protocol) :
    (handshakePairs acceptKey protocol).map trimmed = handshakePairs acceptKey protocol := by
  have hwebsocket : trimmed (ascii "Upgrade", ascii "websocket")
      = (ascii "Upgrade", ascii "websocket") := by decide
  have hupgrade : trimmed (ascii "Connection", ascii "Upgrade")
      = (ascii "Connection", ascii "Upgrade") := by decide
  rw [handshakePairs, List.map_append]
  congr 1
  · rw [List.map_cons, List.map_cons, List.map_singleton, hwebsocket, hupgrade, trimmed, hkey]
  · split
    · rw [List.map_singleton, trimmed, hprotocol]
    · rfl

/-- Printed with nothing else but lengths, they are read as the switch. -/
theorem switches_printed (toHead : Bool) {acceptKey protocol : ByteString}
    (hkey : (∀ b ∈ acceptKey, isFieldByte b = true) ∧ trimSpace acceptKey = acceptKey)
    (hprotocol : (∀ b ∈ protocol, isFieldByte b = true) ∧ trimSpace protocol = protocol)
    {lengths : List (ByteString × ByteString)}
    (hlengths : ∀ q ∈ lengths, ValidPair q ∧ isContentLength q = true) :
    Switches toHead (printed 101 (ascii "Switching Protocols")
      (handshakePairs acceptKey protocol ++ lengths) []) acceptKey protocol := by
  have hvalid : ∀ q ∈ handshakePairs acceptKey protocol ++ lengths, ValidPair q := by
    intro q hq
    rcases List.mem_append.mp hq with hq | hq
    · exact (handshakePairs_valid hkey.1 hprotocol.1 hq).1
    · exact (hlengths q hq).1
  have hreason : ∀ b ∈ ascii "Switching Protocols", isFieldByte b = true :=
    List.all_eq_true.mp (by decide)
  have hnone : headerText [] = pairText [] := rfl
  have hframed : Framed toHead 101
      (([] : List Field).map Field.pair
        ++ (handshakePairs acceptKey protocol ++ lengths).map trimmed) [] := by
    rw [Framed, if_pos (by rw [bodyless, Bool.or_assoc, Bool.or_assoc]; exact Bool.or_true _)]
  obtain ⟨p, hrender, hstatus, hpairs, -⟩ :=
    exists_response hreason hvalid (by decide) hnone hframed
  refine ⟨p, hrender, hstatus, ?_⟩
  rw [hpairs, List.map_append, handshakePairs_trimmed hkey.2 hprotocol.2, List.map_nil,
    List.nil_append, List.filter_append]
  have hkept : (handshakePairs acceptKey protocol).filter (fun q => !isContentLength q)
      = handshakePairs acceptKey protocol := by
    rw [List.filter_eq_self]
    intro q hq
    rw [(handshakePairs_valid hkey.1 hprotocol.1 hq).2]
    rfl
  have hdropped : (lengths.map trimmed).filter (fun q => !isContentLength q) = [] := by
    rw [List.filter_eq_nil_iff]
    intro q hq
    obtain ⟨l, hl, rfl⟩ := List.mem_map.mp hq
    have hlength : isContentLength (trimmed l) = true := (hlengths l hl).2
    rw [hlength]
    decide
  rw [hkept, hdropped, List.append_nil]

/-! ## What is sent -/

namespace LowLevel

/-- The backend reads no other version than the fields say. -/
def Settled (backend : LowLevel) (r : Request) : Prop :=
  match backend with
  | picoev _ => True
  | usockets => VersionSettled r

def incoming (backend : LowLevel) (r : Request) : Hono.Incoming :=
  match backend with
  | picoev _ => Hono.picoevIncoming (picoRequest r)
  | usockets => Hono.usocketsIncoming r.render

/-- It takes the request for an upgrade, and refuses it before the handler. -/
def Rejects (backend : LowLevel) (r : Request) : Prop :=
  (backend.incoming r).upgrade = true ∧
    ((backend.incoming r).version ≠ ascii "13" ∨ (backend.incoming r).key = [])

/-- What stands beside the fields of the switch. -/
def lengths (backend : LowLevel) : List (ByteString × ByteString) :=
  match backend with
  | picoev _ => [lengthPair ⟨101, [], []⟩]
  | usockets => []

theorem lengths_valid (backend : LowLevel) {q : ByteString × ByteString}
    (hq : q ∈ backend.lengths) : ValidPair q ∧ isContentLength q = true := by
  cases backend with
  | picoev config =>
      rw [List.mem_singleton.mp hq]
      exact ⟨validPair_of_texts (by decide) (by decide), by decide⟩
  | usockets => cases hq

/-- The upgrade branch, once it is taken. -/
def upgrade (backend : LowLevel) (sha1 : ByteString → ByteString) (handler : RouteHandler)
    (r : Request) (ctx : Context) : Option ByteString :=
  match backend with
  | picoev config => (handlePicoevWsUpgrade sha1 (picoRequest r) handler ctx config).1
  | usockets => (handleUsocketsWsUpgrade sha1 r.render handler ctx).1

/-- The sender that the handler's own answer goes through. -/
def sender (backend : LowLevel) (r : Request) : Sender :=
  let upgrade := (backend.incoming r).upgrade
  match backend with
  | picoev config =>
    .picoev (if upgrade then false else checkKeepaliveRequest (picoRequest r)) config
  | usockets => .usockets (if upgrade then true else (parseHttpRequestUsockets r.render).isHttp11)

variable (backend : LowLevel) (sha1 : ByteString → ByteString) {r : Request}
  {params : InsertionMap ByteString ByteString} {handler : RouteHandler} {ctx : Context}

theorem answer_upgrade (h : (backend.incoming r).upgrade = true)
    (middlewares : List (RouteHandler → RouteHandler)) :
    backend.answer sha1 middlewares handler r params
      = backend.upgrade sha1 handler r (backend.context r params) := by
  cases backend with
  | picoev config => exact if_pos h
  | usockets => exact if_pos h

theorem answer_plain (h : ¬ (backend.incoming r).upgrade = true) :
    backend.answer sha1 [] handler r params
      = (backend.sender r).send (handler (backend.context r params)).2
          (handler (backend.context r params)).1 := by
  have honion : execMiddlewares (fun mw => mw) 0 [] handler = handler := by
    rw [execMiddlewares_eq_foldr _ _ _ _ _ rfl]
    rfl
  cases backend with
  | picoev config =>
      have hplain : ¬ isPicoevWsUpgrade (picoRequest r) = true := h
      rw [answer, sender]
      dsimp only
      rw [if_neg h, if_neg hplain, honion]
      rfl
  | usockets =>
      have hplain : ¬ isUsocketsWsUpgrade r.render = true := h
      rw [answer, sender]
      dsimp only
      rw [if_neg h, if_neg hplain, honion]
      rfl

/-- A status line that is no `101`, and what follows its first line end. -/
def Rejection (bytes : ByteString) : Prop :=
  ∃ (code : Int) (reason rest : ByteString), code ≠ 101 ∧ (∀ b ∈ reason, isFieldByte b = true) ∧
    bytes = ascii "HTTP/1.1 " ++ (intStr code ++ 32 :: reason) ++ 13 :: rest

theorem rejection_426 (rest : ByteString) :
    Rejection (ascii "HTTP/1.1 426 Upgrade Required\r\n" ++ rest) := by
  refine ⟨426, ascii "Upgrade Required", 10 :: rest, by decide, List.all_eq_true.mp (by decide), ?_⟩
  have hline : ascii "HTTP/1.1 426 Upgrade Required\r\n"
      = ascii "HTTP/1.1 " ++ (intStr 426 ++ 32 :: ascii "Upgrade Required") ++ [13, 10] := by decide
  rw [hline, List.append_assoc]
  rfl

theorem rejection_400 (rest : ByteString) :
    Rejection (ascii "HTTP/1.1 400 Bad Request\r\n" ++ rest) := by
  refine ⟨400, ascii "Bad Request", 10 :: rest, by decide, List.all_eq_true.mp (by decide), ?_⟩
  have hline : ascii "HTTP/1.1 400 Bad Request\r\n"
      = ascii "HTTP/1.1 " ++ (intStr 400 ++ 32 :: ascii "Bad Request") ++ [13, 10] := by decide
  rw [hline, List.append_assoc]
  rfl

theorem switching_line : ascii "HTTP/1.1 101 Switching Protocols\r\n"
    = ascii "HTTP/1.1 " ++ (intStr 101 ++ 32 :: ascii "Switching Protocols") ++ crlf := by decide

/-- **THE UPGRADE BRANCH.**  Both backends refuse a version and a missing key by themselves, send
    the answer of the handler if it is no switch, and write the switch otherwise. -/
theorem upgrade_cases (handler : RouteHandler) (ctx : Context)
    (hup : (backend.incoming r).upgrade = true) :
    (backend.Rejects r ∧ ∃ bytes, backend.upgrade sha1 handler r ctx = some bytes ∧
        Rejection bytes) ∨
      (¬ backend.Rejects r ∧ (handler ctx).1.statusCode ≠ 101 ∧
        backend.upgrade sha1 handler r ctx
          = (backend.sender r).send (handler ctx).2 (handler ctx).1) ∨
      (¬ backend.Rejects r ∧ (handler ctx).1.statusCode = 101 ∧
        backend.upgrade sha1 handler r ctx = some (printed 101 (ascii "Switching Protocols")
          (handshakePairs (computeAcceptKey sha1 (backend.incoming r).key)
            (selectedProtocol (handler ctx).2) ++ backend.lengths) [])) := by
  obtain ⟨response, ctx', hhandler⟩ : ∃ response ctx', handler ctx = (response, ctx') :=
    ⟨_, _, rfl⟩
  rw [hhandler]
  cases backend with
  | picoev config =>
      by_cases hversion : getPicoevWsVersion (picoRequest r) = ascii "13"
      · by_cases hkey : getPicoevWsKey (picoRequest r) = []
        · refine .inl ⟨⟨hup, .inr hkey⟩, ?_⟩
          rw [upgrade, handlePicoevWsUpgrade, hversion, hkey]
          refine ⟨_, rfl, ?_⟩
          rw [resBody, resHeader, List.append_assoc]
          exact rejection_400 _
        · have hnot : ¬ (picoev config).Rejects r := fun h => h.2.elim (· hversion) hkey
          rw [upgrade, handlePicoevWsUpgrade, hversion, if_neg (not_not_intro rfl),
            if_neg (List.length_eq_zero_iff.not.mpr hkey), hhandler]
          dsimp only
          by_cases hstatus : response.statusCode = 101
          · refine .inr (.inr ⟨hnot, hstatus, ?_⟩)
            rw [if_neg (not_not_intro hstatus), resHeader_handshake,
              show resBody _ [] = _ from resBody_eq _ ⟨101, [], []⟩, switching_line, printed_eq,
              pairText_append]
            simp only [List.append_assoc]
            rfl
          · refine .inr (.inl ⟨hnot, hstatus, ?_⟩)
            rw [if_pos hstatus, sender]
            dsimp only
            rw [if_pos hup]
            rfl
      · refine .inl ⟨⟨hup, .inl hversion⟩, ?_⟩
        rw [upgrade, handlePicoevWsUpgrade, if_pos hversion]
        refine ⟨_, rfl, ?_⟩
        rw [resBody, resHeader, resHeader, List.append_assoc, List.append_assoc]
        exact rejection_426 _
  | usockets =>
      by_cases hversion : getUsocketsWsVersion r.render = ascii "13"
      · by_cases hkey : getUsocketsWsKey r.render = []
        · refine .inl ⟨⟨hup, .inr hkey⟩, ?_⟩
          rw [upgrade, handleUsocketsWsUpgrade, hversion, hkey]
          refine ⟨_, rfl, ?_⟩
          rw [List.append_assoc]
          exact rejection_400 _
        · have hnot : ¬ usockets.Rejects r := fun h => h.2.elim (· hversion) hkey
          rw [upgrade, handleUsocketsWsUpgrade, hversion, if_neg (not_not_intro rfl),
            if_neg (List.length_eq_zero_iff.not.mpr hkey), hhandler]
          dsimp only
          by_cases hstatus : response.statusCode = 101
          · refine .inr (.inr ⟨hnot, hstatus, ?_⟩)
            rw [if_neg (not_not_intro hstatus), resHeader_handshake, switching_line, printed_eq,
              pairText_append]
            simp only [List.append_assoc]
            rfl
          · refine .inr (.inl ⟨hnot, hstatus, ?_⟩)
            rw [if_pos hstatus, sender]
            dsimp only
            rw [if_pos hup]
            rfl
      · refine .inl ⟨⟨hup, .inl hversion⟩, ?_⟩
        rw [upgrade, handleUsocketsWsUpgrade, if_pos hversion]
        refine ⟨_, rfl, ?_⟩
        rw [List.append_assoc, List.append_assoc]
        exact rejection_426 _

end LowLevel

/-! ## The handler's answer -/

section Handler

variable (sha1 : ByteString → ByteString) (factory : Context → Option Callback)
  (opts : WebSocketOptions) {c : Context}

theorem upgradeHandler_ok {key : ByteString} (h : validateUpgradeRequest c = .ok key) :
    (upgradeHandler sha1 factory opts c).1.statusCode = 101 ∧
      selectedProtocol (upgradeHandler sha1 factory opts c).2
        = negotiateSubprotocol c opts.protocols := by
  rw [upgradeHandler, upgradeWebsocket, h]
  refine ⟨rfl, ?_⟩
  rw [selectedProtocol]
  dsimp only
  rw [InsertionMap.get?_insert_ne _ _ (by decide), InsertionMap.get?_insert_ne _ _ (by decide),
    InsertionMap.get?_insert_ne _ _ (by decide), InsertionMap.get?_insert_self, Option.getD_some]

theorem upgradeHandler_error {err : ByteString} (h : validateUpgradeRequest c = .error err) :
    upgradeHandler sha1 factory opts c = (badUpgrade err, c) := by
  rw [upgradeHandler, upgradeWebsocket, h]

end Handler

namespace LowLevel

variable (backend : LowLevel) {r : Request} (params : InsertionMap ByteString ByteString)
  {key : ByteString}

/-- The handler finds a fresh context. -/
theorem context_fresh : (backend.context r params).statusCode = 200 ∧
    (backend.context r params).headers = .empty ∧ (backend.context r params).store = .empty := by
  cases backend with
  | picoev config => exact ⟨rfl, rfl, rfl⟩
  | usockets =>
      rw [context, usocketsHandlerContext]
      split
      · exact ⟨rfl, rfl, rfl⟩
      · exact ⟨rfl, rfl, rfl⟩

/-- In the upgrade branch it has the fields of the request. -/
theorem context_header (h : (backend.incoming r).upgrade = true) :
    (backend.context r params).req.header = fieldPairs r.fields := by
  cases backend with
  | picoev config => exact addAll_fieldPairs r.fields
  | usockets => exact usockets_header_read params ⟨rfl, h⟩

theorem upgrade_of_asksWell (h : AsksWell r key) : (backend.incoming r).upgrade = true := by
  cases backend with
  | picoev config => exact (isPicoevWsUpgrade_iff r).mpr h.heldExactly
  | usockets =>
      exact (isUsocketsWsUpgrade_iff r).mpr (foundLoosely_of_heldExactly r h.heldExactly)

/-- Elsewhere the handler refuses. -/
theorem plain_refused (h : ¬ (backend.incoming r).upgrade = true) :
    ∃ err, validateUpgradeRequest (backend.context r params) = .error err := by
  cases hvalidate : validateUpgradeRequest (backend.context r params) with
  | error err => exact ⟨err, rfl⟩
  | ok key =>
      exfalso
      cases backend with
      | picoev config =>
          have hasks := (validate_iff (addAll_fieldPairs r.fields) key).mp hvalidate
          exact h (upgrade_of_asksWell _ hasks)
      | usockets =>
          have hempty : (usockets.context r params).req.header = [] :=
            usockets_header_unread params (fun hread => h hread.2)
          obtain ⟨⟨v, hv, -⟩, -⟩ := (validateUpgradeRequest_iff _ key).mp hvalidate
          rw [hempty] at hv
          cases hv

/-- The backend reads the version and the key that the handler does. -/
theorem incoming_of_asksWell (h : AsksWell r key) (hsettled : backend.Settled r) :
    (backend.incoming r).version = ascii "13" ∧ (backend.incoming r).key = key := by
  have hversion : getPicoevWsVersion (picoRequest r) = ascii "13" := by
    rw [getPicoevWsVersion, picoevHeader_render r (by decide)]
    exact h.version
  have hkey : getPicoevWsKey (picoRequest r) = key := by
    rw [getPicoevWsKey, picoevHeader_render r (by decide), h.sent]
    rfl
  cases backend with
  | picoev config => exact ⟨hversion, hkey⟩
  | usockets =>
      exact ⟨((getUsocketsWsVersion_render r).mpr hsettled).trans hversion,
        (getUsocketsWsKey_render r h.heldExactly).trans hkey⟩

theorem settled_of_version (h : AsksWell r key)
    (hversion : (backend.incoming r).version = ascii "13") : backend.Settled r := by
  cases backend with
  | picoev config => exact trivial
  | usockets =>
      refine (getUsocketsWsVersion_render r).mp (hversion.trans ?_)
      rw [getPicoevWsVersion, picoevHeader_render r (by decide)]
      exact h.version.symm

variable (sha1 : ByteString → ByteString) (factory : Context → Option Callback)
  (opts : WebSocketOptions)

/-- **THE SWITCH IS SENT** to a request that asks well, whatever middlewares there are. -/
theorem answer_switched (h : AsksWell r key) (hsettled : backend.Settled r)
    (middlewares : List (RouteHandler → RouteHandler)) :
    ∃ protocol, AgreedOn r opts.protocols protocol ∧
      backend.answer sha1 middlewares (upgradeHandler sha1 factory opts) r params
        = some (printed 101 (ascii "Switching Protocols")
          (handshakePairs (computeAcceptKey sha1 key) protocol ++ backend.lengths) []) := by
  have hup := backend.upgrade_of_asksWell h
  have hheader := backend.context_header params hup
  obtain ⟨hversion, hkey⟩ := backend.incoming_of_asksWell h hsettled
  obtain ⟨hstatus, hprotocol⟩ :=
    upgradeHandler_ok sha1 factory opts ((validate_iff hheader key).mpr h)
  have hnot : ¬ backend.Rejects r := fun hreject =>
    hreject.2.elim (· hversion) (fun hnil => h.nonempty (hkey.symm.trans hnil))
  refine ⟨_, negotiate_agreed hheader opts.protocols, ?_⟩
  rw [answer_upgrade backend sha1 hup]
  obtain ⟨hreject, -⟩ | ⟨-, hother, -⟩ | ⟨-, -, hsent⟩ := upgrade_cases backend sha1
    (upgradeHandler sha1 factory opts) (backend.context r params) hup
  · exact absurd hreject hnot
  · exact absurd hstatus hother
  · rw [hsent, hkey, hprotocol]

/-- **EVERYTHING ELSE.**  Where the request does not ask well, or not of this backend, the backend
    rejects it or sends the refusal of the handler. -/
theorem answer_refused (h : ¬ ∃ key, AsksWell r key ∧ backend.Settled r) :
    (backend.Rejects r ∧ ∃ bytes, backend.answer sha1 [] (upgradeHandler sha1 factory opts) r params
        = some bytes ∧ Rejection bytes) ∨
      ¬ backend.Rejects r ∧ ∃ err,
        validateUpgradeRequest (backend.context r params) = .error err ∧
        backend.answer sha1 [] (upgradeHandler sha1 factory opts) r params
          = (backend.sender r).send (backend.context r params) (badUpgrade err) := by
  by_cases hup : (backend.incoming r).upgrade = true
  · rw [answer_upgrade backend sha1 hup]
    obtain hreject | ⟨hnot, hother, hsent⟩ | ⟨hnot, hstatus, -⟩ := upgrade_cases backend sha1
      (upgradeHandler sha1 factory opts) (backend.context r params) hup
    · exact .inl hreject
    · cases hvalidate : validateUpgradeRequest (backend.context r params) with
      | error err =>
          rw [upgradeHandler_error sha1 factory opts hvalidate] at hsent
          exact .inr ⟨hnot, err, rfl, hsent⟩
      | ok key => exact absurd (upgradeHandler_ok sha1 factory opts hvalidate).1 hother
    · cases hvalidate : validateUpgradeRequest (backend.context r params) with
      | error err =>
          rw [upgradeHandler_error sha1 factory opts hvalidate] at hstatus
          exact absurd hstatus (show ¬ (400 : Int) = 101 by decide)
      | ok key =>
          have hasks := (validate_iff (backend.context_header params hup) key).mp hvalidate
          have hversion : (backend.incoming r).version = ascii "13" := by
            by_contra hne
            exact hnot ⟨hup, .inl hne⟩
          exact absurd ⟨key, hasks, backend.settled_of_version hasks hversion⟩ h
  · obtain ⟨err, herr⟩ := backend.plain_refused params hup
    refine .inr ⟨fun hreject => hup hreject.1, err, herr, ?_⟩
    rw [answer_plain backend sha1 hup, upgradeHandler_error sha1 factory opts herr]

end LowLevel

/-! ## What the client reads -/

theorem status_of_bytes {toHead : Bool} {p : HttpGrammar.Response toHead} {code : Int}
    {reason rest : ByteString} (hreason : ∀ b ∈ reason, isFieldByte b = true)
    (h : p.render = ascii "HTTP/1.1 " ++ (intStr code ++ 32 :: reason) ++ 13 :: rest) :
    (p.status : Int) = code :=
  Response.status_of_line (append_sep_inj p.cr_not_mem_line (cr_not_mem_status hreason) h).1

/-- The refusal of the handler is sent under the status of the context. -/
theorem send_badUpgrade (s : Sender) {ctx : Context} (hstatus : ctx.statusCode = 200)
    (hheaders : ctx.headers = .empty) (hstore : ctx.store = .empty) (err : ByteString) :
    s.send ctx (badUpgrade err) = some (printed 200 (ascii "OK")
      ([(ascii "Content-Type", ascii "text/plain")] ++ s.own ctx (badUpgrade err))
      (ascii "Bad Request: " ++ err)) := by
  have hstream : isStreamingResponse ctx = false := by
    rw [isStreamingResponse, hstore]
    rfl
  have hsent : sentStatus ctx (badUpgrade err) = 200 := by
    rw [sentStatus, hstatus]
    rfl
  have hpairs : contextPairs ctx = [] := by
    rw [contextPairs, hheaders]
    rfl
  have hwritten : written ctx (badUpgrade err) = [(ascii "Content-Type", ascii "text/plain")] := by
    have htype : (badUpgrade err).header.getCustom (ascii "Content-Type")
        = some (ascii "text/plain") := rfl
    rw [written, copiedContentType, namesContentType, hpairs, htype]
    rfl
  rw [send_eq hstream, hsent, hwritten]
  rfl

section Client

variable (backend : LowLevel) (sha1 : ByteString → ByteString)
  (factory : Context → Option Callback) (opts : WebSocketOptions) (r : Request)
  (params : InsertionMap ByteString ByteString)

/-- **THE OPENING HANDSHAKE.**  A client reads a `101` exactly if its request asks for it well and
    the backend reads the version there, and then, whatever middlewares there are, with the accept
    key of its key and the first of its subprotocols that the route supports. -/
theorem handshake_iff (toHead : Bool) :
    ((∃ bytes, backend.answer sha1 [] (upgradeHandler sha1 factory opts) r params = some bytes ∧
        ∃ p : HttpGrammar.Response toHead, p.render = bytes ∧ p.status = 101) ↔
      ∃ key, AsksWell r key ∧ backend.Settled r) ∧
    ∀ key, AsksWell r key → backend.Settled r → ∀ middlewares, ∃ bytes protocol,
      backend.answer sha1 middlewares (upgradeHandler sha1 factory opts) r params = some bytes ∧
      AgreedOn r opts.protocols protocol ∧
      Switches toHead bytes (computeAcceptKey sha1 key) protocol := by
  have hswitch : ∀ key, AsksWell r key → backend.Settled r → ∀ middlewares, ∃ bytes protocol,
      backend.answer sha1 middlewares (upgradeHandler sha1 factory opts) r params = some bytes ∧
      AgreedOn r opts.protocols protocol ∧
      Switches toHead bytes (computeAcceptKey sha1 key) protocol := by
    intro key hasks hsettled middlewares
    obtain ⟨protocol, hagreed, hanswer⟩ :=
      backend.answer_switched params sha1 factory opts hasks hsettled middlewares
    exact ⟨_, protocol, hanswer, hagreed, switches_printed toHead
      ⟨fun b hb => (computeAcceptKey_bytes sha1 key hb).1, trimSpace_computeAcceptKey sha1 key⟩
      hagreed.text (fun q hq => backend.lengths_valid hq)⟩
  refine ⟨⟨?_, ?_⟩, hswitch⟩
  · rintro ⟨bytes, hanswer, p, hrender, hstatus⟩
    by_contra hnone
    obtain ⟨-, bytes', hreject, code, reason, rest, hcode, hreason, hbytes⟩ | ⟨-, err, -, hsend⟩ :=
      backend.answer_refused params sha1 factory opts hnone
    · rw [hanswer, Option.some.injEq] at hreject
      rw [hreject, hbytes] at hrender
      have := status_of_bytes hreason hrender
      omega
    · obtain ⟨hcode, hheaders, hstore⟩ := backend.context_fresh (r := r) params
      rw [hanswer, send_badUpgrade _ hcode hheaders hstore, Option.some.injEq] at hsend
      have hreason : ∀ b ∈ ascii "OK", isFieldByte b = true := List.all_eq_true.mp (by decide)
      rw [hsend, printed] at hrender
      have := status_of_bytes hreason hrender
      omega
  · rintro ⟨key, hasks, hsettled⟩
    obtain ⟨bytes, protocol, hanswer, -, p, hrender, hstatus, -⟩ := hswitch key hasks hsettled []
    exact ⟨bytes, hanswer, p, hrender, hstatus⟩

end Client

/-! ## What `on_open` sends -/

section Opening

open WSContext

/-- Nothing at all may be passed on. -/
def silentTerms : Terms where
  close _ _ _ := False
  frame _ _ _ := False

theorem silentTerms_guard : silentTerms.Guard (fun ws => ws.sent = []) where
  steady h := by rw [h]
  close ws code reason := by
    by_cases hset : ws.sendFn = true
    · rw [sent_passFrame _ hset]
      exact iff_of_false (List.append_ne_nil_of_right_ne_nil _ (List.cons_ne_nil _ _))
        (fun h => h.2 hset)
    · rw [passFrame_unset _ hset]
      exact (and_iff_left (fun h => hset h)).symm
  frame ws opcode _ payload hopen := by
    by_cases hset : ws.sendFn = true
    · rw [sent_passFrame _ hset]
      exact iff_of_false (List.append_ne_nil_of_right_ne_nil _ (List.cons_ne_nil _ _))
        (fun h => h.2 hopen hset)
    · rw [passFrame_unset _ hset]
      exact (and_iff_left (fun _ h => hset h)).symm

theorem sendFn_steps {ws ws' : WSContext} (h : Steps ws ws') : ws'.sendFn = ws.sendFn := by
  induction h with
  | refl => rfl
  | tail _ hstep ih =>
      rw [← ih]
      cases hstep <;> rfl

theorem close_unset {ws : WSContext} (h : ws.sendFn = false) (code : Int) (reason : ByteString) :
    silentTerms.Close ws code reason := fun hset => Bool.noConfusion (h.symm.trans hset)

theorem frame_unset {ws : WSContext} (h : ws.sendFn = false) (opcode : UInt8)
    (payload : ByteString) : silentTerms.Frame ws opcode payload :=
  fun _ hset => Bool.noConfusion (h.symm.trans hset)

variable {answers : WSAnswers} {first second : Callback} {firstMeets secondMeets : WSContext → Prop}

/-- Where `send_fn` is nil a method asks nothing that its callbacks do not. -/
theorem meets_unset (hfirst : Calls first) (hsecond : Calls second)
    (hfirstMeets : ∀ ws, ws.sendFn = false → firstMeets ws)
    (hsecondMeets : ∀ ws, ws.sendFn = false → secondMeets ws) (method : WSMethod) {ws : WSContext}
    (h : ws.sendFn = false) :
    method.Meets silentTerms answers first second firstMeets secondMeets ws := by
  have hchange : ∀ (t : WSContext), t.sendFn = false → ∀ newState now,
      t.ChangeMeets newState now firstMeets ∧ t.ChangeMeets newState now secondMeets :=
    fun t ht newState now => ⟨fun _ => hfirstMeets _ ht, fun _ => hsecondMeets _ ht⟩
  have hclosing : (ws.transitionState .closing answers.now first).1.sendFn = false :=
    (sendFn_steps (steps_transitionState hfirst _ _)).trans h
  cases method with
  | transitionState newState => exact (hchange ws h _ _).1
  | send data => exact frame_unset h _ _
  | sendBytes data => exact frame_unset h _ _
  | sendJson data => exact frame_unset h _ _
  | sendPing payload => exact fun _ => frame_unset h _ _
  | sendPong payload => exact fun _ => frame_unset h _ _
  | handlePing payload => exact frame_unset h _ _
  | handlePong => exact trivial
  | close code reason => exact fun _ => ⟨(hchange ws h _ _).1, close_unset hclosing _ _⟩
  | initiateClose code reason => exact fun _ _ => ⟨(hchange ws h _ _).1, close_unset hclosing _ _⟩
  | handleCloseFrame payload =>
      refine ⟨fun _ => ⟨(hchange ws h _ _).1, close_unset hclosing _ _⟩, ?_⟩
      refine (hchange _ ?_ _ _).2
      split
      · exact (sendFn_steps (steps_passFrame _)).trans hclosing
      · exact h
  | completeClose => exact fun _ => (hchange ws h _ _).1
  | forceClose code reason =>
      refine ⟨hfirstMeets _ h, close_unset ?_ _ _⟩
      exact (sendFn_steps (hfirst _)).trans h
  | validateMessageSize frame maxMessageSize events =>
      intro _
      have hreported : (ws.reportError events (ascii "Message size "
          ++ decimal frame.payloadLen.toNat ++ ascii " exceeds maximum allowed size "
          ++ intStr maxMessageSize) first).sendFn = false :=
        (sendFn_steps (steps_reportError hfirst _ _)).trans h
      refine ⟨fun _ => hfirstMeets _ h, hsecondMeets _ hreported, close_unset ?_ _ _⟩
      exact (sendFn_steps (hsecond _)).trans hreported

mutual

theorem meets_unset_call : ∀ (call : WSCall) (ws : WSContext), ws.sendFn = false →
    call.Meets silentTerms ws
  | ⟨method, answers, first, second⟩, ws, h => by
      rw [WSCall.Meets]
      exact meets_unset (steps_execAll first) (steps_execAll second)
        (allMeet_unset first) (allMeet_unset second) method h

theorem allMeet_unset : ∀ (calls : List WSCall) (ws : WSContext), ws.sendFn = false →
    AllMeet silentTerms calls ws
  | [], ws, _ => by
      rw [AllMeet]
      exact trivial
  | call :: calls, ws, h => by
      rw [AllMeet]
      exact ⟨meets_unset_call call ws h,
        allMeet_unset calls _ ((sendFn_steps (steps_exec call ws)).trans h)⟩

end

/-- A request to a chat, with the key `k`. -/
def chatContext : Context :=
  createPicoevContext ⟨ascii "GET", ascii "/chat", [(ascii "Upgrade", ascii "websocket"),
    (ascii "Connection", ascii "Upgrade"), (ascii "Sec-WebSocket-Key", ascii "k")], []⟩
    .empty .empty

theorem chatContext_key : validateUpgradeRequest chatContext = .ok (ascii "k") := by decide

/-- A greeting. -/
def helloCall : WSCall := ⟨.send (ascii "hello"), ⟨0, 0, none⟩, [], []⟩

end Opening

end VHono
