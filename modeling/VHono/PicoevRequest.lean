import VHono.Context

/-! # Requests of the picoev backend

    The request arrives parsed: method, target, header fields and body.  The
    backend cuts the target into path and query and builds the context. -/

namespace VHono

open ByteString

/-- `picohttpparser.Request` -/
structure PicoRequest where
  method  : ByteString
  path    : ByteString
  headers : List (ByteString × ByteString)
  body    : ByteString

/-- Path and query of a target, cut at its last question mark. -/
def parsePathAndQuery (fullPath : ByteString) :
    ByteString × InsertionMap ByteString ByteString :=
  match lastIndexOf (byte '?') fullPath with
  | none => (fullPath, .empty)
  | some queryStart =>
    (fullPath.take queryStart, parseQueryRange fullPath (queryStart + 1) fullPath.length)

/-- The path of a target, cut at its first question mark. -/
def extractPathOnly (fullPath : ByteString) : ByteString :=
  fullPath.takeWhile (· ≠ byte '?')

def convertPicoevRequest (req : PicoRequest) : HttpRequest where
  method := parseHttpMethodFast req.method
  url := req.path
  data := req.body
  header := Header.addAll [] req.headers

def createPicoevContext (req : PicoRequest)
    (params query : InsertionMap ByteString ByteString) : Context where
  req := convertPicoevRequest req
  params := params
  query := query
  body := req.body
  url := req.path
  path := extractPathOnly req.path
  statusCode := 200
  headers := .empty
  store := .empty

/-! ## WebSocket upgrades and keep-alive -/

def picoevUpgradeStep (flags : UpgradeFlags) (h : ByteString × ByteString) : UpgradeFlags :=
  let name := toLower h.1
  if name = ascii "upgrade" then
    if toLower h.2 = ascii "websocket" then { flags with hasUpgrade := true } else flags
  else if name = ascii "connection" then
    if containsIgnoreCase h.2 (ascii "upgrade") then { flags with hasConnection := true }
    else flags
  else if name = ascii "sec-websocket-key" then
    if h.2.length > 0 then { flags with hasWsKey := true } else flags
  else flags

def isPicoevWsUpgrade (req : PicoRequest) : Bool :=
  (req.headers.foldl picoevUpgradeStep .none).all

/-- The value of the first field with the name, in any case. -/
def picoevHeader (req : PicoRequest) (name : ByteString) : Option ByteString :=
  (req.headers.find? (fun h => eqIgnoreCase h.1 name)).map (·.2)

def getPicoevWsKey (req : PicoRequest) : ByteString :=
  (picoevHeader req (ascii "sec-websocket-key")).getD []

def getPicoevWsVersion (req : PicoRequest) : ByteString :=
  (picoevHeader req (ascii "sec-websocket-version")).getD (ascii "13")

def checkKeepaliveRequest (req : PicoRequest) : Bool :=
  match picoevHeader req (ascii "connection") with
  | some value => containsIgnoreCase value (ascii "keep-alive")
  | none => true

/-! ## Targets without a question mark -/

theorem parsePathAndQuery_plain {target : ByteString} (h : byte '?' ∉ target) :
    parsePathAndQuery target = (target, .empty) := by
  rw [parsePathAndQuery, lastIndexOf_eq_none h]

end VHono
