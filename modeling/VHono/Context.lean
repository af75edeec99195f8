import VHono.App
import VHono.HttpGrammar

/-! # Request contexts

    The request a handler is given, and what the backends share in building
    it: the header table, the method table, and the query loop, which walks
    once over a range of the buffer and inserts each pair it closes. -/

namespace VHono

open ByteString

/-- `http.Header`, in the order of insertion. -/
abbrev Header := List (ByteString × ByteString)

namespace Header

/-- The library accepts a name if it is a token. -/
def validName (name : ByteString) : Bool := name ≠ [] && name.all HttpGrammar.isTokenByte

/-- `header.add_custom(name, value) or { continue }` -/
def addCustom (h : Header) (name value : ByteString) : Header :=
  if validName name then h ++ [(name, value)] else h

def addAll (h : Header) (fields : List (ByteString × ByteString)) : Header :=
  fields.foldl (fun h f => h.addCustom f.1 f.2) h

theorem addAll_valid :
    ∀ (fields : List (ByteString × ByteString)) (h : Header),
      (∀ f ∈ fields, validName f.1 = true) → h.addAll fields = h ++ fields := by
  intro fields
  induction fields with
  | nil => intro h _; exact (List.append_nil h).symm
  | cons f fs ih =>
      intro h hv
      have hstep : h.addCustom f.1 f.2 = h ++ [f] := if_pos (hv f (List.mem_cons_self ..))
      show (h.addCustom f.1 f.2).addAll fs = _
      rw [hstep, ih _ (fun g hg => hv g (List.mem_cons_of_mem _ hg)), List.append_assoc]
      rfl

end Header

/-- `http.Request` -/
structure HttpRequest where
  method : RouteMethod
  url    : ByteString
  data   : ByteString
  header : Header

structure Context where
  req        : HttpRequest
  params     : InsertionMap ByteString ByteString
  query      : InsertionMap ByteString ByteString
  url        : ByteString
  path       : ByteString
  statusCode : Int
  headers    : InsertionMap ByteString ByteString
  body       : ByteString
  store      : InsertionMap ByteString ByteString

/-- What a handler reads of the request. -/
structure RequestView where
  method : RouteMethod
  path   : ByteString
  url    : ByteString
  query  : InsertionMap ByteString ByteString
  header : Header
  body   : ByteString

def Context.view (c : Context) : RequestView where
  method := c.req.method
  path := c.path
  url := c.url
  query := c.query
  header := c.req.header
  body := c.body

/-! ## Methods -/

/-- The method a word stands for, decided by first byte and length; `GET` otherwise. -/
def httpMethodOf (method : ByteString) : RouteMethod :=
  match method.head? with
  | none => .get
  | some b =>
    if b = byte 'P' then
      if method.length = 4 ∧ byteAt method 1 = byte 'O' then .post
      else if method.length = 3 ∧ byteAt method 1 = byte 'U' then .put
      else if method.length = 5 then .patch
      else .get
    else if b = byte 'D' ∧ method.length = 6 then .delete
    else if b = byte 'H' ∧ method.length = 4 then .head
    else if b = byte 'O' ∧ method.length = 7 then .options
    else .get

def parseHttpMethodFast (method : ByteString) : RouteMethod := httpMethodOf method

def parseHttpMethodUsockets (method : ByteString) : RouteMethod := httpMethodOf method

/-- The table inverts the names of the methods. -/
theorem httpMethodOf_str (m : RouteMethod) : httpMethodOf m.str = m := by
  cases m <;> rfl

/-! ## WebSocket upgrades -/

/-- The flags a detection loop over the header fields collects. -/
structure UpgradeFlags where
  hasUpgrade    : Bool
  hasConnection : Bool
  hasWsKey      : Bool

def UpgradeFlags.none : UpgradeFlags := ⟨false, false, false⟩

def UpgradeFlags.all (flags : UpgradeFlags) : Bool :=
  flags.hasUpgrade && flags.hasConnection && flags.hasWsKey

/-! ## Query strings -/

/-- The state of the query loop; the source's `-1` is `none`. -/
structure QueryScan where
  keyStart   : Nat
  keyEnd     : Option Nat
  valueStart : Option Nat
  query      : InsertionMap ByteString ByteString

/-- The pair that a separator at position `i` closes. -/
def QueryScan.close (st : QueryScan) (raw : ByteString) (i : Nat) :
    InsertionMap ByteString ByteString :=
  match st.keyEnd, st.valueStart with
  | some keyEnd, some valueStart =>
    if keyEnd > st.keyStart then
      let value := if valueStart < i then slice raw valueStart i else []
      st.query.insert (slice raw st.keyStart keyEnd) value
    else st.query
  | _, _ => if i > st.keyStart then st.query.insert (slice raw st.keyStart i) [] else st.query

/-- One position; the end of the range counts as a separator. -/
def QueryScan.step (raw : ByteString) (e : Nat) (st : QueryScan) (i : Nat) : QueryScan :=
  let ch := if i < e then byteAt raw i else byte '&'
  if ch = byte '=' ∧ st.keyEnd = none then
    { st with keyEnd := some i, valueStart := some (i + 1) }
  else if ch = byte '&' then
    { keyStart := i + 1, keyEnd := none, valueStart := none, query := st.close raw i }
  else st

/-- The query loop over the range from `start` to `e`. -/
def parseQueryRange (raw : ByteString) (start e : Nat) : InsertionMap ByteString ByteString :=
  ((List.range' start (e + 1 - start)).foldl (QueryScan.step raw e)
    ⟨start, none, none, .empty⟩).query

def parseQueryStringFast (raw : ByteString) (start e : Nat) :
    InsertionMap ByteString ByteString := parseQueryRange raw start e

def parseQueryStringApp (query : ByteString) : InsertionMap ByteString ByteString :=
  if query.length = 0 then .empty else parseQueryRange query 0 query.length

example : (parseQueryStringApp (ascii "a=1&b&=x&a=2")).entries
    = [(ascii "a", ascii "2"), (ascii "b", [])] := by decide

end VHono
