import VHono.InsertionMap
import VHono.ByteString

/-! # Route patterns — handlers, complexity, and the regex source of a path

    What the two routers share: the handler and match records, the complexity
    score that orders dynamic routes, and the translation of a `:param` path
    into the source text of an anchored regular expression.

    The regular-expression engine itself is the standard library's and enters
    as a `RegexEngine`.  Only the fixed expression `:[a-zA-Z_][a-zA-Z0-9_]*`,
    with which both routers find the parameters of a path, is scanned here. -/

namespace VHono

open ByteString

/-- A registered handler: its path, and what it runs. -/
structure IHandler (F : Type) where
  path   : ByteString
  handle : F
  deriving DecidableEq

structure ContextRouteMatch (F : Type) where
  handler  : IHandler F
  params   : InsertionMap ByteString ByteString
  path     : ByteString
  basePath : ByteString

/-- The library's regular expressions: `regex_opt`, `matches_string`, and
    `get_group_by_name` after a match on the given text. -/
structure RegexEngine where
  RE             : Type
  regexOpt       : ByteString → Option RE
  matchesString  : RE → ByteString → Bool
  getGroupByName : RE → ByteString → ByteString → ByteString

/-! ## Complexity -/

def specialChars : List UInt8 :=
  ['?', '+', '.', '(', ')', '[', ']', '\x7b', '\x7d', '^', '$', '|'].map byte

/-- Parameters weigh 10, wildcards 20, segments 1, special characters 5. -/
def routeComplexity (path : ByteString) : Nat :=
  path.count (byte ':') * 10 + path.count (byte '*') * 20
    + (path.count (byte '/') + 1)
    + (specialChars.map (fun ch => path.count ch * 5)).sum

def calculateRouteComplexity (path : ByteString) : Nat := routeComplexity path

def calculateFastRouteComplexity (path : ByteString) : Nat := routeComplexity path

/-! ## Parameters -/

def isParamStart (b : UInt8) : Bool :=
  (byte 'a' ≤ b && b ≤ byte 'z') || (byte 'A' ≤ b && b ≤ byte 'Z') || b == byte '_'

def isParamPart (b : UInt8) : Bool :=
  isParamStart b || (byte '0' ≤ b && b ≤ byte '9')

/-- The identifier a text starts with, or nothing. -/
def identifier (s : ByteString) : ByteString :=
  if (s.head?.map isParamStart).getD false then s.takeWhile isParamPart else []

/-- A path cut at its parameters. -/
inductive PathPiece where
  | text (b : UInt8)
  | param (name : ByteString)

/-- Leftmost, longest matches of `:[a-zA-Z_][a-zA-Z0-9_]*`; the counter skips
    the bytes of a name already taken. -/
def scanParams : Nat → ByteString → List PathPiece
  | _, [] => []
  | skip + 1, _ :: s => scanParams skip s
  | 0, b :: s =>
    let name := identifier s
    if b = byte ':' ∧ name ≠ [] then .param name :: scanParams name.length s
    else .text b :: scanParams 0 s

/-- `find_all_str`, each match without its colon. -/
def paramNames (path : ByteString) : List ByteString :=
  (scanParams 0 path).filterMap (fun piece => match piece with
    | .text _ => none
    | .param name => some name)

/-- `(?P<name>[^/]+)` -/
def namedGroup (name : ByteString) : ByteString :=
  ascii "(?P<" ++ name ++ ascii ">[^/]+)"

/-- `replace_by_fn` with the named group of each parameter. -/
def replaceParams (path : ByteString) : ByteString :=
  (scanParams 0 path).flatMap (fun piece => match piece with
    | .text b => [b]
    | .param name => namedGroup name)

/-! ## Regex source -/

/-- `s.replace(ch, '\\ch')` -/
def escapeByte (s : ByteString) (ch : UInt8) : ByteString :=
  s.flatMap (fun b => if b = ch then [byte '\\', ch] else [b])

def escapeSpecialChars (path : ByteString) : ByteString :=
  specialChars.foldl escapeByte path

/-- The anchored expression of a parameter path. -/
def paramRegexSource (path : ByteString) : ByteString :=
  ascii "^" ++ replaceParams (escapeSpecialChars path) ++ ascii "$"

/-- The parameters of a path that matched, in the order of their names. -/
def extractParams (E : RegexEngine) (re : E.RE) (names : List ByteString)
    (path : ByteString) : InsertionMap ByteString ByteString :=
  names.foldl (fun m name => m.insert name (E.getGroupByName re path name)) .empty

/-! ## An engine for anchored segment expressions

    Literals, escapes and `(?P<name>[^/]+)` groups between `^` and `$`, each
    group ending a segment.  On these the library's engine answers the same. -/

inductive SegmentToken where
  | lit (b : UInt8)
  | group (name : ByteString)
  deriving DecidableEq

def parseSegments : Nat → ByteString → Option (List SegmentToken)
  | _, [] => some []
  | skip + 1, _ :: s => parseSegments skip s
  | 0, b :: s =>
    if b = byte '\\' then s.head?.bind (fun c => (parseSegments 1 s).map (.lit c :: ·))
    else if startsWith (b :: s) (ascii "(?P<") then
      let name := (s.drop 3).takeWhile (· ≠ byte '>')
      if startsWith (s.drop (3 + name.length)) (ascii ">[^/]+)") then
        (parseSegments (name.length + 10) s).map (.group name :: ·)
      else none
    else if b ∈ specialChars ∨ b = byte '*' then none
    else (parseSegments 0 s).map (.lit b :: ·)

def parseAnchored (source : ByteString) : Option (List SegmentToken) :=
  if source.head? = some (byte '^') ∧ source.getLast? = some (byte '$')
  then parseSegments 0 (source.tail.dropLast) else none

def matchSegments : List SegmentToken → ByteString → Option (List (ByteString × ByteString))
  | [], [] => some []
  | [], _ :: _ => none
  | .lit _ :: _, [] => none
  | .lit b :: ts, c :: s => if b = c then matchSegments ts s else none
  | .group name :: ts, s =>
    let value := s.takeWhile (· ≠ byte '/')
    if value = [] then none
    else (matchSegments ts (s.dropWhile (· ≠ byte '/'))).map ((name, value) :: ·)

def segmentEngine : RegexEngine where
  RE := List SegmentToken
  regexOpt := parseAnchored
  matchesString re path := (matchSegments re path).isSome
  getGroupByName re path name := ((matchSegments re path).bind (·.lookup name)).getD []

example : paramNames (ascii "/users/:id/:tab_2") = [ascii "id", ascii "tab_2"] := by decide

example : paramRegexSource (ascii "/f.txt/:id") = ascii "^/f\\.txt/(?P<id>[^/]+)$" := by
  decide

end VHono
