import VHono.ByteDecimals

/-! # The lexer of SQLite

    The tokens of a statement, read byte by byte; white space and comments are
    dropped and a NUL byte ends the statement.  A quote is written inside a
    quoted token by doubling it.  Left out are the suffixes of `$` parameters,
    separators between digits and the byte order mark. -/

namespace SqliteLexer

open ByteString

/-- A token, with the text it stands for.  Only single quotes make a string; a name is quoted in
    one of the other ways. -/
inductive Token
  | word (text : ByteString)
  | name (text : ByteString)
  | string (text : ByteString)
  | blob (text : ByteString)
  | number (text : ByteString)
  | variable (text : ByteString)
  | op (text : ByteString)
  | illegal (text : ByteString)
  deriving DecidableEq, Repr

/-- Where in a number the reader is. -/
inductive Phase
  | zero
  | whole
  | fraction
  | mark
  | exponent
  | hexMark
  | hex
  | bad
  deriving DecidableEq, Repr

/-- What has been read of the token that is not finished. -/
inductive State
  | start
  | word (acc : ByteString)
  | hexLetter (letter : UInt8)
  | blob (acc : ByteString)
  | badBlob (acc : ByteString)
  | dot
  | number (acc : ByteString) (phase : Phase)
  | sign (acc : ByteString) (sign : UInt8)
  | quoted (quote : UInt8) (acc : ByteString)
  | closing (quote : UInt8) (acc : ByteString)
  | bracket (acc : ByteString)
  | minus
  | arrow
  | lineComment
  | slash
  | blockOpen
  | blockComment
  | blockStar
  | less
  | greater
  | equal
  | bang
  | pipe
  | question (acc : ByteString)
  | parameter (acc : ByteString)
  | ended

def isSpace (c : UInt8) : Bool := c = 9 || c = 10 || c = 12 || c = 13 || c = 32

def isHexDigit (c : UInt8) : Bool :=
  isDigitByte c || (65 ≤ c.toNat && c.toNat ≤ 70) || (97 ≤ c.toNat && c.toNat ≤ 102)

/-- A byte that a word can begin with. -/
def isLetter (c : UInt8) : Bool :=
  (65 ≤ c.toNat && c.toNat ≤ 90) || (97 ≤ c.toNat && c.toNat ≤ 122) || c = byte '_' || 128 ≤ c.toNat

/-- A byte that a word can go on with. -/
def isWordByte (c : UInt8) : Bool := isLetter c || isDigitByte c || c = byte '$'

def isQuote (c : UInt8) : Bool := c = byte '\'' || c = byte '"' || c = 96

/-- The token of a quoted text. -/
def literal (quote : UInt8) (text : ByteString) : Token :=
  if quote = byte '\'' then .string text else .name text

/-- The first byte of a token. -/
def begin (c : UInt8) : List Token × State :=
  if isSpace c then ([], .start)
  else if isQuote c then ([], .quoted c [])
  else if c = byte '[' then ([], .bracket [])
  else if c = byte '0' then ([], .number [c] .zero)
  else if isDigitByte c then ([], .number [c] .whole)
  else if c = byte 'x' || c = byte 'X' then ([], .hexLetter c)
  else if isLetter c then ([], .word [c])
  else if c = byte '-' then ([], .minus)
  else if c = byte '/' then ([], .slash)
  else if c = byte '<' then ([], .less)
  else if c = byte '>' then ([], .greater)
  else if c = byte '=' then ([], .equal)
  else if c = byte '!' then ([], .bang)
  else if c = byte '|' then ([], .pipe)
  else if c = byte '.' then ([], .dot)
  else if c = byte '?' then ([], .question [c])
  else if c ∈ ascii "$@:#" then ([], .parameter [c])
  else if c ∈ ascii "(),;+*%&~" then ([.op [c]], .start)
  else ([.illegal [c]], .start)

/-- The tokens of a state that nothing more is added to. -/
def finish : State → List Token
  | .start => []
  | .word acc => [.word acc]
  | .hexLetter letter => [.word [letter]]
  | .blob acc => [.illegal acc]
  | .badBlob acc => [.illegal acc]
  | .dot => [.op (ascii ".")]
  | .number acc phase =>
    if phase = .mark || phase = .hexMark || phase = .bad then [.illegal acc] else [.number acc]
  | .sign acc sign => [.illegal acc, .op [sign]]
  | .quoted quote acc => [.illegal (quote :: acc)]
  | .closing quote acc => [literal quote acc]
  | .bracket acc => [.illegal (byte '[' :: acc)]
  | .minus => [.op (ascii "-")]
  | .arrow => [.op (ascii "->")]
  | .lineComment => []
  | .slash => [.op (ascii "/")]
  | .blockOpen => [.op (ascii "/"), .op (ascii "*")]
  | .blockComment => []
  | .blockStar => []
  | .less => [.op (ascii "<")]
  | .greater => [.op (ascii ">")]
  | .equal => [.op (ascii "=")]
  | .bang => [.illegal (ascii "!")]
  | .pipe => [.op (ascii "|")]
  | .question acc => [.variable acc]
  | .parameter acc => if acc.length = 1 then [.illegal acc] else [.variable acc]
  | .ended => []

/-- The token is over, and the byte begins another. -/
def close (q : State) (c : UInt8) : List Token × State := (finish q ++ (begin c).1, (begin c).2)

/-- How a number goes on. -/
def numberStep (phase : Phase) (c : UInt8) : Option Phase :=
  match phase with
  | .zero | .whole =>
    if phase = .zero && (c = byte 'x' || c = byte 'X') then some .hexMark
    else if isDigitByte c then some .whole
    else if c = byte '.' then some .fraction
    else if c = byte 'e' || c = byte 'E' then some .mark
    else if isWordByte c then some .bad else none
  | .fraction =>
    if isDigitByte c then some .fraction
    else if c = byte 'e' || c = byte 'E' then some .mark
    else if isWordByte c then some .bad else none
  | .mark | .exponent =>
    if isDigitByte c then some .exponent else if isWordByte c then some .bad else none
  | .hexMark | .hex =>
    if isHexDigit c then some .hex else if isWordByte c then some .bad else none
  | .bad => if isWordByte c then some .bad else none

def stepMinus (c : UInt8) : List Token × State :=
  if c = byte '-' then ([], .lineComment)
  else if c = byte '>' then ([], .arrow)
  else close .minus c

/-- One more byte. -/
def stepByte (q : State) (c : UInt8) : List Token × State :=
  match q with
  | .start => begin c
  | .word acc => if isWordByte c then ([], .word (acc ++ [c])) else close q c
  | .hexLetter letter =>
    if c = byte '\'' then ([], .blob [letter, c])
    else if isWordByte c then ([], .word [letter, c]) else close q c
  | .blob acc =>
    if isHexDigit c then ([], .blob (acc ++ [c]))
    else if c = byte '\'' then
      ([if acc.length % 2 = 0 then .blob (acc ++ [c]) else .illegal (acc ++ [c])], .start)
    else ([], .badBlob (acc ++ [c]))
  | .badBlob acc =>
    if c = byte '\'' then ([.illegal (acc ++ [c])], .start) else ([], .badBlob (acc ++ [c]))
  | .dot => if isDigitByte c then ([], .number [byte '.', c] .fraction) else close q c
  | .number acc phase =>
    match numberStep phase c with
    | some phase' => ([], .number (acc ++ [c]) phase')
    | none =>
      if phase = .mark && (c = byte '+' || c = byte '-') then ([], .sign acc c) else close q c
  | .sign acc sign =>
    if isDigitByte c then ([], .number (acc ++ [sign, c]) .exponent)
    -- the number was not one, and the sign begins a token of its own
    else if sign = byte '-' then (.illegal acc :: (stepMinus c).1, (stepMinus c).2)
    else close q c
  | .quoted quote acc =>
    if c = quote then ([], .closing quote acc) else ([], .quoted quote (acc ++ [c]))
  | .closing quote acc =>
    if c = quote then ([], .quoted quote (acc ++ [c])) else close q c
  | .bracket acc => if c = byte ']' then ([.name acc], .start) else ([], .bracket (acc ++ [c]))
  | .minus => stepMinus c
  | .arrow => if c = byte '>' then ([.op (ascii "->>")], .start) else close q c
  | .lineComment => if c = 10 then ([], .start) else ([], .lineComment)
  | .slash => if c = byte '*' then ([], .blockOpen) else close q c
  | .blockOpen => if c = byte '*' then ([], .blockStar) else ([], .blockComment)
  | .blockComment => if c = byte '*' then ([], .blockStar) else ([], .blockComment)
  | .blockStar =>
    if c = byte '/' then ([], .start)
    else if c = byte '*' then ([], .blockStar) else ([], .blockComment)
  | .less =>
    if c = byte '=' || c = byte '>' || c = byte '<' then ([.op [byte '<', c]], .start) else close q c
  | .greater =>
    if c = byte '=' || c = byte '>' then ([.op [byte '>', c]], .start) else close q c
  | .equal => if c = byte '=' then ([.op (ascii "==")], .start) else close q c
  | .bang => if c = byte '=' then ([.op (ascii "!=")], .start) else close q c
  | .pipe => if c = byte '|' then ([.op (ascii "||")], .start) else close q c
  | .question acc => if isDigitByte c then ([], .question (acc ++ [c])) else close q c
  | .parameter acc => if isWordByte c then ([], .parameter (acc ++ [c])) else close q c
  | .ended => ([], .ended)

/-- A NUL byte ends the statement. -/
def step (q : State) (c : UInt8) : List Token × State :=
  if c = 0 then (finish q, .ended) else stepByte q c

/-- The tokens of a text, from a state on. -/
def lexFrom : State → ByteString → List Token
  | q, [] => finish q
  | q, c :: s => (step q c).1 ++ lexFrom (step q c).2 s

/-- The tokens of a statement. -/
def lex (s : ByteString) : List Token := lexFrom .start s

example : lex (ascii "a='it''s'--x") = [.word (ascii "a"), .op (ascii "="), .string (ascii "it's")] := by
  decide

end SqliteLexer
