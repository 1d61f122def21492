import PlainJs.Number.Decimal
import PlainJs.Source.Fault
import PlainJs.Text.Identifier

namespace PlainJs

inductive TokenKind
  /-- An identifier or a reserved word, with its escapes resolved. -/
  | word (name : String)
  | punct
  | number (value : Decimal)
  | bigInt (value : Nat)
  | string (value : String)
  /-- Text of a template up to a hole or its end; the error is that of an escape in it. -/
  | template (raw : String) (cooked : Except SyntaxError String) (isLast : Bool)
  | regExp (pattern flags : String)
  /-- The first line of a text that names its interpreter. -/
  | interpreter (line : String)
  | ended
  /-- No token can be read here. -/
  | broken (error : SyntaxError)

/-- A token with its source text; `afterLine` tells whether a line ends between it and the token
before, and `faults` are the errors of the token and the gap before it, after which reading goes
on. -/
structure Token where
  kind : TokenKind
  span : Span
  text : String
  afterLine : Bool
  faults : List SyntaxError
  /-- The source text from the token on. -/
  here : List Char
  /-- The source text behind the token. -/
  rest : List Char

namespace Token

/-- The word that the token is. -/
def word? (t : Token) : Option String :=
  match t.kind with
  | .word name => some name
  | _ => none

def isAnyWord (t : Token) : Bool := t.word?.isSome

def isWord (t : Token) (s : String) : Bool := t.word? == some s

def isPunct (t : Token) (s : String) : Bool :=
  match t.kind with
  | .punct => t.text == s
  | _ => false

def isEnded (t : Token) : Bool :=
  match t.kind with
  | .ended => true
  | _ => false

def isBroken (t : Token) : Bool :=
  match t.kind with
  | .broken _ => true
  | _ => false

/-- The text of a punctuator or a word, which may be an operator. -/
def operator? (t : Token) : Option String :=
  match t.kind with
  | .punct => some t.text
  | .word name => some name
  | _ => none

/-- How messages call the token. -/
def shown (t : Token) : String :=
  match t.kind with
  | .word name =>
    if Text.isReserved name || Text.contextualWords.contains name then name else "ident"
  | .punct => t.text
  | .number _ => "numeric literal"
  | .bigInt _ => "bigint literal"
  | .string _ => "string literal"
  | .template _ _ _ => "template literal"
  | .regExp _ _ => "regexp literal"
  | .interpreter _ => "#!"
  | .ended => "<eof>"
  | .broken _ => "<lexing error>"

/-- Whether a statement may end before the token without a semicolon. -/
def endsStatement (t : Token) : Bool := t.isPunct "\x7d" || t.isEnded || t.afterLine

/-- Whether the token is a word that names nothing in a module. -/
def isReserved (t : Token) : Bool := t.word?.any Text.isReserved

end Token

end PlainJs
