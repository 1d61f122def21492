import PlainJs.Json.Reader
import PlainJs.Source.Fault

namespace PlainJs

namespace Token

def isLineEnd (c : Char) : Bool :=
  c == '\n' || c == '\r' || c == '\u2028' || c == '\u2029'

/-- The number of bytes of a text. -/
def byteCount (cs : List Char) : Nat := (String.ofList cs).utf8ByteSize

/-- What an escape stands for, and how many characters it has behind the backslash. -/
structure Escape where
  text : List Char
  length : Nat
  /-- Whether it is written in the octal form that strict code lacks. -/
  isOctal : Bool

/-- What is wrong with an escape, and how many characters behind the backslash show it. -/
structure EscapeFault where
  fault : SyntaxFault
  length : Nat

/-- The number that digits denote. -/
def digitsIn (base : Nat) (ds : List Char) : Nat :=
  ds.foldl (fun n c => n * base + (Json.hexValue? c).getD 0) 0

def isDigitIn (base : Nat) (c : Char) : Bool := (Json.hexValue? c).any (· < base)

/-- The number that exactly `count` hexadecimal digits denote, or how many digits there are. -/
def hexDigitsAt (count : Nat) (cs : List Char) : Except Nat Nat :=
  let ds := (cs.take count).takeWhile (isDigitIn 16)
  if ds.length == count then .ok (digitsIn 16 ds) else .error ds.length

/-- The character of an escape of one letter. -/
def letterEscape (c : Char) : Char :=
  if c == 'n' then '\n'
  else if c == 't' then '\t'
  else if c == 'r' then '\r'
  else if c == 'b' then '\x08'
  else if c == 'v' then '\x0b'
  else if c == 'f' then '\x0c'
  else c

/-- An escape of four digits, behind its letter; two of them in a row can give one character. -/
def unitEscape (cs : List Char) : Except EscapeFault Escape :=
  match hexDigitsAt 4 cs with
  | .error found => .error ⟨.badEscape "4 hex characters", found + 1⟩
  | .ok n =>
    let single : Escape := ⟨[Char.ofNat n], 5, false⟩
    match cs.drop 4 with
    | '\\' :: 'u' :: more =>
      match hexDigitsAt 4 more with
      | .ok low =>
        if Json.isHighSurrogate n && Json.isLowSurrogate low then
          .ok ⟨[Json.joinSurrogates n low], 11, false⟩
        else .ok single
      | .error _ => .ok single
    | _ => .ok single

/-- An escape of a code point, behind its opening brace. -/
def pointEscape (cs : List Char) : Except EscapeFault Escape :=
  let ds := cs.takeWhile (isDigitIn 16)
  let length := ds.length + 2
  if ds.isEmpty then .error ⟨.badEscape "1-6 hex characters", length⟩
  else if 0x10ffff < digitsIn 16 ds then
    .error ⟨.badEscape "1-6 hex characters in the range 0 to 10FFFF.", length⟩
  else if (cs.drop ds.length).head? != some '\x7d' then .error ⟨.codePointEscape, length⟩
  else .ok ⟨[Char.ofNat (digitsIn 16 ds)], length + 1, false⟩

/-- An escape of a code unit or a code point, behind its letter. -/
def unicodeEscape : List Char → Except EscapeFault Escape
  | '\x7b' :: cs => pointEscape cs
  | cs => unitEscape cs

/-- The octal digits that an escape takes: up to three, as long as they fit in eight bits. -/
def octalDigits (cs : List Char) : List Char :=
  let ds := (cs.take 3).takeWhile (isDigitIn 8)
  if 255 < digitsIn 8 ds then ds.take 2 else ds

/-- What an escape behind its backslash stands for. -/
def escape : List Char → Except EscapeFault Escape
  | [] => .error ⟨.stringEscape, 0⟩
  | 'x' :: cs =>
    match hexDigitsAt 2 cs with
    | .ok n => .ok ⟨[Char.ofNat n], 3, false⟩
    | .error found => .error ⟨.badEscape "2 hex characters", found + 1⟩
  | 'u' :: cs => unicodeEscape cs
  | '\r' :: '\n' :: _ => .ok ⟨[], 2, false⟩
  | c :: cs =>
    if isLineEnd c then .ok ⟨[], 1, false⟩
    else if isDigitIn 8 c then
      if c == '0' && !(cs.head?.any (isDigitIn 8)) then .ok ⟨['\x00'], 1, false⟩
      else
        let ds := octalDigits (c :: cs)
        .ok ⟨[Char.ofNat (digitsIn 8 ds)], ds.length, true⟩
    else .ok ⟨[letterEscape c], 1, false⟩

end Token

end PlainJs
