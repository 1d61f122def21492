import PlainJs.Json.Basic
import PlainJs.Number.Double

namespace PlainJs

namespace Json

/-- Why a text is not JSON: it ends too early, or something cannot stand where it stands. -/
inductive Fault
  | endInList
  | endInObject
  | endInString
  | endInValue
  | expectedColon
  | expectedListEnd
  | expectedObjectEnd
  | expectedWord
  | expectedValue
  | invalidEscape
  | invalidNumber
  | numberTooLarge
  | controlCharacter
  | keyNotString
  | loneSurrogate
  | brokenPair
  | trailingComma
  | trailingText
  | tooDeep
deriving DecidableEq, Repr

namespace Fault

/-- Whether more text could mend it. -/
def isEnd : Fault → Bool
  | endInList | endInObject | endInString | endInValue => true
  | _ => false

def message : Fault → String
  | endInList => "EOF while parsing a list"
  | endInObject => "EOF while parsing an object"
  | endInString => "EOF while parsing a string"
  | endInValue => "EOF while parsing a value"
  | expectedColon => "expected `:`"
  | expectedListEnd => "expected `,` or `]`"
  | expectedObjectEnd => "expected `,` or `\x7d`"
  | expectedWord => "expected ident"
  | expectedValue => "expected value"
  | invalidEscape => "invalid escape"
  | invalidNumber => "invalid number"
  | numberTooLarge => "number out of range"
  | controlCharacter => "control character (\\u0000-\\u001F) found while parsing a string"
  | keyNotString => "key must be a string"
  | loneSurrogate => "lone leading surrogate in hex escape"
  | brokenPair => "unexpected end of hex escape"
  | trailingComma => "trailing comma"
  | trailingText => "trailing characters"
  | tooDeep => "recursion limit exceeded"

end Fault

/-- Where reading stops: the text that is left, and how many bytes of it count as read. -/
structure Stop (φ : Type) where
  fault : φ
  rest : List Char
  bytes : Nat
deriving DecidableEq, Repr

/-- Stops behind what has been read. -/
def stopBehind {φ α : Type} (fault : φ) (rest : List Char) : Except (Stop φ) α :=
  .error ⟨fault, rest, 0⟩

/-- Stops at the first byte of the text that is left. -/
def stopAt {φ α : Type} (fault : φ) (rest : List Char) : Except (Stop φ) α :=
  .error ⟨fault, rest, 1⟩

/-- Stops behind the given number of bytes. -/
def stopAfter {φ α : Type} (fault : φ) : (bytes : Nat) → List Char → Except (Stop φ) α
  | bytes, [] => .error ⟨fault, [], bytes⟩
  | bytes, c :: cs =>
    if c.utf8Size ≤ bytes then stopAfter fault (bytes - c.utf8Size) cs
    else .error ⟨fault, c :: cs, bytes⟩

/-- A reader's result; most readers also give the text that they leave. -/
abbrev Read := Except (Stop Fault)

/-- The line and column of a stop in the text, in which columns count bytes. -/
def Stop.place {φ : Type} (s : Stop φ) (text : List Char) : Nat × Nat :=
  let before := text.take (text.length - s.rest.length)
  let line := before.count '\n' + 1
  match s.bytes, s.rest with
  | _ + 1, '\n' :: _ => (line + 1, 0)
  | bytes, rest =>
    let onLine := String.ofList (before.reverse.takeWhile (· != '\n'))
    (line, onLine.utf8ByteSize + if rest.isEmpty then 0 else bytes)

def isBlank (c : Char) : Bool := c == ' ' || c == '\n' || c == '\t' || c == '\r'

def skipBlanks (cs : List Char) : List Char := cs.dropWhile isBlank

def hexValue? (c : Char) : Option Nat :=
  if '0' ≤ c && c ≤ '9' then .some (c.toNat - '0'.toNat)
  else if 'a' ≤ c && c ≤ 'f' then .some (c.toNat - 'a'.toNat + 10)
  else if 'A' ≤ c && c ≤ 'F' then .some (c.toNat - 'A'.toNat + 10)
  else .none

/-- The value of the four hexadecimal digits at the front of a text. -/
def hexFour (cs : List Char) : Read Nat :=
  match (cs.take 4).map hexValue? with
  | [.some a, .some b, .some c, .some d] => .ok (((a * 16 + b) * 16 + c) * 16 + d)
  | _ =>
    if (String.ofList (cs.take 4)).utf8ByteSize < 4 then stopBehind .endInString []
    else stopAfter .invalidEscape 4 cs

def isHighSurrogate (n : Nat) : Bool := 0xD800 ≤ n && n < 0xDC00

def isLowSurrogate (n : Nat) : Bool := 0xDC00 ≤ n && n < 0xE000

def joinSurrogates (high low : Nat) : Char :=
  Char.ofNat (0x10000 + (high - 0xD800) * 0x400 + (low - 0xDC00))

def simpleEscape? (c : Char) : Option Char :=
  if c == '"' || c == '\\' || c == '/' then .some c
  else if c == 'b' then .some '\x08'
  else if c == 'f' then .some '\x0c'
  else if c == 'n' then .some '\n'
  else if c == 'r' then .some '\r'
  else if c == 't' then .some '\t'
  else .none

/-- The character of an escape of code units, behind its letter, and how many characters it has. -/
def unitEscape (cs : List Char) : Read (Char × Nat) := do
  let n ← hexFour cs
  if isLowSurrogate n then stopBehind .loneSurrogate (cs.drop 4)
  else if isHighSurrogate n then
    match cs.drop 4 with
    | '\\' :: 'u' :: more =>
      let low ← hexFour more
      if isLowSurrogate low then .ok (joinSurrogates n low, 10)
      else stopBehind .loneSurrogate (more.drop 4)
    | [] | ['\\'] => stopBehind .endInString []
    | '\\' :: more => stopAfter .brokenPair 1 more
    | more => stopAfter .brokenPair 1 more
  else .ok (Char.ofNat n, 4)

/-- The rest of a string after its opening quote; `acc` holds the characters read so far, last
first. -/
def stringRest (acc : List Char) : List Char → Read (String × List Char)
  | [] => stopBehind .endInString []
  | '"' :: rest => .ok (String.ofList acc.reverse, rest)
  | '\\' :: 'u' :: rest => do
    let (c, count) ← unitEscape rest
    stringRest (c :: acc) (rest.drop count)
  | ['\\'] => stopBehind .endInString []
  | '\\' :: c :: rest =>
    match simpleEscape? c with
    | .some e => stringRest (e :: acc) rest
    | .none => stopAfter .invalidEscape 1 (c :: rest)
  | c :: rest =>
    if c.toNat < 32 then stopBehind .controlCharacter rest else stringRest (c :: acc) rest
termination_by cs => cs.length
decreasing_by all_goals simp only [List.length_cons, List.length_drop]; omega

/-- A number as it is read: whole and of up to 64 bits, or a binary64 number by its shortest
decimal. -/
inductive Numeral
  | whole (value : Int)
  | real (value : Decimal)
deriving DecidableEq, Repr

def digitValue (c : Char) : Nat := c.toNat - '0'.toNat

/-- The number of which the first digits are given by `n` and the next ones by a text, up to the
digit with which it would exceed 64 bits, and the digits from there on. -/
def gather (n : Nat) : List Char → Nat × List Char
  | [] => (n, [])
  | c :: cs =>
    let next := n * 10 + digitValue c
    if next < Nat.pow 2 64 then gather next cs else (n, c :: cs)

/-- The digits at the front of a text. -/
def splitDigits (cs : List Char) : List Char × List Char :=
  (cs.takeWhile Char.isDigit, cs.dropWhile Char.isDigit)

/-- The digits before the point: a zero stands alone. -/
def wholeDigits : List Char → Read (List Char × List Char)
  | [] => stopBehind .endInValue []
  | c :: rest =>
    if c == '0' then
      if rest.head?.any Char.isDigit then stopAt .invalidNumber rest else .ok (['0'], rest)
    else if c.isDigit then .ok (splitDigits (c :: rest))
    else stopAfter .invalidNumber 1 (c :: rest)

/-- The digits behind a point; `none` without a point. -/
def fraction (cs : List Char) : Read (Option (List Char) × List Char) :=
  match cs with
  | '.' :: rest =>
    match splitDigits rest with
    | ([], _) => stopAt (if rest.isEmpty then .endInValue else .invalidNumber) rest
    | (digits, rest) => .ok (.some digits, rest)
  | _ => .ok (.none, cs)

/-- The exponent of the digits, of which the first ones are given by `n`; `none` where it would
exceed 31 bits, with the text behind the digit that does so. -/
def gatherPower (n : Nat) : List Char → Option Nat × List Char
  | [] => (.some n, [])
  | c :: cs =>
    if c.isDigit then
      let next := n * 10 + digitValue c
      if next < Nat.pow 2 31 then gatherPower next cs else (.none, cs)
    else (.some n, c :: cs)

/-- An exponent behind its sign, applied to `n * 10 ^ e`. A number that is too large to be
represented is refused, one that is too small is zero. -/
def scaled (negative lessens : Bool) (n : Nat) (e : Int) (cs : List Char) :
    Read (Numeral × List Char) :=
  match cs with
  | [] => stopBehind .endInValue []
  | c :: rest =>
    if !c.isDigit then stopAfter .invalidNumber 1 (c :: rest)
    else
      match gatherPower 0 (c :: rest) with
      | (.some power, rest) =>
        match Double.stepwise? n (if lessens then e - power else e + power) with
        | .some x => .ok (.real (x.shortest negative), rest)
        | .none => stopBehind .numberTooLarge rest
      | (.none, rest) =>
        if n != 0 && !lessens then stopBehind .numberTooLarge rest
        else .ok (.real ⟨negative, 0, 0⟩, rest.dropWhile Char.isDigit)

/-- A number without its sign. At most 64 bits of its digits count. -/
def unsignedNumeral (negative : Bool) (cs : List Char) : Read (Numeral × List Char) := do
  let (digits, rest) ← wholeDigits cs
  let (n, dropped) := gather 0 digits
  let (places, rest) ← fraction rest
  let (m, unread) := gather n (places.getD [])
  let e : Int := (dropped.length : Int) + unread.length - (places.getD []).length
  match rest with
  | 'e' :: '-' :: rest | 'E' :: '-' :: rest => scaled negative true m e rest
  | 'e' :: '+' :: rest | 'E' :: '+' :: rest => scaled negative false m e rest
  | 'e' :: rest | 'E' :: rest => scaled negative false m e rest
  | _ =>
    let isInteger := if negative then m != 0 && m ≤ Nat.pow 2 63 else true
    if places.isNone && dropped.isEmpty && isInteger then
      .ok (.whole (if negative then -(m : Int) else m), rest)
    else
      match Double.stepwise? m e with
      | .some x => .ok (.real (x.shortest negative), rest)
      | .none => stopBehind .numberTooLarge rest

def Numeral.toJson : Numeral → Json
  | .whole n => .num n
  | .real d => .real d

/-- A number. The text starts with a sign or a digit. -/
def numeral : List Char → Read (Numeral × List Char)
  | '-' :: rest => unsignedNumeral true rest
  | cs => unsignedNumeral false cs

def startsNumeral (c : Char) : Bool := c == '-' || c.isDigit

/-- The rest of a word whose first character has been read. -/
def wordRest : List Char → List Char → Read (List Char)
  | [], cs => .ok cs
  | _ :: _, [] => stopBehind .endInValue []
  | w :: ws, c :: cs =>
    if w == c then wordRest ws cs else stopAfter .expectedWord 1 (c :: cs)

mutual

/-- A value and the text after it. The fuel bounds the nesting and the number of elements. -/
def value (fuel : Nat) (cs : List Char) : Read (Json × List Char) :=
  match fuel with
  | 0 => stopAt .tooDeep cs
  | fuel + 1 =>
    match skipBlanks cs with
    | [] => stopAt .endInValue []
    | '"' :: rest => do
      let (s, rest) ← stringRest [] rest
      .ok (.str s, rest)
    | '[' :: rest => do
      match skipBlanks rest with
      | ']' :: rest => .ok (.arr [], rest)
      | [] => stopAt .endInList []
      | rest =>
        let (elems, rest) ← elems fuel rest
        .ok (.arr elems, rest)
    | '\x7b' :: rest => do
      match skipBlanks rest with
      | '\x7d' :: rest => .ok (.obj [], rest)
      | [] => stopAt .endInObject []
      | rest =>
        let (members, rest) ← members fuel rest
        .ok (.obj members, rest)
    | 'n' :: rest => return (.null, ← wordRest ['u', 'l', 'l'] rest)
    | 't' :: rest => return (.bool true, ← wordRest ['r', 'u', 'e'] rest)
    | 'f' :: rest => return (.bool false, ← wordRest ['a', 'l', 's', 'e'] rest)
    | c :: rest =>
      if startsNumeral c then do
        let (n, rest) ← numeral (c :: rest)
        .ok (n.toJson, rest)
      else stopAt .expectedValue (c :: rest)

/-- The elements of an array up to its closing bracket. -/
def elems (fuel : Nat) (cs : List Char) : Read (List Json × List Char) :=
  match fuel with
  | 0 => stopAt .tooDeep cs
  | fuel + 1 => do
    let (j, rest) ← value fuel cs
    match skipBlanks rest with
    | ',' :: rest =>
      match skipBlanks rest with
      | ']' :: rest => stopAt .trailingComma (']' :: rest)
      | rest =>
        let (js, rest) ← elems fuel rest
        .ok (j :: js, rest)
    | ']' :: rest => .ok ([j], rest)
    | [] => stopAt .endInList []
    | rest => stopAt .expectedListEnd rest

/-- The members of an object up to its closing brace. -/
def members (fuel : Nat) (cs : List Char) : Read (List (String × Json) × List Char) :=
  match fuel with
  | 0 => stopAt .tooDeep cs
  | fuel + 1 => do
    match skipBlanks cs with
    | '"' :: rest =>
      let (k, rest) ← stringRest [] rest
      match skipBlanks rest with
      | ':' :: rest =>
        let (j, rest) ← value fuel rest
        match skipBlanks rest with
        | ',' :: rest =>
          match skipBlanks rest with
          | '\x7d' :: rest => stopAt .trailingComma ('\x7d' :: rest)
          | rest =>
            let (js, rest) ← members fuel rest
            .ok ((k, j) :: js, rest)
        | '\x7d' :: rest => .ok ([(k, j)], rest)
        | [] => stopAt .endInObject []
        | rest => stopAt .expectedObjectEnd rest
      | [] => stopAt .endInObject []
      | rest => stopAt .expectedColon rest
    | [] => stopAt .endInValue []
    | rest => stopAt .keyNotString rest

end

/-- Reads a text that holds one value and blanks. -/
def parse (text : String) : Read Json := do
  let cs := text.toList
  let (j, rest) ← value (2 * cs.length + 2) cs
  match skipBlanks rest with
  | [] => .ok j
  | rest => stopAt .trailingText rest

end Json

end PlainJs
