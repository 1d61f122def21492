import PlainJs.Number.Double
import PlainJs.Token.Basic
import PlainJs.Token.Escape

namespace PlainJs

namespace Token

/-- The nearest number that can be represented, in its shortest form. -/
def represented (d : Decimal) : Decimal := d.toDouble?.getD d.canonical

/-- Digits at the front of a text. -/
structure Digits where
  /-- The digits without the marks between them. -/
  value : List Char
  /-- How many characters the digits and marks have. -/
  length : Nat
  faults : List SyntaxError

/-- Whether a character next to a mark forbids it. -/
def forbidsMark (radix : Radix) (c : Option Char) : Bool :=
  match c with
  | none => true
  | some c =>
    if radix == .hexadecimal then ['.', 'X', '_', 'x'].contains c
    else ['.', 'B', 'E', 'O', '_', 'b', 'e', 'o'].contains c

/-- Reads digits from `start` on, where `position` is reached and `last` is the digit before; a
mark stands between two digits. -/
def digitsFrom (radix : Radix) (start position : Nat) (last : Option Char) : List Char → Digits
  | [] => ⟨[], 0, []⟩
  | c :: cs =>
    if c == '_' then
      let d := digitsFrom radix start (position + 1) last cs
      let next := cs.head?
      let isAllowed := next.any (isDigitIn radix.base) && !forbidsMark radix last &&
        !forbidsMark radix next
      let faults : List SyntaxError :=
        if isAllowed then [] else [⟨⟨start, position⟩, .digitSeparator⟩]
      ⟨d.value, d.length + 1, faults ++ d.faults⟩
    else if isDigitIn radix.base c then
      let d := digitsFrom radix start (position + 1) (some c) cs
      ⟨c :: d.value, d.length + 1, d.faults⟩
    else ⟨[], 0, []⟩

/-- Reads digits at a position. -/
def digitsAt (radix : Radix) (position : Nat) (cs : List Char) : Digits :=
  digitsFrom radix position position none cs

/-- What a number literal is, how many characters it has, and its faults. -/
structure Numeral where
  kind : TokenKind
  length : Nat
  faults : List SyntaxError

namespace Numeral

def broken (span : Span) (fault : SyntaxFault) (length : Nat) (faults : List SyntaxError) :
    Numeral :=
  ⟨.broken ⟨span, fault⟩, length, faults⟩

/-- No word may follow a number directly. -/
def checked (position : Nat) (n : Numeral) (cs : List Char) : Numeral :=
  if (cs.drop n.length).head?.any fun c => Text.isIdentifierStart c then
    broken ⟨position + n.length, position + n.length⟩ .wordAfterNumber n.length n.faults
  else n

end Numeral

/-- A literal of another radix than ten. -/
def radixNumeral (radix : Radix) (position : Nat) (cs : List Char) : Numeral :=
  let here := position + 2
  let ds := digitsAt radix here (cs.drop 2)
  let length := ds.length + 2
  let value := digitsIn radix.base ds.value
  if ds.value.isEmpty then
    .broken ⟨here, here + ds.length⟩ (.digitExpected radix) length ds.faults
  else if (cs.drop length).head? == some 'n' then ⟨.bigInt value, length + 1, ds.faults⟩
  else Numeral.checked position ⟨.number (represented (.ofNat value)), length, ds.faults⟩ cs

/-- A literal that starts with a zero and has more digits, all of them octal. -/
def isLegacyOctal (ds : List Char) : Bool :=
  2 ≤ ds.length && ds.head? == some '0' && ds.all (isDigitIn 8)

/-- A literal that starts with a zero and has more digits, not all of them octal. -/
def isLegacyDecimal (ds : List Char) : Bool :=
  2 ≤ ds.length && ds.head? == some '0' && !ds.all (isDigitIn 8)

/-- The part of a literal behind its whole digits: a fraction, and how many characters it has. -/
def fractionAt (position : Nat) (cs : List Char) : Digits :=
  match cs with
  | '.' :: cs =>
    let ds := digitsAt .decimal (position + 1) cs
    { ds with length := ds.length + 1 }
  | _ => ⟨[], 0, []⟩

/-- The exponent at the front of a text, the number of its characters and its faults; or the
position and the fault where it cannot be read, with the number of characters up to there. -/
def exponentAt (position : Nat) (cs : List Char) :
    Except (SyntaxError × Nat) (Int × Nat × List SyntaxError) :=
  match cs with
  | e :: cs =>
    if e == 'e' || e == 'E' then
      let signs := if cs.head?.any fun c => c == '+' || c == '-' then 1 else 0
      let start := position + 1 + signs
      let ds := digitsAt .decimal start (cs.drop signs)
      if cs.isEmpty then .error (⟨⟨start, start⟩, .exponentExpected⟩, 1)
      else if ds.value.isEmpty then
        .error (⟨⟨start, start + ds.length⟩, .digitExpected .decimal⟩, 1 + signs + ds.length)
      else
        let n : Int := digitsIn 10 ds.value
        .ok (if cs.head? == some '-' then -n else n, 1 + signs + ds.length, ds.faults)
    else .ok (0, 0, [])
  | [] => .ok (0, 0, [])

/-- A literal of radix ten. -/
def decimalNumeral (position : Nat) (cs : List Char) : Numeral :=
  let whole := digitsAt .decimal position cs
  let rest := cs.drop whole.length
  let here := position + whole.length
  if !whole.value.isEmpty && !isLegacyOctal whole.value && !isLegacyDecimal whole.value &&
      rest.head? == some 'n' then
    ⟨.bigInt (digitsIn 10 whole.value), whole.length + 1, whole.faults⟩
  else if isLegacyOctal whole.value then
    let faults := whole.faults ++ [⟨⟨position, here⟩, .legacyOctal⟩]
    Numeral.checked position
      ⟨.number (represented (.ofNat (digitsIn 8 whole.value))), whole.length, faults⟩ cs
  else
    let legacy : List SyntaxError :=
      if isLegacyDecimal whole.value then [⟨⟨position, here⟩, .legacyDecimal⟩] else []
    let part := fractionAt here rest
    let faults := whole.faults ++ legacy ++ part.faults
    let length := whole.length + part.length
    match exponentAt (here + part.length) (rest.drop part.length) with
    | .error (e, n) => ⟨.broken e, length + n, faults⟩
    | .ok (power, n, more) =>
      let digits := digitsIn 10 (whole.value ++ part.value)
      let value := represented ⟨false, digits, power - part.value.length⟩
      Numeral.checked position ⟨.number value, length + n, faults ++ more⟩ cs

/-- The number at the front of a text that starts with a digit, or with a point and a digit. -/
def numeral (position : Nat) (cs : List Char) : Numeral :=
  match cs with
  | '0' :: c :: _ =>
    if c == 'x' || c == 'X' then radixNumeral .hexadecimal position cs
    else if c == 'o' || c == 'O' then radixNumeral .octal position cs
    else if c == 'b' || c == 'B' then radixNumeral .binary position cs
    else decimalNumeral position cs
  | _ => decimalNumeral position cs

end Token

end PlainJs
