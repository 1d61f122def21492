import PlainJs.Token.Numeral

namespace PlainJs

namespace Token

/-- The blanks that end no line. -/
def isBlank (c : Char) : Bool :=
  c == ' ' || c == '\t' || c == '\x0b' || c == '\x0c' || c == '\u0085' || c == '\u00a0' ||
    c == '\u1680' || (0x2000 ≤ c.toNat && c.toNat ≤ 0x200b) || c == '\u202f' || c == '\u205f' ||
    c == '\u3000' || c == '\ufeff'

/-- All punctuators, a longer one before those that it starts with. -/
def punctuators : List String :=
  [">>>=", "...", "===", "!==", "**=", "<<=", ">>=", ">>>", "&&=", "||=", "??=", "=>", "==", "!=",
    "<=", ">=", "++", "--", "<<", ">>", "&&", "||", "??", "+=", "-=", "*=", "/=", "%=", "&=", "|=",
    "^=", "**", "\x7b", "\x7d", "(", ")", "[", "]", ";", ",", "<", ">", "+", "-", "*", "/", "%",
    "&", "|", "^", "!", "~", "?", ":", "=", ".", "#", "@"]

/-- The punctuator at the front of a text. A question mark joins a point that no digit follows. -/
def punctuator? (cs : List Char) : Option String :=
  match cs with
  | '?' :: '.' :: c :: _ => some (if c.isDigit then "?" else "?.")
  | ['?', '.'] => some "?."
  | _ => punctuators.find? fun p => p.toList.isPrefixOf cs

/-- What separates tokens: where it ends, whether a line ends in it, and its faults. -/
structure Gap where
  position : Nat
  rest : List Char
  endsLine : Bool
  faults : List SyntaxError

/-- How long the inside of a block comment is with its end mark; `none` if there is no end. -/
def commentExtent : List Char → Option Nat
  | [] => none
  | '*' :: '/' :: _ => some 2
  | _ :: cs => (commentExtent cs).map (· + 1)

def lineExtent (cs : List Char) : Nat := (cs.takeWhile fun c => !isLineEnd c).length

/-- How many characters a part of a gap has behind the first one, whether a line ends in it, and
its fault, the range of which starts at the position; `none` if a token starts here. -/
def gapPart (position : Nat) (afterLine : Bool) (c : Char) (cs : List Char) :
    Option (Nat × Bool × List SyntaxError) :=
  if isLineEnd c then some (0, true, [])
  else if isBlank c then some (0, false, [])
  else
    match c, cs with
    | '/', '/' :: more => some (lineExtent more + 1, false, [])
    | '/', '*' :: more =>
      match commentExtent more with
      | some n => some (n + 1, (more.take n).any isLineEnd, [])
      | none =>
        let stop := position + 2 + byteCount more
        some (more.length + 1, more.any isLineEnd, [⟨⟨stop, stop⟩, .unterminatedComment⟩])
    | '<', '!' :: '-' :: '-' :: more =>
      some (lineExtent more + 3, false, [⟨⟨position, position + 4⟩, .markupComment⟩])
    | '-', '-' :: '>' :: more =>
      if afterLine then
        some (lineExtent more + 2, false, [⟨⟨position, position + 3⟩, .markupComment⟩])
      else none
    | _, _ => none

/-- Skips what separates tokens. -/
def gap (position : Nat) (endsLine : Bool) (faults : List SyntaxError) : List Char → Gap
  | [] => ⟨position, [], endsLine, faults⟩
  | c :: cs =>
    match gapPart position endsLine c cs with
    | some (more, ends, found) =>
      gap (position + byteCount (c :: cs.take more)) (endsLine || ends) (faults ++ found)
        (cs.drop more)
    | none => ⟨position, c :: cs, endsLine, faults⟩
termination_by cs => cs.length
decreasing_by simp only [List.length_cons, List.length_drop]; omega

/-- A token without its place: how many characters it has, and its faults. -/
structure Lexeme where
  kind : TokenKind
  length : Nat
  faults : List SyntaxError

/-- The inside of a literal as far as it has been read: its text, last character first, where
reading stands and how many characters that is, and the faults, last first. -/
structure Inside where
  text : List Char
  position : Nat
  length : Nat
  faults : List SyntaxError

namespace Inside

def start (position : Nat) : Inside := ⟨[], position, 0, []⟩

/-- Adds characters that stand for themselves or for others. -/
def add (i : Inside) (text source : List Char) : Inside :=
  ⟨text.reverse ++ i.text, i.position + byteCount source, i.length + source.length, i.faults⟩

def value (i : Inside) : String := String.ofList i.text.reverse

end Inside

/-- Reads the inside of a string literal that starts at `start`, up to its end. -/
def stringFrom (start : Nat) (quote : Char) (i : Inside) : List Char → Lexeme
  | [] => ⟨.string i.value, i.length + 1, (⟨⟨start, i.position⟩, .unterminatedString⟩ ::
      i.faults).reverse⟩
  | '\\' :: cs =>
    match escape cs with
    | .ok e =>
      let next := i.add e.text ('\\' :: cs.take e.length)
      let octal : List SyntaxError :=
        if e.isOctal then [⟨⟨i.position, i.position + 2⟩, .legacyOctal⟩] else []
      stringFrom start quote { next with faults := octal ++ next.faults } (cs.drop e.length)
    | .error e =>
      let stop := i.position + 1 + byteCount (cs.take e.length)
      ⟨.broken ⟨⟨i.position, stop⟩, e.fault⟩, i.length + e.length + 2, i.faults.reverse⟩
  | c :: cs =>
    if c == quote then ⟨.string i.value, i.length + 2, i.faults.reverse⟩
    else if c == '\n' || c == '\r' then
      ⟨.string i.value, i.length + 1,
        (⟨⟨start, i.position⟩, .unterminatedString⟩ :: i.faults).reverse⟩
    else stringFrom start quote (i.add [c] [c]) cs
termination_by cs => cs.length
decreasing_by all_goals simp only [List.length_cons, List.length_drop]; omega

/-- How many characters of a template's text are read, what they stand for or the error of the last
wrong escape, and what follows. -/
structure Piece where
  length : Nat
  cooked : Except SyntaxError (List Char)
  /-- The number of characters of the mark behind the text, and whether it ends the template. -/
  mark : Option (Nat × Bool)

/-- A piece with one more part at its front; an error that comes later counts. -/
def Piece.after (p : Piece) (part : Except SyntaxError (List Char)) (length : Nat) : Piece :=
  let cooked :=
    match part, p.cooked with
    | .ok a, .ok b => .ok (a ++ b)
    | .error e, .ok _ => .error e
    | _, .error e => .error e
  ⟨p.length + length, cooked, p.mark⟩

/-- Reads the text of a template up to a hole or its end. A carriage return in it stands for a line
feed. -/
def piece (position : Nat) : List Char → Piece
  | [] => ⟨0, .ok [], none⟩
  | '\x60' :: _ => ⟨0, .ok [], some (1, true)⟩
  | '$' :: '\x7b' :: _ => ⟨0, .ok [], some (2, false)⟩
  | '\r' :: '\n' :: cs => (piece (position + 2) cs).after (.ok ['\n']) 2
  | '\\' :: cs =>
    match escape cs with
    | .ok e =>
      let part : Except SyntaxError (List Char) :=
        if e.isOctal then .error ⟨⟨position, position + 2⟩, .legacyOctal⟩ else .ok e.text
      (piece (position + 1 + byteCount (cs.take e.length)) (cs.drop e.length)).after part
        (e.length + 1)
    | .error e =>
      let stop := position + 1 + byteCount (cs.take e.length)
      (piece stop (cs.drop e.length)).after (.error ⟨⟨position, stop⟩, e.fault⟩) (e.length + 1)
  | c :: cs =>
    (piece (position + c.utf8Size) cs).after (.ok [if c == '\r' then '\n' else c]) 1
termination_by cs => cs.length
decreasing_by all_goals simp only [List.length_cons, List.length_drop]; omega

/-- The text of a template behind the mark that opens it or closes a hole; the template starts at
`start` and the text at `position`. -/
def templateLexeme (start position : Nat) (cs : List Char) : Lexeme :=
  let p := piece position cs
  match p.mark with
  | some (mark, isLast) =>
    ⟨.template (String.ofList (cs.take p.length)) (p.cooked.map String.ofList) isLast,
      p.length + mark + 1, []⟩
  | none =>
    ⟨.broken ⟨⟨start, position + byteCount cs⟩, .unterminatedTemplate⟩, cs.length + 1, []⟩

/-- A word as far as it has been read: its characters, last first, how many characters it has, and
whether it holds an escape. -/
structure WordPart where
  name : List Char
  length : Nat
  isEscaped : Bool
  faults : List SyntaxError

/-- Reads a word that starts at `start`. -/
def wordFrom (start position : Nat) (w : WordPart) : List Char → WordPart × Option SyntaxError
  | [] => (w, none)
  | '\\' :: 'u' :: cs =>
    match unicodeEscape cs with
    | .ok e =>
      let stop := position + 1 + e.length
      let isValid := e.text.head?.all fun c =>
        if w.name.isEmpty then Text.isIdentifierStart c else Text.isIdentifierPart c
      let faults : List SyntaxError :=
        if isValid then [] else [⟨⟨position, stop⟩, .wordCharacter⟩]
      wordFrom start stop
        ⟨e.text.reverse ++ w.name, w.length + e.length + 1, true, w.faults ++ faults⟩
        (cs.drop (e.length - 1))
    | .error e =>
      let stop := position + 1 + e.length
      (⟨w.name, w.length + 1 + e.length, true, w.faults⟩, some ⟨⟨stop, stop⟩, e.fault⟩)
  | '\\' :: _ =>
    (⟨w.name, w.length + 1, true, w.faults⟩, some ⟨⟨position, position⟩, .wordEscapeExpected⟩)
  | c :: cs =>
    if Text.isIdentifierPart c then
      wordFrom start (position + c.utf8Size) ⟨c :: w.name, w.length + 1, w.isEscaped, w.faults⟩ cs
    else (w, none)
termination_by cs => cs.length
decreasing_by all_goals simp only [List.length_cons, List.length_drop]; omega

def wordLexeme (position : Nat) (cs : List Char) : Lexeme :=
  let (w, error) := wordFrom position position ⟨[], 0, false, []⟩ cs
  let name := String.ofList w.name.reverse
  match error with
  | some e => ⟨.broken e, w.length, w.faults⟩
  | none =>
    if w.isEscaped && Text.isReserved name then
      let span : Span := ⟨position, position + byteCount (cs.take w.length)⟩
      ⟨.broken ⟨span, .escapedWord name⟩, w.length, w.faults⟩
    else ⟨.word name, w.length, w.faults⟩

/-- The token at the front of a text. -/
def lexeme (position : Nat) (c : Char) (cs : List Char) : Lexeme :=
  if c == '\\' || Text.isIdentifierStart c then wordLexeme position (c :: cs)
  else if c.isDigit || (c == '.' && (cs.head?.any Char.isDigit)) then
    let n := numeral position (c :: cs)
    ⟨n.kind, n.length, n.faults⟩
  else if c == '"' || c == '\'' then stringFrom position c (.start (position + 1)) cs
  else if c == '\x60' then templateLexeme position (position + 1) cs
  else
    match punctuator? (c :: cs) with
    | some p => ⟨.punct, p.length, []⟩
    | none => ⟨.broken ⟨⟨position, position⟩, .unexpectedCharacter c⟩, 1, []⟩

/-- The token that a lexeme at a place is. -/
def ofLexeme (l : Lexeme) (position : Nat) (cs : List Char) (afterLine : Bool)
    (faults : List SyntaxError) : Token :=
  let text := cs.take l.length
  ⟨l.kind, ⟨position, position + byteCount text⟩, String.ofList text, afterLine,
    faults ++ l.faults, cs, cs.drop l.length⟩

/-- The first token at or behind a position of a text. -/
def read (position : Nat) (afterLine : Bool) (cs : List Char) : Token :=
  let g := gap position afterLine [] cs
  match g.rest with
  | [] => ⟨.ended, ⟨g.position, g.position⟩, "", g.endsLine, g.faults, [], []⟩
  | c :: more => ofLexeme (lexeme g.position c more) g.position g.rest g.endsLine g.faults

/-- The first token of a source text. Its first line may name an interpreter, and what only strict
code forbids is allowed in it. -/
def first (cs : List Char) : Token :=
  match cs with
  | '#' :: '!' :: line =>
    let length := lineExtent line
    ofLexeme ⟨.interpreter (String.ofList (line.take length)), length + 2, []⟩ 1 cs true []
  | _ =>
    let t := read 1 true cs
    { t with faults := t.faults.filter fun e => !e.fault.isStrict }

/-- The token behind this one. -/
def next (t : Token) : Token := read t.span.hi false t.rest

/-- Reads the closing brace of a hole as the start of more text of a template that starts at
`start`. -/
def asTemplate (t : Token) (start : Nat) : Token :=
  ofLexeme (templateLexeme start (t.span.lo + 1) t.here.tail) t.span.lo t.here t.afterLine []

/-- How many characters the pattern of a regular expression has, behind its opening slash; `none`
if it has no end on the line. -/
def patternExtent (inClass : Bool) : List Char → Option Nat
  | [] => none
  | '\\' :: c :: cs =>
    if isLineEnd c then none else (patternExtent inClass cs).map (· + 2)
  | c :: cs =>
    if isLineEnd c then none
    else if c == '/' && !inClass then some 0
    else (patternExtent (c == '[' || (inClass && c != ']')) cs).map (· + 1)

/-- Reads a slash as the start of a regular expression. -/
def asRegExp (t : Token) : Token :=
  let cs := t.here.tail
  let lexeme : Lexeme :=
    match patternExtent false cs with
    | some n =>
      let flags := (cs.drop (n + 1)).takeWhile Text.isIdentifierPart
      ⟨.regExp (String.ofList (cs.take n)) (String.ofList flags), n + 2 + flags.length, []⟩
    | none =>
      let n := lineExtent cs
      let stop := t.span.lo + 1 + byteCount (cs.take n)
      ⟨.broken ⟨⟨t.span.lo, stop⟩, .unterminatedRegExp⟩, n + 1, []⟩
  ofLexeme lexeme t.span.lo t.here t.afterLine []

end Token

end PlainJs
