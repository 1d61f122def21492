import PlainJs.Node.Basic
import PlainJs.Token.Scan

namespace PlainJs

/-- What surrounds the place of a rule. -/
structure Surroundings where
  /-- A bound for the number of tokens. -/
  limit : Nat
  inFunction : Bool
  inAsync : Bool
  inGenerator : Bool
  inBreakable : Bool
  inLoop : Bool
  /-- Whether `in` is an operator here. -/
  allowIn : Bool
  /-- Whether this is no part of another statement. -/
  atTop : Bool
  labels : List String
  /-- Whether `super` has keys here. -/
  hasSuper : Bool
  /-- Whether there may be a constructor that is called here. -/
  hasNewTarget : Bool
  /-- Whether this is the value of a field or a static block, and not a function in one. -/
  inField : Bool

/-- The token to be read next, the one behind it if that has been looked at, the range of the last
token read, and the errors so far, last first. -/
structure Input where
  current : Token
  ahead : Option Token
  last : Span
  errors : List SyntaxError
  /-- The commas that end arrays and objects, by the positions where these start. -/
  commas : List (Nat × Span)
  /-- Where an arrow function may start. -/
  arrowStart : Option Nat

abbrev Parse := ReaderT Surroundings (ExceptT SyntaxError (StateM Input))

/-- What an expression is read as where a pattern must stand. -/
inductive PatternRole
  /-- The left side of an assignment. -/
  | target
  /-- A part of the left side of an assignment. -/
  | targetElement
  /-- A parameter or a part of one. -/
  | binding
deriving DecidableEq, Repr

/-- The role of the parts of a pattern. -/
def PatternRole.element : PatternRole → PatternRole
  | target | targetElement => targetElement
  | binding => binding

/-- The rules that other rules contain. -/
structure Rules where
  assignment : Parse Expr
  unary : Parse Expr
  /-- Operators behind an operand that bind tighter than a bound. -/
  operators (least : Nat) (left : Expr) : Parse Expr
  construction : Parse Expr
  access : Parse Expr
  binding : Parse Pat
  asPattern (role : PatternRole) (e : Expr) : Parse Pat
  /-- A statement; a scope has declarations among its statements. -/
  stmt (declares : Bool) : Parse Stmt

namespace Surroundings

def top (limit : Nat) : Surroundings :=
  ⟨limit, false, false, false, false, false, true, true, [], false, false, false⟩

/-- Inside a function no outer jump target is in reach. -/
def enterFunction (s : Surroundings) (isAsync isGenerator : Bool) : Surroundings :=
  ⟨s.limit, true, isAsync, isGenerator, false, false, s.allowIn, false, [], false, true, false⟩

def enterMethod (s : Surroundings) (isAsync isGenerator : Bool) : Surroundings :=
  { s.enterFunction isAsync isGenerator with hasSuper := true }

/-- An arrow function shares with its surroundings all that a call sets up. -/
def enterArrow (s : Surroundings) (isAsync : Bool) : Surroundings :=
  { s.enterFunction isAsync false with
    hasSuper := s.hasSuper, hasNewTarget := s.hasNewTarget, inField := s.inField }

/-- The value of a field and a static block are run like methods, but they return nothing. -/
def enterField (s : Surroundings) : Surroundings :=
  { s.enterMethod false false with inFunction := false, inField := true }

def enterLoop (s : Surroundings) : Surroundings :=
  { s with inBreakable := true, inLoop := true, atTop := false }

def enterSwitch (s : Surroundings) : Surroundings :=
  { s with inBreakable := true, atTop := false }

def enterLabel (s : Surroundings) (label : String) : Surroundings :=
  { s with inBreakable := true, atTop := false, labels := label :: s.labels }

def enterPart (s : Surroundings) : Surroundings := { s with atTop := false }

def withIn (s : Surroundings) (allowIn : Bool) : Surroundings := { s with allowIn := allowIn }

end Surroundings

namespace Input

/-- The input for a source text. -/
def ofText (cs : List Char) : Input :=
  let t := Token.first cs
  ⟨t, none, ⟨1, 1⟩, t.faults.reverse, [], none⟩

end Input

namespace Parse

variable {α : Type}

/-- The next token. -/
def peek : Parse Token := return (← get).current

/-- The token behind the next one. -/
def peekSecond : Parse Token := do
  let i ← get
  match i.ahead with
  | some t => return t
  | none =>
    let t := i.current.next
    set { i with ahead := some t, errors := t.faults.reverse ++ i.errors }
    return t

/-- Reads the next token; the end of the text stays. -/
def advance : Parse Token := do
  let t ← peek
  let u ← peekSecond
  modify fun i => { i with current := u, ahead := none, last := t.span }
  return t

/-- Where the next token starts. -/
def position : Parse Nat := return (← peek).span.lo

/-- The range of the last token read. -/
def lastSpan : Parse Span := return (← get).last

/-- The range from a position to the end of the last token read. -/
def spanFrom (lo : Nat) : Parse Span := return ⟨lo, (← get).last.hi⟩

/-- Adds an error to those recorded. -/
def record (e : SyntaxError) : Parse Unit :=
  modify fun i => { i with errors := e :: i.errors }

/-- Records an error and goes on. If no token can be read here, that is recorded first. -/
def reportError (e : SyntaxError) : Parse Unit := do
  match (← peek).kind with
  | .broken broken =>
    let _ ← advance
    record broken
  | _ => pure ()
  record e

def report (span : Span) (fault : SyntaxFault) : Parse Unit := reportError ⟨span, fault⟩

/-- Stops at a range. If no token can be read here, that is recorded. -/
def rejectAt (span : Span) (fault : SyntaxFault) : Parse α := do
  match (← peek).kind with
  | .broken broken =>
    let _ ← advance
    reportError broken
  | _ => pure ()
  throw ⟨span, fault⟩

/-- Stops at the next token. -/
def reject (fault : SyntaxFault) : Parse α := do
  rejectAt (← peek).span fault

/-- Stops at the next token, which is none of those wanted. -/
def rejectFor (wanted : String) : Parse α := do
  reject (.unexpected (← peek).shown wanted)

/-- Stops if no token can be read here. -/
def checkReadable : Parse Unit := do
  match (← peek).kind with
  | .broken broken =>
    let _ ← advance
    throw broken
  | _ => pure ()

def isPunct (s : String) : Parse Bool := return (← peek).isPunct s

def isWord (s : String) : Parse Bool := return (← peek).isWord s

/-- Reads a punctuator if it is next. -/
def eat (s : String) : Parse Bool := do
  if ← isPunct s then
    let _ ← advance
    return true
  else return false

/-- Reads a word if it is next. -/
def eatWord (s : String) : Parse Bool := do
  if ← isWord s then
    let _ ← advance
    return true
  else return false

def expect (s : String) : Parse Unit := do
  unless ← eat s do reject (.expected s (← peek).shown)

def expectWord (s : String) : Parse Unit := do
  unless ← eatWord s do reject (.expected s (← peek).shown)

/-- Ends a statement: by a semicolon, or without one where a statement may end. -/
def semicolon? : Parse Bool := do
  if ← eat ";" then return true else return (← peek).endsStatement

def expectSemicolon : Parse Unit := do
  unless ← semicolon? do reject (.expected ";" (← peek).shown)

/-- Repeats a step, at most `fuel` times, while it gives a new value. -/
def iterate (step : α → Parse (Option α)) : (fuel : Nat) → α → Parse α
  | 0, a => return a
  | fuel + 1, a => do
    match ← step a with
    | some b => iterate step fuel b
    | none => return a

/-- Repeats a step while it gives a new value. Such a step reads a token, so their number bounds
the repetitions. -/
def repeatFrom (a : α) (step : α → Parse (Option α)) : Parse α := do
  iterate step (← read).limit a

/-- Reads items while they are asked for. -/
def many (goesOn : Parse Bool) (item : Parse α) : Parse (List α) := do
  let items ← repeatFrom [] fun items => do
    if ← goesOn then return some ((← item) :: items) else return none
  return items.reverse

/-- Reads items with commas between them, up to the closing punctuator, which is read too. Gives
the range of a comma behind the last item. -/
def commaListWithEnd (close : String) (item : Parse α) : Parse (List α × Option Span) := do
  let (items, comma) ← repeatFrom ([], none) fun (items, _) => do
    if ← isPunct close then return none
    else
      let a ← item
      if ← isPunct close then return some (a :: items, none)
      else
        expect ","
        return some (a :: items, some (← lastSpan))
  expect close
  return (items.reverse, comma)

def commaList (close : String) (item : Parse α) : Parse (List α) :=
  Prod.fst <$> commaListWithEnd close item

/-- What the first one of two rules reads, or else the second one. -/
def firstOf (p q : Parse (Option α)) : Parse (Option α) := do
  match ← p with
  | some a => return some a
  | none => q

def allowingIn (p : Parse α) : Parse α := withReader (·.withIn true) p

/-- An expression; several with commas between them are a sequence. -/
def sequence (assignment : Parse Expr) : Parse Expr := do
  let lo ← position
  let first ← assignment
  if ← isPunct "," then
    let more ← many (isPunct ",") do
      expect ","
      assignment
    return .seq (← spanFrom lo) (.ofList (first :: more))
  else return first

/-- An identifier that is used, or bound as the name of something. -/
def ident : Parse Ident := do
  let t ← peek
  match t.word? with
  | none => reject .identifierExpected
  | some name =>
    if name == "await" then rejectAt t.span .awaitWord
    else if Text.keywords.contains name then reject .identifierExpected
    else
      if Text.strictWords.contains name then report t.span (.strictWord name)
      let _ ← advance
      return ⟨t.span, 0, name, false⟩

/-- An identifier that is bound. -/
def bindingIdent : Parse Ident := do
  let id ← ident
  if Text.unbindableWords.contains id.name then report id.span .unbindableWord
  return id

/-- A name behind a point, where any word will do. -/
def propertyName : Parse (Span × String) := do
  let t ← peek
  match t.word? with
  | some name =>
    let _ ← advance
    return (t.span, name)
  | none => reject .identifierExpected

/-- A private name, behind a point or alone. -/
def privateName : Parse (Span × String) := do
  let lo ← position
  expect "#"
  let hash ← lastSpan
  if (← position) != hash.hi then rejectAt (← spanFrom lo) .spaceInPrivateName
  let (_, name) ← propertyName
  return (← spanFrom lo, name)

/-- The key of a property behind a point. -/
def pointKey : Parse Key := do
  if ← isPunct "#" then
    let (span, name) ← privateName
    return .fixedKey span (.privateName name)
  else
    let (span, name) ← propertyName
    return .fixedKey span (.name name)

/-- Whether neither a closing brace nor the end of the text is next. -/
def isInBraces : Parse Bool := return !(← isPunct "\x7d") && !(← peek).isEnded

/-- Reads a closing brace. At the end of the text its lack is recorded. -/
def closeBrace : Parse Unit := do
  unless ← eat "\x7d" do
    let t ← peek
    report t.span (.expected "\x7d" t.shown)

/-- Statements up to a closing brace, which is read too. -/
def block (r : Rules) : Parse Block := do
  let lo ← position
  expect "\x7b"
  let stmts ← withReader (·.enterPart) (many isInBraces (r.stmt true))
  closeBrace
  return .block (← spanFrom lo) 0 (.ofList stmts)

end Parse

end PlainJs
