import PlainJs.Grammar.Pattern

namespace PlainJs

namespace Node

/-- Whether a statement is a string alone. -/
def isDirective : Stmt → Bool
  | .exprStmt _ (.atom _ (.str _ _)) => true
  | _ => false

/-- The range of the directive for strict code among the directives that start a block. -/
def strictDirective? (b : Block) : Option Span :=
  (b.blockStmts.toList.takeWhile isDirective).findSome? fun
    | .exprStmt span (.atom _ (.str "use strict" _)) => .some span
    | _ => .none

/-- Whether a key names the constructor of a class. -/
def namesConstructor : Key → Bool
  | .fixedKey _ (.name name) | .fixedKey _ (.str name _) => name == "constructor"
  | _ => false

/-- The range of a member if that is the constructor of its class. -/
def constructorSpan? : Node .member → Option Span
  | .ctorMember span _ _ _ _ => .some span
  | _ => .none

end Node

namespace Parse

/-- The body of a function; strictness cannot be chosen behind parameters that are not plain. -/
def functionBlock (r : Rules) (params : List Pat) : Parse Block := do
  let body ← block r
  unless params.all Node.isBinder do
    body.strictDirective?.forM fun span => report span .strictDirective
  return body

def plainParams (params : List Pat) : Node (.list .param) :=
  .ofList (params.map fun p => .param p.span .nil p)

/-- The parameters, which are checked, and the body of a function that starts at `lo`. -/
def functionRest (r : Rules) (lo : Nat) (isAsync isGenerator : Bool)
    (check : List Pat → Parse Unit) : Parse (Node .func) := do
  let params ← parameters r
  check params
  let body ← functionBlock r params
  return .func (← spanFrom lo) 0 isGenerator isAsync (plainParams params) .nil (.some body)

/-- The parameters and the body of a function that starts at `lo`. -/
def functionParts (r : Rules) (lo : Nat) (isAsync isGenerator : Bool) : Parse (Node .func) :=
  withReader (·.enterFunction isAsync isGenerator) <|
    functionRest r lo isAsync isGenerator fun _ => pure ()

/-- The parameters and the body of a method; the member starts at `lo`. -/
def methodParts (r : Rules) (lo : Nat) (isAsync isGenerator : Bool) : Parse (Node .func) :=
  withReader (·.enterMethod isAsync isGenerator) <|
    functionRest r lo isAsync isGenerator fun _ => pure ()

/-- Checks that a getter takes nothing, and a setter one value. -/
def checkAccessor (span : Span) (isGetter : Bool) (params : List Pat) : Parse Unit := do
  if isGetter then
    unless params.isEmpty do report span .getterParameter
  else
    unless params.length == 1 do report span .setterParameter
    match params with
    | .restPat rest _ _ :: _ => report rest .setterRest
    | _ => pure ()

/-- The words that start a function, if they are next: whether it is asynchronous, and whether it
is a generator. -/
def functionStart? : Parse (Option (Bool × Bool)) := do
  let isAsync ← do
    if ← isWord "async" then
      let t ← peekSecond
      pure (t.isWord "function" && !t.afterLine)
    else pure false
  if isAsync then
    let _ ← advance
  if ← eatWord "function" then return some (isAsync, ← eat "*") else return none

/-- The name of a function or a class that may have one. -/
def ownName? : Parse (Option Ident) := do
  let t ← peek
  if t.isAnyWord && !t.isReserved then some <$> bindingIdent else return none

/-- The key of a member of a class. -/
def memberKey (r : Rules) : Parse Key := do
  if ← isPunct "#" then
    let (span, name) ← privateName
    if name == "constructor" then report span .privateConstructor
    return .fixedKey span (.privateName name)
  else propertyKey r

/-- Whether a key that has been read names a field; `orLine` tells whether the line may end it. -/
def isFieldNext (orLine : Bool) : Parse Bool := do
  let t ← peek
  return t.isPunct "=" || t.isPunct "\x7d" || t.isPunct ";" || orLine && t.endsStatement

/-- A field behind its key. A missing semicolon is recorded. -/
def fieldMember (r : Rules) (lo : Nat) (isStatic : Bool) (key : Key) : Parse (Node .member) := do
  if key.namesConstructor then report key.span .constructorField
  let value ←
    if ← eat "=" then .some <$> withReader (·.enterField.withIn true) r.assignment
    else pure .none
  unless ← semicolon? do report (← peek).span .semicolonExpected
  return .fieldMember (← spanFrom lo) 0 isStatic key value .nil

/-- A method behind its key. -/
def classMethod (r : Rules) (lo : Nat) (isStatic isAsync isGenerator : Bool) (key : Key) :
    Parse (Node .member) := do
  let f ← methodParts r lo isAsync isGenerator
  return .methodMember (← spanFrom lo) .method isStatic key f

def constructorMember (r : Rules) (lo : Nat) (key : Key) : Parse (Node .member) :=
  withReader (·.enterMethod false false) do
    let params ← parameters r
    let body ← functionBlock r params
    return .ctorMember (← spanFrom lo) 0 key (plainParams params) (.some body)

/-- A getter or a setter behind the word for it, which stands at `word`. -/
def classAccessor (r : Rules) (lo : Nat) (isStatic isGetter : Bool) (word : Span) :
    Parse (Node .member) := do
  let key ← memberKey r
  if key.namesConstructor && !isStatic then report word .constructorAccessor
  let f ← withReader (·.enterMethod false false) <|
    functionRest r lo false false (checkAccessor word isGetter)
  return .methodMember (← spanFrom lo) (if isGetter then .getter else .setter) isStatic key f

/-- An asynchronous method behind the word for it. -/
def asyncMember (r : Rules) (lo : Nat) (isStatic : Bool) : Parse (Node .member) := do
  let isGenerator ← eat "*"
  let key ← memberKey r
  if key.namesConstructor && !isStatic then rejectAt key.span .asyncConstructor
  classMethod r lo isStatic true isGenerator key

/-- A member behind its key or a word that looks like one, where no parameters follow. -/
def wordMember (r : Rules) (lo : Nat) (isStatic : Bool) (key : Key) : Parse (Node .member) := do
  let t ← peek
  let word := match key with
    | .fixedKey _ (.name name) => name
    | _ => ""
  let isAccessor := (word == "get" || word == "set") && !(t.afterLine && t.isPunct "*")
  if isAccessor && !(← isFieldNext false) then
    classAccessor r lo isStatic (word == "get") key.span
  else if ← isFieldNext true then fieldMember r lo isStatic key
  else if word == "async" && !t.afterLine then asyncMember r lo isStatic
  else rejectFor "* for generator, private key, identifier or async"

def staticBlock (r : Rules) (lo : Nat) : Parse (Node .member) := do
  let body ← withReader (·.enterField) (block r)
  return .staticBlock (← spanFrom lo) body

/-- A member that starts at `lo`, behind the word `static` if it has that. -/
def memberRest (r : Rules) (lo : Nat) (isStatic : Bool) : Parse (Node .member) := do
  if isStatic && (← isPunct "\x7b") then staticBlock r lo
  else if ← eat "*" then
    let key ← memberKey r
    if key.namesConstructor && !isStatic then rejectAt key.span .generatorConstructor
    classMethod r lo isStatic false true key
  else
    let key ← memberKey r
    if ← isPunct "(" then
      if key.namesConstructor && !isStatic then constructorMember r lo key
      else classMethod r lo isStatic false false key
    else wordMember r lo isStatic key

/-- A member of a class; `static` is a key where no other one follows it. -/
def classMember (r : Rules) : Parse (Node .member) := do
  let t ← peek
  if ← eat ";" then return .emptyMember t.span
  else if ← eatWord "static" then
    let key : Key := .fixedKey t.span (.name "static")
    if ← isPunct "(" then classMethod r t.span.lo false false false key
    else if ← isFieldNext false then fieldMember r t.span.lo false key
    else memberRest r t.span.lo true
  else memberRest r t.span.lo false

/-- The members of a class, among which one constructor is allowed. -/
def classMembers (r : Rules) : Parse (List (Node .member)) := do
  let members ← many isInBraces (classMember r)
  (members.filterMap Node.constructorSpan?).tail.forM fun span => report span .secondConstructor
  return members

/-- What follows the name of a class that starts at `lo`. -/
def classParts (r : Rules) (lo : Nat) : Parse (Node .cls) := do
  let parent ← if ← eatWord "extends" then .some <$> r.access else pure .none
  expect "\x7b"
  let members ← classMembers r
  closeBrace
  return .cls (← spanFrom lo) 0 .nil (.ofList members) parent

end Parse

end PlainJs
