import PlainJs.Grammar.Expression

namespace PlainJs

namespace Parse

/-- Whether the token behind `let` makes it the start of a declaration. -/
def followsLet (t : Token) : Bool :=
  t.isPunct "[" || t.isPunct "\x7b" || t.word?.any fun s => !Text.keywords.contains s

def varKind? : Parse (Option VarKind) := do
  if ← isWord "var" then return some .var
  else if ← isWord "const" then return some .const
  else if ← isWord "let" then
    if followsLet (← peekSecond) then return some .let else return none
  else return none

/-- Whether the next word, `using`, starts a declaration. -/
def startsUsing : Parse Bool := do
  if ← isWord "using" then
    let t ← peekSecond
    return t.isAnyWord && !t.isReserved && !t.afterLine
  else return false

def isElementsNext : Parse Bool := return (← isWord "of") || (← isWord "in")

/-- What a declaration declares; in the head of a loop over elements there is no value. -/
def declarator (r : Rules) (kind : VarKind) (inHead : Bool) : Parse Declarator := do
  let lo ← position
  let target ← if kind == .var then binding r else scopedBinding r
  if inHead && (← isElementsNext) then
    return .declarator (← spanFrom lo) false target .none
  else if ← eat "=" then
    let e ← assignment r
    return .declarator (← spanFrom lo) false target (.some e)
  else
    let span ← spanFrom lo
    if kind == .const && !inHead then report span .bareConst
    else unless target.isBinder do rejectAt span .bareDestructuring
    return .declarator span false target .none

/-- What follows the word of a declaration, without its end. The last comma must not be followed
by a semicolon. -/
def declarators (r : Rules) (kind : VarKind) (inHead : Bool) : Parse (List Declarator) := do
  let word ← lastSpan
  let (decls, _) ← repeatFrom (([], false) : List Declarator × Bool) fun (decls, isDone) => do
    if isDone then return none
    else if ← isPunct ";" then
      let last ← lastSpan
      report (if last == word then ⟨last.hi, last.hi⟩ else last) .trailingComma
      return none
    else
      let d ← declarator r kind inHead
      let goesOn ← eat ","
      return some (d :: decls, !goesOn)
  return decls.reverse

/-- Ends a declaration. A missing semicolon is recorded, and all up to the next one is left out. -/
def endDeclaration (r : Rules) : Parse Unit := do
  unless ← semicolon? do
    report (← peek).span .semicolonExpected
    try
      let _ ← expr r
    catch _ => pure ()
    let _ ← repeatFrom false fun isDone => do
      if isDone || (← semicolon?) then return none
      else
        let _ ← advance
        return some (← peek).isBroken

def varDecl (r : Rules) (kind : VarKind) : Parse VarDecl := do
  let t ← advance
  let decls ← declarators r kind false
  endDeclaration r
  return .varDecl (← spanFrom t.span.lo) 0 kind false (.ofList decls)

def isNamed : Declarator → Bool
  | .declarator _ _ target _ => target.isBinder

def hasInit : Declarator → Bool
  | .declarator _ _ _ init => init.toOption.isSome

/-- A declaration by `using`, which starts at `lo`. -/
def usingDecl (r : Rules) (lo : Nat) (isAwait : Bool) : Parse (Node .decl) := do
  let _ ← advance
  let decls ← declarators r .var false
  endDeclaration r
  let span ← spanFrom lo
  decls.forM fun d => do
    unless isNamed d do report span .usingName
    unless hasInit d do report span .bareUsing
  return .declUsing span isAwait (.ofList decls)

/-- A function declaration, if one is next. -/
def funcDecl? (r : Rules) : Parse (Option (Node .decl)) := do
  let lo ← position
  match ← functionStart? with
  | none => return none
  | some (isAsync, isGenerator) =>
    let name ← bindingIdent
    return some (.declFunc false name (← functionParts r lo isAsync isGenerator))

/-- A class declaration, if one is next. -/
def classDecl? (r : Rules) : Parse (Option (Node .decl)) := do
  let lo ← position
  if ← eatWord "class" then
    let name ← bindingIdent
    return some (.declClass false name (← classParts r lo))
  else return none

/-- An expression in parentheses behind the word of a statement. -/
def header (r : Rules) : Parse Expr := do
  expect "("
  let e ← expr r
  expect ")"
  return e

/-- A statement that is a part of another one. -/
def subStmt (r : Rules) : Parse Stmt := withReader (·.enterPart) (r.stmt false)

def loopBody (r : Rules) : Parse Stmt := withReader (·.enterLoop) (r.stmt false)

def ifStmt (r : Rules) : Parse Stmt := do
  let lo ← position
  expectWord "if"
  let test ← header r
  let yes ← subStmt r
  let no ← if ← eatWord "else" then .some <$> subStmt r else pure .none
  return .ifStmt (← spanFrom lo) test yes no

def whileStmt (r : Rules) : Parse Stmt := do
  let lo ← position
  expectWord "while"
  let test ← header r
  let body ← loopBody r
  return .whileStmt (← spanFrom lo) test body

def doWhileStmt (r : Rules) : Parse Stmt := do
  let lo ← position
  expectWord "do"
  let body ← loopBody r
  expectWord "while"
  let test ← header r
  let _ ← eat ";"
  return .doWhileStmt (← spanFrom lo) test body

/-- The head of a `for` loop. -/
inductive LoopHead
  | counted (init : Node (.opt .forInit)) (test update : Node (.opt .expr))
  | keys (head : Node .forHead) (subject : Expr)
  | elements (head : Node .forHead) (subject : Expr)

/-- What a declarator declares. -/
def declaredSpan : Declarator → Span
  | .declarator _ _ target _ => target.span

/-- Checks that the head of a loop over elements declares one thing without a value. -/
def checkHead (decls : List Declarator) : Parse Unit :=
  match decls with
  | [d] => if hasInit d then report (declaredSpan d) .headInitializer else pure ()
  | ds => (ds.drop 1).forM fun d => report (declaredSpan d) .headBindings

/-- The head of a counted loop behind its start. A loop without an update may lack the second
semicolon. -/
def countedHead (r : Rules) (init : Node (.opt .forInit)) : Parse LoopHead := do
  expect ";"
  let test ← do
    if ← eat ";" then pure Node.none
    else
      let e ← allowingIn (expr r)
      let _ ← eat ";"
      pure (.some e)
  let update ← if ← isPunct ")" then pure Node.none else .some <$> allowingIn (expr r)
  return .counted init test update

/-- The head of a loop over keys or elements behind what is assigned. -/
def elementsHead (r : Rules) (head : Node .forHead) : Parse LoopHead := do
  if ← eatWord "of" then return .elements head (← allowingIn (assignment r))
  else
    expectWord "in"
    match head with
    | .headUsing span _ _ => report span .usingInHead
    | _ => pure ()
    return .keys head (← allowingIn (expr r))

/-- A head that starts with a declaration. What is declared in the scope of the loop starts with a
value that may hold the operator `in`. -/
def declaredHead (r : Rules) (kind : VarKind) : Parse LoopHead := do
  let t ← advance
  let decls ← withReader (·.withIn (kind != .var)) (declarators r kind true)
  let v : VarDecl := .varDecl (← spanFrom t.span.lo) 0 kind false (.ofList decls)
  if ← isElementsNext then
    checkHead decls
    elementsHead r (.headDecl v)
  else countedHead r (.some (.initDecl v))

/-- Whether an expression is the word `using`. -/
def isUsing : Expr → Bool
  | .ref id => id.name == "using"
  | _ => false

/-- What an expression starts if it is the start of a declaration by `using`: one that waits or one
that does not. -/
def usingStart? : Expr → Option Bool
  | .awaitExpr _ e => if isUsing e then some true else none
  | e => if isUsing e then some false else none

/-- Whether a declaration by `using` in the head of a loop, which starts with an expression, waits;
`none` if the name of one is not next. -/
def usingHead? (e : Expr) : Parse (Option Bool) := do
  let t ← peek
  if (usingStart? e).isSome && t.isAnyWord && !t.isReserved && !t.isWord "of" then
    let u ← peekSecond
    return if u.isWord "of" || u.isWord "in" then usingStart? e else none
  else return none

def expressionHead (r : Rules) : Parse LoopHead := do
  let lo ← position
  let e ← withReader (·.withIn false) (expr r)
  match ← usingHead? e with
  | some isAwait =>
    let id ← bindingIdent
    let span ← spanFrom lo
    elementsHead r (.headUsing span isAwait (.ofList [.declarator span false (.binder id) .none]))
  | none =>
    if ← isElementsNext then elementsHead r (.headPat (← asPattern r .target e))
    else countedHead r (.some (.initExpr e))

def loopHead (r : Rules) : Parse LoopHead := do
  match ← varKind? with
  | some kind => declaredHead r kind
  | none => if ← isPunct ";" then countedHead r .none else expressionHead r

def forStmt (r : Rules) : Parse Stmt := do
  let lo ← position
  expectWord "for"
  let here ← position
  let isAwait ← eatWord "await"
  let await ← spanFrom here
  expect "("
  let head ← loopHead r
  expect ")"
  let body ← loopBody r
  let span ← spanFrom lo
  match head with
  | .elements head subject => return .forOfStmt span isAwait head subject body
  | .counted init test update =>
    if isAwait then rejectAt await .awaitInHead
    return .forStmt span init test update body
  | .keys head subject =>
    if isAwait then rejectAt await .awaitInHead
    return .forInStmt span head subject body

def clause (r : Rules) (hasDefault : Bool) : Parse (Clause × Bool) := do
  let t ← advance
  let isDefault := t.isWord "default"
  if isDefault && hasDefault then reject .secondDefault
  let test ← if isDefault then pure Node.none else .some <$> expr r
  expect ":"
  let goesOn : Parse Bool := do
    let t ← peek
    return !(t.isWord "case" || t.isWord "default" || t.isPunct "\x7d" || t.isEnded)
  let body ← many goesOn (r.stmt true)
  return (.clause (← spanFrom t.span.lo) test (.ofList body), isDefault)

def switchStmt (r : Rules) : Parse Stmt := do
  let lo ← position
  expectWord "switch"
  let subject ← header r
  expect "\x7b"
  let (clauses, _) ← withReader (·.enterSwitch) <|
    repeatFrom (([], false) : List Clause × Bool) fun (clauses, hasDefault) => do
      if (← isWord "case") || (← isWord "default") then
        let (c, isDefault) ← clause r hasDefault
        return some (c :: clauses, hasDefault || isDefault)
      else return none
  expect "\x7d"
  return .switchStmt (← spanFrom lo) subject (.ofList clauses.reverse)

def handler (r : Rules) : Parse (Node (.opt .handler)) := do
  let lo ← position
  if ← eatWord "catch" then
    let caught ←
      if ← eat "(" then
        let p ← binding r
        expect ")"
        pure (Node.some p)
      else pure .none
    let body ← block r
    return .some (.handler (← spanFrom lo) caught body)
  else return .none

def finalizer (r : Rules) : Parse (Node (.opt .block)) := do
  if ← eatWord "finally" then .some <$> block r else return .none

def tryStmt (r : Rules) : Parse Stmt := do
  let lo ← position
  expectWord "try"
  let body ← block r
  let here ← position
  let caught ← handler r
  let last ← finalizer r
  if caught.toOption.isNone && last.toOption.isNone then
    report ⟨here, here⟩ .semicolonExpected
  return .tryStmt (← spanFrom lo) body caught last

/-- The clauses of a `try` statement that lacks its start; what they hold is left out. -/
def strayClauses (r : Rules) : Parse Stmt := do
  let t ← peek
  report t.span .semicolonExpected
  try
    let _ ← handler r
  catch _ => pure ()
  try
    let _ ← finalizer r
  catch _ => pure ()
  return .exprStmt t.span (unreadable t.span)

def throwStmt (r : Rules) : Parse Stmt := do
  let lo ← position
  expectWord "throw"
  if (← peek).afterLine then reject .lineBreakInThrow
  let e ← expr r
  expectSemicolon
  return .throwStmt (← spanFrom lo) e

/-- What a `return` statement gives, up to its end. -/
def returned (r : Rules) : Parse (Node (.opt .expr)) := do
  if ← semicolon? then return .none
  else
    let e ← expr r
    expectSemicolon
    return .some e

/-- A `return` statement; outside functions it is an error, even if it holds another one. -/
def returnStmt (r : Rules) : Parse Stmt := do
  let lo ← position
  expectWord "return"
  let value ← tryCatch (Except.ok <$> returned r) fun e => pure (.error e)
  let span ← spanFrom lo
  unless (← read).inFunction do report span .returnOutside
  match value with
  | .ok value => return .returnStmt span value
  | .error e => throw e

/-- The label of a jump, up to the end of the statement. -/
def jumpLabel : Parse (Option Ident) := do
  if ← semicolon? then return none
  else
    let id ← ident
    expectSemicolon
    return some id

def breakStmt : Parse Stmt := do
  let lo ← position
  expectWord "break"
  let label ← jumpLabel
  let span ← spanFrom lo
  let here ← read
  if label.any fun id => !here.labels.contains id.name then report span .breakLabel
  else unless here.inBreakable do report span .breakTarget
  return .breakStmt span label

def continueStmt : Parse Stmt := do
  let lo ← position
  expectWord "continue"
  let label ← jumpLabel
  let span ← spanFrom lo
  let here ← read
  unless here.inLoop do report span .continueTarget
  if here.inLoop && label.any fun id => !here.labels.contains id.name then
    report span .continueLabel
  return .continueStmt span label

def debuggerStmt : Parse Stmt := do
  let t ← advance
  expectSemicolon
  return .debuggerStmt (← spanFrom t.span.lo)

/-- A `with` statement, which no module may have. -/
def withStmt (r : Rules) : Parse Stmt := do
  let t ← peek
  report t.span .withStatement
  expectWord "with"
  let e ← header r
  let body ← withReader (fun s => { s.enterPart with inFunction := true }) (r.stmt false)
  return .withStmt (← spanFrom t.span.lo) e body

/-- A function declaration as the body of a label, where it must not stand. -/
def checkLabeled (d : Node .decl) : Parse Unit := do
  match d with
  | .declFunc _ _ (.func span _ isGenerator isAsync _ _ _) =>
    report span .labeledFunction
    if isGenerator || isAsync then report span .labeledGenerator
  | _ => pure ()

/-- A labeled statement behind its label and colon. The label is compared with those around it once
the body is read. -/
def labeledStmt (r : Rules) (label : Ident) : Parse Stmt := do
  let body ← withReader (·.enterLabel label.name) do
    if ← isWord "function" then
      match ← funcDecl? r with
      | some d =>
        checkLabeled d
        pure (Node.declStmt d)
      | none => r.stmt false
    else r.stmt false
  ((← read).labels.filter (· == label.name)).forM fun s => report label.span (.duplicateLabel s)
  return .labeledStmt (← spanFrom label.span.lo) label body

/-- An expression as a statement. An operator behind it is recorded as an error, and the operand
behind that is read too. -/
def exprStmtRest (r : Rules) (lo : Nat) (e : Expr) : Parse Stmt := do
  if ← semicolon? then return .exprStmt (← spanFrom lo) e
  else
    let t ← peek
    if !t.isAnyWord && (binaryOp? true t).isSome then
      report t.span .semicolonExpected
      let e ← operators r 0 e
      return .exprStmt (← spanFrom lo) e
    else reject .statementEnd

/-- A labeled statement or an expression. -/
def otherStmt (r : Rules) : Parse Stmt := do
  let lo ← position
  let e ← expr r
  match e with
  | .ref id => if ← eat ":" then labeledStmt r id else exprStmtRest r lo e
  | _ => exprStmtRest r lo e

/-- A statement that starts with `await`: a declaration that waits, or waiting for a value. -/
def awaitStmt (r : Rules) (declares : Bool) : Parse Stmt := do
  let t ← advance
  if declares && (← startsUsing) then return .declStmt (← usingDecl r t.span.lo true)
  else
    let e ← operators r 0 (← awaitRest r t.span)
    let _ ← eat ";"
    return .exprStmt (← spanFrom t.span.lo) e

/-- Whether the next word, `import`, starts an expression. -/
def isImportExpr : Parse Bool := do
  let t ← peekSecond
  return t.isPunct "(" || t.isPunct "."

/-- An expression that starts with `import`; the word starts no other statement. -/
def importStmt (r : Rules) : Parse Stmt := do
  if ← isImportExpr then
    let lo ← position
    let e ← expr r
    let _ ← eat ";"
    return .exprStmt (← spanFrom lo) e
  else reject .importOutside

/-- A statement that a word starts; `none` if the word starts none. -/
def wordStmt? (r : Rules) (word : String) : Option (Parse Stmt) :=
  match word with
  | "if" => some (ifStmt r)
  | "for" => some (forStmt r)
  | "while" => some (whileStmt r)
  | "do" => some (doWhileStmt r)
  | "switch" => some (switchStmt r)
  | "try" => some (tryStmt r)
  | "catch" | "finally" => some (strayClauses r)
  | "throw" => some (throwStmt r)
  | "return" => some (returnStmt r)
  | "break" => some breakStmt
  | "continue" => some continueStmt
  | "debugger" => some debuggerStmt
  | "with" => some (withStmt r)
  | "import" => some (importStmt r)
  | "export" => some (reject .importOutside)
  | _ => none

/-- A declaration, if one is next that may stand here. A function or a class is read anywhere. -/
def declaration? (r : Rules) (declares : Bool) : Parse (Option (Node .decl)) := do
  let t ← peek
  if (t.isWord "function" || t.isWord "class") && !declares then
    report t.span .declarationNotAllowed
  match ← firstOf (funcDecl? r) (classDecl? r) with
  | some d => return some d
  | none =>
    match ← varKind? with
    | some kind =>
      if declares || kind == .var then return some (.declVar (← varDecl r kind)) else return none
    | none =>
      if declares && (← startsUsing) then return some (← usingDecl r t.span.lo false)
      else return none

def stmt (r : Rules) (declares : Bool) : Parse Stmt := allowingIn do
  let t ← peek
  if t.isPunct "\x7b" then return .blockStmt (← block r)
  else if ← eat ";" then return .emptyStmt t.span
  else
    match t.word?.bind (wordStmt? r) with
    | some p => p
    | none =>
      if t.isWord "await" && ((← read).atTop || declares && (← peekSecond).isWord "using") then
        awaitStmt r declares
      else
        match ← declaration? r declares with
        | some d => return .declStmt d
        | none => otherStmt r

end Parse

namespace Rules

/-- No rule at all. -/
def none : Rules :=
  let fail {α : Type} : Parse α := Parse.reject .expressionExpected
  ⟨fail, fail, fun _ _ => fail, fail, fail, fail, fun _ _ => fail, fun _ => fail⟩

/-- The rules for what is nested one deeper. -/
def deeper (r : Rules) : Rules :=
  ⟨Parse.assignment r, Parse.unary r, Parse.operators r, Parse.construction r, Parse.access r,
    Parse.binding r, Parse.asPattern r, Parse.stmt r⟩

/-- The rules for programs that are nested at most `depth` deeper than those of `r`. -/
def upTo : (depth : Nat) → (r : Rules) → Rules
  | 0, r => r
  | depth + 1, r => upTo depth r.deeper

end Rules

end PlainJs
