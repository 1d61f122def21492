import PlainJs.Lowering.Declarations

namespace PlainJs

/-- Why a loop is left as it is. -/
inductive LoopFault
  | forAwait
  /-- The lowered loop reads the global `Symbol`, which is bound here. -/
  | symbolBound
  | initialisedHead
  /-- The lowered loop calls the key helper, whose name is bound here. -/
  | helperBound
  | severalDeclarators
  | usingHead
  | headTarget
deriving DecidableEq, Repr

def LoopFault.message : LoopFault → String
  | forAwait => "`for await` loop"
  | symbolBound => "`for-of` loop where `Symbol` is a local binding"
  | initialisedHead => "initialised `for-in` head"
  | helperBound => "`for-in` loop where the key helper's name is a local binding"
  | severalDeclarators => "loop head with several declarators"
  | usingHead => "`using` declaration in a loop head"
  | headTarget => "unsupported assignment target in a loop head"

/-- What a lowered `for-of` or `for-in` loop does with the value of a step. -/
inductive StepBinding
  | declare (v : VarDecl)
  | assign (target : Pat)

namespace Node

/-- Whether a function or arrow function is created anywhere in a tree. -/
def createsClosure {c : Cat} (n : Node c) : Bool :=
  match c, n with
  | _, .func .. => true
  | _, .arrow .. => true
  | _, n => n.children.attach.any fun ⟨⟨_, k⟩, _⟩ => k.createsClosure
termination_by sizeOf n
decreasing_by exact Node.sizeOf_lt_of_mem_children ‹_›

def isInitialised : Declarator → Bool
  | .declarator _ _ _ (.some _) => true
  | _ => false

def initialise (value : Expr) : Declarator → Declarator
  | .declarator span definite p _ => .declarator span definite p (.some value)

/-- A declaration whose first declarator has the given initializer. -/
def initialiseFirst (value : Expr) : VarDecl → VarDecl
  | .varDecl span ctxt kind declare decls =>
    .varDecl span ctxt kind declare (.ofList (decls.toList.modifyHead (initialise value)))

def varKind : VarDecl → VarKind
  | .varDecl _ _ kind _ _ => kind

/-- How the head of a loop takes the value of a step. -/
def stepBinding : Node .forHead → Except LoopFault StepBinding
  | .headDecl v =>
    if v.declarators.length = 1 then .ok (.declare v) else .error .severalDeclarators
  | .headUsing .. => .error .usingHead
  | .headPat p =>
    match p.assignTarget? with
    | .some target => .ok (.assign target)
    | .none => .error .headTarget

/-- Whether a loop head declares something with an initializer. -/
def isInitialisedHead : Node .forHead → Bool
  | .headDecl v => v.declarators.any isInitialised
  | _ => false

end Node

namespace Loops

open Node Build

/-- The body of a lowered loop, with a label. -/
def labeledBody (body : Stmt) : Lower Stmt := do
  let fresh : Lower Stmt := do
    let label ← Lower.freshLabel "L"
    return labeled label (.blockStmt (intoBlock body))
  match body with
  | .labeledStmt _ label _ => if (← get).names.isMadeLabel label.name then return body else fresh
  | _ => fresh

/-- The statements before a lowered `for` loop. -/
def prelude : Node (.opt .forInit) → Lower (List Stmt)
  | .none => return []
  | .some (.initDecl v) => Declarations.splitIfNeeded v
  | .some (.initExpr e) => return [Build.exprStmt e]

/-- Whether the head of a `for` loop binds a name afresh for each iteration. -/
def bindsPerIteration : Node (.opt .forInit) → Bool
  | .some (.initDecl v) => v.varKind != .var
  | _ => false

def lowerFor (span : Span) (init : Node (.opt .forInit)) (test update : Node (.opt .expr))
    (body : Stmt) : Lower Stmt := do
  if bindsPerIteration init &&
      (body.createsClosure || test.createsClosure || update.createsClosure) then
    Lower.limitation span "closures created in this loop share one binding for all iterations"
  let before ← prelude init
  let body ← labeledBody body
  let body := body :: (update.toOption.map Build.exprStmt).toList
  let test := test.toOption.getD (Build.bool true)
  if before.isEmpty then return whileDo span test body
  return Build.blockStmt span (before ++ [whileDo .none test body])

def lowerDoWhile (span : Span) (test : Expr) (body : Stmt) : Lower Stmt := do
  let body ← labeledBody body
  let leave := ifElse (Build.not test) (breakTo .none) .none
  return whileDo span (Build.bool true) [body, leave]

/-- The statements that bind the value of a step. -/
def bindStep (value : Expr) : StepBinding → Lower (List Stmt)
  | .declare v => Declarations.splitIfNeeded (Node.initialiseFirst value v)
  | .assign target => return [Build.exprStmt (Build.assign target value)]

/-- The loop over an iterator that `init` makes:

    {
        let iter = init;
        let step;
        while (!(step = iter.next()).done) { const x = step.value; L: { body } }
    }
-/
def iterate (span : Span) (hint : String) (init : Expr) (head : StepBinding) (body : Stmt) :
    Lower Stmt := do
  let iterator ← Lower.fresh hint
  let step ← Lower.fresh "step"
  let bound ← bindStep (Build.member (.ref step) "value") head
  let body ← labeledBody body
  let next := Build.call (Build.member (.ref iterator) "next") []
  let test := Build.not (Build.member (assignTo step next) "done")
  return Build.blockStmt span
    [declare .let iterator (.some init), declare .let step .none,
      whileDo .none test (bound ++ [body])]

/-- How a `for-of` loop takes its values, or why it is left as it is. -/
def checkForOf (span : Span) (isAwait : Bool) (head : Node .forHead) :
    Lower (Except LoopFault StepBinding) := do
  if isAwait then return .error .forAwait
  if ← Lower.isBoundAt "Symbol" span then return .error .symbolBound
  return stepBinding head

/-- How a `for-in` loop takes its keys, or why it is left as it is. -/
def checkForIn (span : Span) (head : Node .forHead) : Lower (Except LoopFault StepBinding) := do
  if head.isInitialisedHead then return .error .initialisedHead
  if ← Lower.isBoundAt (← get).config.keyHelper span then return .error .helperBound
  return stepBinding head

def lowerForOf (span : Span) (isAwait : Bool) (head : Node .forHead) (subject : Expr)
    (body : Stmt) : Lower Stmt := do
  match ← checkForOf span isAwait head with
  | .error fault =>
    Lower.unsupported span fault.message
    return .forOfStmt span isAwait head subject body
  | .ok binding =>
    let init := Build.call (computed subject (Build.member (Build.name "Symbol") "iterator")) []
    iterate span "iter" init binding body

def lowerForIn (span : Span) (head : Node .forHead) (subject : Expr) (body : Stmt) :
    Lower Stmt := do
  match ← checkForIn span head with
  | .error fault =>
    Lower.unsupported span fault.message
    return .forInStmt span head subject body
  | .ok binding =>
    let init := Build.call (Build.name (← get).config.keyHelper) [subject]
    iterate span "keys" init binding body

/-- Lowers a loop whose parts are lowered already. -/
def lowerLoop : Stmt → Lower Stmt
  | .forStmt span i t u b => lowerFor span i t u b
  | .doWhileStmt span t b => lowerDoWhile span t b
  | .forOfStmt span isAwait h e b => lowerForOf span isAwait h e b
  | .forInStmt span h e b => lowerForIn span h e b
  | s => return s

end Loops

/-- Turns every loop of a program into a `while` loop over a labelled body, inner loops before outer
ones. -/
def lowerLoops (p : Program) : Lower Program := Lower.bottomUp Loops.lowerLoop p

end PlainJs
