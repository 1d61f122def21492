import PlainJs.Lowering.Context
import PlainJs.Node.Build

namespace PlainJs

/-- Why a `switch` is left as it is. -/
inductive SwitchFault
  | usingDeclaration
  | destructuring
deriving DecidableEq, Repr

def SwitchFault.message : SwitchFault → String
  | usingDeclaration => "`using` declaration in a case body"
  | destructuring => "destructuring lexical declaration in a case body"

namespace Switches

open Node Build

/-- A clause: its test, absent for `default`, and its statements. -/
structure Case where
  test : Option Expr
  body : List Stmt

def Case.ofClause : Clause → Case
  | .clause _ test body => ⟨test.toOption, body.toList⟩

/-- Why a statement of a clause cannot be moved, with the range of the statement. -/
def stmtFault : Stmt → Option (Span × SwitchFault)
  | .declStmt (.declUsing span _ _) => .some (span, .usingDeclaration)
  | .declStmt (.declVar (.varDecl span _ kind _ decls)) =>
    let isPlain : Declarator → Bool
      | .declarator _ _ (.binder _) _ => true
      | _ => false
    if kind != .var && !decls.toList.all isPlain then .some (span, .destructuring) else .none
  | _ => .none

/-- The first statement of the clauses that cannot be moved. -/
def fault (cases : List Case) : Option (Span × SwitchFault) :=
  (cases.flatMap (·.body)).findSome? stmtFault

/-- Whether breaks inside a node cannot mean a `switch` around it. -/
def shieldsBreaks : {c : Cat} → Node c → Bool
  | _, .switchStmt .. | _, .func .. | _, .arrow .. | _, .cls .. => true
  | _, n => n.isLoop

/-- Points the unlabelled breaks of a tree at a label, apart from those that leave something
inside the tree. -/
def retarget (label : Ident) {c : Cat} (n : Node c) : Node c :=
  match c, n with
  | _, .breakStmt span .none => .breakStmt span (.some label)
  | _, n =>
    if shieldsBreaks n then n
    else Id.run (n.traverse fun k _ => pure (retarget label k))
termination_by sizeOf n
decreasing_by exact Node.sizeOf_lt_of_mem_children ‹_›

/-- What the clauses declare in the scope that they share. -/
structure Hoisted where
  names : List Ident
  functions : List Stmt

namespace Hoisted

def none : Hoisted := ⟨[], []⟩

def append (a b : Hoisted) : Hoisted := ⟨a.names ++ b.names, a.functions ++ b.functions⟩

def isEmpty (h : Hoisted) : Bool := h.names.isEmpty && h.functions.isEmpty

/-- The declarations before the clauses. -/
def stmts (h : Hoisted) : List Stmt :=
  h.names.map (fun id => declare .let id .none) ++ h.functions

end Hoisted

/-- A declarator of a clause: an assignment in its place and the name to declare. -/
def hoistDeclarator (kind : VarKind) : Declarator → List Stmt × Hoisted
  | .declarator span _ p init =>
    match p with
    | .binder id =>
      let value := init.toOption.getD undefined
      ([Build.exprStmt (assignTo id value)], ⟨[id], []⟩)
    | p => ([declarePat span kind p init.toOption], .none)

/-- Splits what stands in a clause into what is left there and what is declared before. -/
def hoistAll {α : Type} (f : α → List Stmt × Hoisted) (l : List α) : List Stmt × Hoisted :=
  l.foldr (fun a r => ((f a).1 ++ r.1, (f a).2.append r.2)) ([], .none)

/-- A statement of a clause: what is left in its place and what is declared before. -/
def hoistStmt : Stmt → List Stmt × Hoisted
  | .declStmt d =>
    match d with
    | .declVar (.varDecl span ctxt kind declare decls) =>
      if kind = .var then ([.declStmt (.declVar (.varDecl span ctxt kind declare decls))], .none)
      else hoistAll (hoistDeclarator kind) decls.toList
    | .declClass _ name c =>
      ([Build.exprStmt (assignTo name (.classExpr (.some name) c))], ⟨[name], []⟩)
    | .declFunc declare name f => ([], ⟨[], [.declStmt (.declFunc declare name f)]⟩)
    | d => ([.declStmt d], .none)
  | s => ([s], .none)

def block? (body : List Stmt) : Option Stmt :=
  if body.isEmpty then .none else .some (Build.blockStmt .none body)

/-- The statements of one clause where a flag tells whether a clause has been entered. -/
def flagCase (matched disc : Ident) (c : Case) : List Stmt :=
  let enter := Build.exprStmt (assignTo matched (Build.bool true))
  let select :=
    match c.test with
    | .some test =>
      ifElse (Build.binary .and (Build.not (.ref matched)) (Build.binary .eqEqEq (.ref disc) test))
        enter .none
    | .none => enter
  select :: ((block? c.body).map fun b => ifElse (.ref matched) b .none).toList

/-- The form with a flag, for a `default` that is absent or last: the declarations and the clauses.

    let matched = false;
    let disc = x;
    if (!matched && disc === 1) matched = true;
    if (matched) { a(); }
    matched = true;
    if (matched) { c(); break S; }
-/
def flagForm (subject : Expr) (cases : List Case) : Lower (List Stmt × List Stmt) := do
  let matched ← Lower.fresh "matched"
  let disc ← Lower.fresh "disc"
  let head :=
    [declare .let matched (.some (Build.bool false)), declare .let disc (.some subject)]
  return (head, cases.flatMap (flagCase matched disc))

/-- The statement that finds the clause to enter; `.none` if no clause has a test. -/
def selectCase (disc index : Ident) : List (Case × Nat) → Option Stmt
  | [] => .none
  | (c, i) :: rest =>
    match c.test with
    | .none => selectCase disc index rest
    | .some test =>
      .some (ifElse (Build.binary .eqEqEq (.ref disc) test)
        (Build.exprStmt (assignTo index (Build.num i))) (selectCase disc index rest))

/-- The body of a clause where the clause to enter is known. -/
def indexBody (index : Ident) (c : Case) (i : Nat) : List Stmt :=
  ((block? c.body).map fun b =>
    ifElse (Build.binary .ltEq (.ref index) (Build.num i)) b .none).toList

/-- The form with an index, for a `default` before other clauses: the declarations and the clauses.

    let disc = x;
    let caseIndex = 1;
    if (disc === 1) caseIndex = 0; else if (disc === 2) caseIndex = 2;
    if (caseIndex <= 0) { a(); }
    if (caseIndex <= 1) { c(); }
    if (caseIndex <= 2) { b(); }
-/
def indexForm (subject : Expr) (default : Nat) (cases : List Case) :
    Lower (List Stmt × List Stmt) := do
  let disc ← Lower.fresh "disc"
  let index ← Lower.fresh "caseIndex"
  let head :=
    [declare .let disc (.some subject), declare .let index (.some (Build.num default))]
  let select := (selectCase disc index cases.zipIdx).toList
  return (head, select ++ cases.zipIdx.flatMap fun (c, i) => indexBody index c i)

/-- Lowers a `switch` without faults. -/
def lower (span : Span) (subject : Expr) (cases : List Case) : Lower Stmt := do
  if cases.isEmpty then return Build.exprStmt subject
  let label ← Lower.freshLabel "S"
  let parts := cases.map fun c => (c.test, hoistAll hoistStmt (c.body.map (retarget label)))
  let hoisted := parts.foldr (fun p h => p.2.2.append h) Hoisted.none
  let cases := parts.map fun p => (⟨p.1, p.2.1⟩ : Case)
  let (head, chain) ←
    match cases.findIdx? (·.test.isNone) with
    | .some default =>
      if default + 1 < cases.length then indexForm subject default cases
      else flagForm subject cases
    | .none => flagForm subject cases
  let rest := if hoisted.isEmpty then chain else [.blockStmt (block (hoisted.stmts ++ chain))]
  return labeled label (Build.blockStmt span (head ++ rest))

/-- Lowers a `switch` whose parts are lowered already. -/
def lowerSwitch : Stmt → Lower Stmt
  | .switchStmt span subject clauses => do
    let cases := clauses.toList.map Case.ofClause
    match fault cases with
    | .some (site, f) =>
      Lower.unsupported site f.message
      return .switchStmt span subject clauses
    | .none => lower span subject cases
  | s => return s

end Switches

/-- Turns every `switch` of a program into `if` statements. -/
def lowerSwitches (p : Program) : Lower Program := Lower.bottomUp Switches.lowerSwitch p

end PlainJs
