import PlainJs.Lowering.Context
import PlainJs.Node.Build

namespace PlainJs

/-- Why a declarator cannot be split. -/
inductive SplitFault
  | noInitializer
  | restTarget
  | exprPattern
  | invalidPattern
  /-- The copy of the rest calls the global `Object`, which is bound here. -/
  | objectBound
deriving DecidableEq, Repr

def SplitFault.message : SplitFault → String
  | noInitializer => "destructuring declaration without an initializer"
  | restTarget => "object rest element with a non-identifier target"
  | exprPattern => "expression used as a declaration pattern"
  | invalidPattern => "invalid declaration pattern"
  | objectBound => "object rest element where `Object` is a local binding"

namespace Node

def isRest : Pat → Bool
  | .restPat .. => true
  | _ => false

def declTarget : Declarator → Pat
  | .declarator _ _ p _ => p

def declarators : VarDecl → List Declarator
  | .varDecl _ _ _ _ decls => decls.toList

def varSpan : VarDecl → Span
  | .varDecl span _ _ _ _ => span

/-- Whether a declaration has several declarators or binds a pattern. -/
def needsSplit (v : VarDecl) : Bool :=
  1 < v.declarators.length || v.declarators.any fun d => !d.declTarget.isBinder

/-- The first part of a pattern, in source order, that cannot be split. -/
def patternFault : {c : Cat} → Node c → Option SplitFault
  | _, .cons a l => a.patternFault <|> l.patternFault
  | _, .some a => a.patternFault
  | _, .arrayPat _ _ elems => elems.patternFault
  | _, .objectPat _ _ props => props.patternFault
  | _, .restPat _ _ p => p.patternFault
  | _, .defaultPat _ p _ => p.patternFault
  | _, .exprPat _ => .some .exprPattern
  | _, .invalidPat _ => .some .invalidPattern
  | _, .keyedPat _ p => p.patternFault
  | _, .restProp _ _ (.binder _) => .none
  | _, .restProp .. => .some .restTarget
  | _, _ => .none

/-- Whether a pattern collects the remaining properties of an object. -/
def hasObjectRest : {c : Cat} → Node c → Bool
  | _, .cons a l => a.hasObjectRest || l.hasObjectRest
  | _, .some a => a.hasObjectRest
  | _, .arrayPat _ _ elems => elems.hasObjectRest
  | _, .objectPat _ _ props => props.hasObjectRest
  | _, .restPat _ _ p => p.hasObjectRest
  | _, .defaultPat _ p _ => p.hasObjectRest
  | _, .keyedPat _ p => p.hasObjectRest
  | _, .restProp .. => true
  | _, _ => false

end Node

namespace Declarations

open Node Build

/-- A temporary that holds `value`, with its declaration. -/
def temp (kind : VarKind) (value : Expr) : Lower (Ident × Stmt) := do
  let t ← Lower.fresh "tmp"
  return (t, declare kind t (.some value))

/-- The identifier that a pattern reads from: `value` itself if it is a temporary already. -/
def source (kind : VarKind) (value : Expr) : Lower (Ident × List Stmt) := do
  let reused : Option Ident :=
    match value with
    | .ref id => .some id
    | _ => .none
  match reused with
  | .some id =>
    if (← get).names.isMade id.name then return (id, [])
    else
      let (t, s) ← temp kind value
      return (t, [s])
  | .none =>
    let (t, s) ← temp kind value
    return (t, [s])

/-- A key as it stands in a member access. A computed key that is no literal is evaluated first. -/
def memberKey (kind : VarKind) : Key → Lower (Key × List Stmt)
  | .fixedKey span (.str v raw) => return (.computedKey .none (.atom span (.str v raw)), [])
  | .fixedKey span (.num v raw) => return (.computedKey .none (.atom span (.num v raw)), [])
  | .fixedKey span (.bigInt v raw) => return (.computedKey .none (.atom span (.bigInt v raw)), [])
  | .fixedKey span k => return (.fixedKey span k, [])
  | .computedKey _ (.atom span (.str v raw)) =>
    return (.computedKey .none (.atom span (.str v raw)), [])
  | .computedKey _ (.atom span (.num v raw)) =>
    return (.computedKey .none (.atom span (.num v raw)), [])
  | .computedKey _ e => do
    let k ← Lower.fresh "key"
    return (.computedKey .none (.ref k), [declare kind k (.some e)])

/-- The value of `t`, or the default where that is undefined. -/
def orDefault (t : Ident) (default : Expr) : Expr :=
  Build.cond (Build.binary .eqEqEq (.ref t) undefined) default (.ref t)

/-- The elements of `source` from `index` on. -/
def elemsFrom (source : Ident) (index : Nat) : Expr :=
  Build.call (Build.member (.ref source) "slice") [Build.num index]

/-- A copy of the own properties of `source`. -/
def ownCopy (source : Ident) : Expr :=
  Build.call (Build.member (Build.name "Object") "assign") [emptyObject, .ref source]

/-- Statements that remove the given keys from an object. -/
def removals (target : Ident) (seen : List Key) : List Stmt :=
  seen.map fun k => Build.exprStmt (Build.unary .delete (access (.ref target) k))

/-- Statements that bind a name to a value or to a default. -/
def bindName (kind : VarKind) (id : Ident) (default : Option Expr) (value : Expr) :
    Lower (List Stmt) :=
  match default with
  | .none => return [declarePat .none kind (.binder id) (.some value)]
  | .some e => do
    let (t, s) ← temp kind value
    return [s, declarePat .none kind (.binder id) (.some (orDefault t e))]

mutual

/-- Statements that bind a pattern to a value, which is evaluated once. -/
def bind (kind : VarKind) (p : Pat) (value : Expr) : Lower (List Stmt) :=
  match p with
  | .binder id => return [declarePat .none kind (.binder id) (.some value)]
  | .defaultPat _ p e => do
    let (t, s) ← temp kind value
    return s :: (← bind kind p (orDefault t e))
  | .arrayPat _ _ elems => do
    let (src, ss) ← source kind value
    return ss ++ (← bindElems kind src 0 elems)
  | .objectPat _ _ props => do
    let (src, ss) ← source kind value
    return ss ++ (← bindProps kind src [] props)
  | .restPat _ _ p => bind kind p value
  | .exprPat e => return [declarePat .none kind (.exprPat e) (.some value)]
  | .invalidPat span => return [declarePat .none kind (.invalidPat span) (.some value)]
termination_by sizeOf p

/-- Binds the elements of an array pattern from `index` on. -/
def bindElems (kind : VarKind) (src : Ident) (index : Nat) (elems : Node (.list (.opt .pat))) :
    Lower (List Stmt) :=
  match elems with
  | .nil => return []
  | .cons .none rest => bindElems kind src (index + 1) rest
  | .cons (.some p) rest => do
    let value := if p.isRest then elemsFrom src index else computed (.ref src) (Build.num index)
    return (← bind kind p value) ++ (← bindElems kind src (index + 1) rest)
termination_by sizeOf elems

/-- Binds the properties of an object pattern; `seen` are the keys named before. -/
def bindProps (kind : VarKind) (src : Ident) (seen : List Key) (props : Node (.list .patProp)) :
    Lower (List Stmt) :=
  match props with
  | .nil => return []
  | .cons (.keyedPat k p) rest => do
    let (k, ss) ← memberKey kind k
    let bound ← bind kind p (access (.ref src) k)
    return ss ++ bound ++ (← bindProps kind src (seen ++ [k]) rest)
  | .cons (.shortPat _ id default) rest => do
    let k : Key := .fixedKey id.span (.name id.name)
    let bound ← bindName kind id default.toOption (access (.ref src) k)
    return bound ++ (← bindProps kind src (seen ++ [k]) rest)
  | .cons (.restProp _ _ p) rest => do
    let bound ← bind kind p (ownCopy src)
    let removed := (p.binder?.map (removals · seen)).getD []
    return bound ++ removed ++ (← bindProps kind src seen rest)
termination_by sizeOf props

end

/-- Why a declarator is left as it is, if it binds a pattern and cannot be split. -/
def declaratorFault (span : Span) (p : Pat) (init : Option Expr) : Lower (Option SplitFault) := do
  if p.isBinder then return .none
  let fault := if init.isNone then .some SplitFault.noInitializer else p.patternFault
  if fault.isSome then return fault
  if p.hasObjectRest && (← Lower.isBoundAt "Object" span) then return .some .objectBound
  return .none

/-- The declarations that replace one declarator of a declaration with the given data. -/
def splitDeclarator (span : Span) (ctxt : Nat) (kind : VarKind) (declare : Bool)
    (d : Declarator) : Lower (List Stmt) := do
  let whole : List Stmt := [.declStmt (.declVar (.varDecl span ctxt kind declare (.cons d .nil)))]
  match d with
  | .declarator dspan _ p init =>
    match ← declaratorFault dspan p init.toOption with
    | .some fault =>
      Lower.unsupported dspan fault.message
      return whole
    | .none =>
      match init.toOption with
      | .some e => if p.isBinder then return whole else bind kind p e
      | .none => return whole

/-- One declaration per bound name, all of the same kind. A declarator that cannot be split is
reported and stays as a declaration of its own. -/
def split : VarDecl → Lower (List Stmt)
  | .varDecl span ctxt kind declare decls => do
    let parts ← decls.toList.mapM (splitDeclarator span ctxt kind declare)
    return parts.flatten

/-- A declaration with the statements that replace it, if it has to be split. -/
def splitIfNeeded (v : VarDecl) : Lower (List Stmt) :=
  if v.needsSplit then split v else return [.declStmt (.declVar v)]

/-- Whether a declaration binds generated names only. -/
def isTemporary (names : NameSupply) (v : VarDecl) : Bool :=
  v.declarators.all fun d =>
    match d.declTarget with
    | .binder id => names.isMade id.name
    | _ => false

/-- A part of a split exported declaration: what the program named stays exported. -/
def reexport (names : NameSupply) (span : Span) : Stmt → Item
  | .declStmt (.declVar v) =>
    if isTemporary names v then .stmtItem (.declStmt (.declVar v))
    else .exportDecl span (.declVar v)
  | s => .stmtItem s

/-- A list with more elements in front. -/
def prepend {c : Cat} (l : List (Node c)) (rest : Node (.list c)) : Node (.list c) :=
  .ofList (l ++ rest.toList)

end Declarations

open Declarations in
/-- Splits every declaration of a tree, the heads of `for` loops apart. -/
def splitDeclarations {c : Cat} (n : Node c) : Lower (Node c) :=
  match c, n with
  | _, .cons (.declStmt (.declVar v)) rest => do
    let v ← splitDeclarations v
    let stmts ← splitIfNeeded v
    return prepend stmts (← splitDeclarations rest)
  | _, .cons (.stmtItem (.declStmt (.declVar v))) rest => do
    let v ← splitDeclarations v
    let stmts ← splitIfNeeded v
    return prepend (stmts.map .stmtItem) (← splitDeclarations rest)
  | _, .cons (.exportDecl span (.declVar v)) rest => do
    let v ← splitDeclarations v
    if v.needsSplit then
      let stmts ← split v
      let names := (← get).names
      return prepend (stmts.map (reexport names span)) (← splitDeclarations rest)
    else
      return .cons (.exportDecl span (.declVar v)) (← splitDeclarations rest)
  | _, .declStmt (.declVar v) => do
    let v ← splitDeclarations v
    if v.needsSplit then return Node.Build.blockStmt v.varSpan (← split v)
    else return .declStmt (.declVar v)
  | _, n => n.traverse fun k _ => splitDeclarations k
termination_by sizeOf n
decreasing_by
  all_goals first
    | exact Node.sizeOf_lt_of_mem_children ‹_›
    | (simp only [Node.cons.sizeOf_spec, Node.declStmt.sizeOf_spec, Node.stmtItem.sizeOf_spec,
        Node.exportDecl.sizeOf_spec, Node.declVar.sizeOf_spec]
       omega)

end PlainJs
