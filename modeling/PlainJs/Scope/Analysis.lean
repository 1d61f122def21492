import PlainJs.Node.Children
import PlainJs.Node.Parts
import PlainJs.Scope.Basic

namespace PlainJs

namespace ScopeTable

abbrev Collect := StateM ScopeTable

def noteName (id : Ident) : Collect Unit := modify (·.addName id.name)

def noteLabel (id : Ident) : Collect Unit := modify (·.addLabel id.name)

def noteNames (ids : List Ident) : Collect Unit := ids.forM noteName

def bindAll (scope : Nat) (kind : BindingKind) (ids : List Ident) : Collect Unit :=
  ids.forM fun id => modify fun t => t.declare scope ⟨id.name, kind, id.span⟩

/-- Opens a scope inside the innermost one of `stack`, binds parameters in it, and gives the
scopes that are then open. -/
def enter (stack : List Nat) (kind : ScopeKind) (span : Span) (bindAs : BindingKind)
    (ids : List Ident) : Collect (List Nat) := do
  let t ← get
  let scope := t.scopes.length
  set (t.push ⟨kind, span, some (stack.headD 0), []⟩)
  bindAll scope bindAs ids
  return scope :: stack

def exportNameIdents : ExportName → List Ident
  | .ident id => [id]
  | .str _ => []

def importIdents : ImportSpecifier → List Ident
  | .named _ here there => here :: (there.map exportNameIdents).getD []
  | .default _ here => [here]
  | .namespace _ here => [here]

def exportIdents : ExportSpecifier → List Ident
  | .named _ inner outer => exportNameIdents inner ++ (outer.map exportNameIdents).getD []
  | .namespace _ name => exportNameIdents name

def varBindingKind : VarKind → BindingKind
  | .var => .var
  | .let => .let
  | .const => .const

/-- The identifiers that a node holds itself, apart from labels. -/
def ownIdents : {c : Cat} → Node c → List Ident
  | _, .ref id => [id]
  | _, .binder id => [id]
  | _, .shortPat _ id _ => [id]
  | _, .shortProp id => [id]
  | _, .defaultProp _ id _ => [id]
  | _, .function name _ => name.toList
  | _, .classExpr name _ => name.toList
  | _, .declFunc _ name _ => [name]
  | _, .declClass _ name _ => [name]
  | _, .exportFunc _ name _ => name.toList
  | _, .exportClass _ name _ => name.toList
  | _, .importItem i => i.specifiers.flatMap importIdents
  | _, .exportNames e => e.specifiers.flatMap exportIdents
  | _, _ => []

/-- The bindings that a node adds to the scopes around it. -/
def bindOwn (stack : List Nat) : {c : Cat} → Node c → Collect Unit
  | _, .varDecl _ _ kind _ decls => do
    let t ← get
    let scope := if kind = .var then t.hoistTarget stack else stack.headD 0
    bindAll scope (varBindingKind kind) decls.boundIdents
  | _, .declFunc _ name _ => bindAll (stack.headD 0) .function [name]
  | _, .declClass _ name _ => bindAll (stack.headD 0) .cls [name]
  | _, .importItem i => bindAll 0 .imported (i.specifiers.map ImportSpecifier.here)
  | _, _ => return

/-- Collects the scopes and names of a tree; `stack` holds the open scopes, innermost first. -/
def collect (stack : List Nat) {c : Cat} (n : Node c) : Collect Unit :=
  match c, n with
  | _, .labeledStmt _ label body => do
    noteLabel label
    collect stack body
  | _, .breakStmt _ label | _, .continueStmt _ label => label.toList.forM noteLabel
  | _, .func span _ _ _ params _ body => do
    let stack ← enter stack .function span .param params.boundIdents
    collect stack params
    collect stack body.bodyStmts
  | _, .arrow span _ _ _ params (.blockBody body) => do
    let stack ← enter stack .function span .param params.boundIdents
    collect stack params
    collect stack body.blockStmts
  | _, .arrow span _ _ _ params (.exprBody value) => do
    let stack ← enter stack .function span .param params.boundIdents
    collect stack params
    collect stack value
  | _, .ctorMember span _ _ params body => do
    let stack ← enter stack .function span .param params.boundIdents
    collect stack params
    collect stack body.bodyStmts
  | _, .setterProp span key param body => do
    collect stack key
    let stack ← enter stack .function span .param param.boundIdents
    collect stack param
    collect stack body.bodyStmts
  | _, .getterProp span key body => do
    collect stack key
    let stack ← enter stack .function span .param []
    collect stack body.bodyStmts
  | _, .staticBlock span body => do
    let stack ← enter stack .function span .param []
    collect stack body.blockStmts
  | _, .block span _ stmts => do
    let stack ← enter stack .block span .param []
    collect stack stmts
  | _, .handler span param body => do
    let stack ← enter stack .catch span .catchParam param.boundIdents
    collect stack param
    collect stack body.blockStmts
  | _, .forStmt span init test update body => do
    let stack ← enter stack .block span .param []
    collect stack init
    collect stack test
    collect stack update
    collect stack body
  | _, .forInStmt span head subject body => do
    let stack ← enter stack .block span .param []
    collect stack head
    collect stack subject
    collect stack body
  | _, .forOfStmt span _ head subject body => do
    let stack ← enter stack .block span .param []
    collect stack head
    collect stack subject
    collect stack body
  | _, n => do
    bindOwn stack n
    noteNames (ownIdents n)
    n.children.attach.forM fun ⟨⟨_, k⟩, _⟩ => collect stack k
termination_by sizeOf n
decreasing_by
  all_goals first
    | exact Node.sizeOf_lt_of_mem_children ‹_›
    | (simp only [Node.labeledStmt.sizeOf_spec, Node.func.sizeOf_spec, Node.arrow.sizeOf_spec,
        Node.blockBody.sizeOf_spec, Node.exprBody.sizeOf_spec, Node.ctorMember.sizeOf_spec,
        Node.setterProp.sizeOf_spec, Node.getterProp.sizeOf_spec, Node.staticBlock.sizeOf_spec,
        Node.block.sizeOf_spec, Node.handler.sizeOf_spec, Node.forStmt.sizeOf_spec,
        Node.forInStmt.sizeOf_spec, Node.forOfStmt.sizeOf_spec]
       try have := Node.sizeOf_bodyStmts_le body
       try have := Node.sizeOf_blockStmts_lt body
       omega)

/-- The scopes of a program. -/
def analyze (p : Program) : ScopeTable := ((collect [0] p).run start).2

end ScopeTable

end PlainJs
