import PlainJs.Config.Basic
import PlainJs.Diagnostic
import PlainJs.Names
import PlainJs.Node.Children
import PlainJs.Scope.Analysis

namespace PlainJs

structure Context where
  config : Config
  scopes : ScopeTable
  names : NameSupply
  diagnostics : List Diagnostic
deriving DecidableEq, Repr

namespace Context

/-- The context in which the lowering of a program starts. -/
def start (config : Config) (p : Program) : Context :=
  let scopes := ScopeTable.analyze p
  ⟨config, scopes, .avoiding scopes.takenNames, []⟩

def record (cx : Context) (d : Diagnostic) : Context :=
  { cx with diagnostics := cx.diagnostics ++ [d] }

def hasFatal (cx : Context) : Bool := cx.diagnostics.any Diagnostic.isFatal

def hasError (cx : Context) : Bool := cx.diagnostics.any Diagnostic.isError

/-- Records a fault of jumps and labels; only the first one is kept. -/
def violate (cx : Context) (fault : LabelFault) (span : Span) : Context :=
  if cx.hasFatal then cx else cx.record (fault.diagnostic span)

end Context

/-- Lowering reads and changes the context. -/
abbrev Lower := StateM Context

namespace Lower

def unsupported (span : Span) (message : String) : Lower Unit :=
  modify (·.record ⟨.unsupported, span, message⟩)

def limitation (span : Span) (message : String) : Lower Unit :=
  modify (·.record ⟨.limitation, span, message⟩)

def violation (fault : LabelFault) (span : Span) : Lower Unit := modify (·.violate fault span)

/-- A fresh identifier of generated code. -/
def fresh (hint : String) : Lower Ident :=
  modifyGet fun cx =>
    let (name, names) := cx.names.fresh hint
    (.ofName name, { cx with names })

/-- A fresh label of generated code. -/
def freshLabel (hint : String) : Lower Ident :=
  modifyGet fun cx =>
    let (name, names) := cx.names.freshLabel hint
    (.ofName name, { cx with names })

/-- Whether `name` is a binding of the program, rather than global, at `site`. -/
def isBoundAt (name : String) (site : Span) : Lower Bool := do
  return (← get).scopes.isBoundAt name site

/-- Applies `f` if the tree is a statement. -/
def onStmt (f : Stmt → Lower Stmt) : {c : Cat} → Node c → Lower (Node c)
  | .stmt, s => f s
  | _, n => return n

/-- Applies `f` to every statement of a tree, to inner ones before outer ones. -/
def bottomUp (f : Stmt → Lower Stmt) {c : Cat} (n : Node c) : Lower (Node c) := do
  onStmt f (← n.traverse fun k _ => bottomUp f k)
termination_by sizeOf n
decreasing_by exact Node.sizeOf_lt_of_mem_children ‹_›

end Lower

end PlainJs
