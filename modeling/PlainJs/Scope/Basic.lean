import PlainJs.Span

namespace PlainJs

inductive ScopeKind
  | program | function | block | catch
deriving DecidableEq, Repr

inductive BindingKind
  | var | let | const | function | cls | param | catchParam | imported
deriving DecidableEq, Repr

structure Binding where
  name : String
  kind : BindingKind
  span : Span
deriving DecidableEq, Repr

/-- A scope; `parent` is the index of the scope around it. -/
structure Scope where
  kind : ScopeKind
  span : Span
  parent : Option Nat
  bindings : List Binding
deriving DecidableEq, Repr

/-- All scopes of a program, a scope before the scopes inside it, with the names and labels that
occur anywhere in it. -/
structure ScopeTable where
  scopes : List Scope
  names : List String
  labels : List String
deriving DecidableEq, Repr

namespace ScopeTable

/-- The table of a program that has only its outermost scope. -/
def start : ScopeTable := ⟨[⟨.program, .none, none, []⟩], [], []⟩

/-- Every name and label that occurs in the program. -/
def takenNames (t : ScopeTable) : List String := t.labels.foldl (fun l s => l.insert s) t.names

/-- The scopes from `id` outwards. A parent has a smaller index, so `fuel = id + 1` reaches all. -/
def outward (t : ScopeTable) : (fuel id : Nat) → List Scope
  | 0, _ => []
  | fuel + 1, id =>
    match t.scopes[id]? with
    | none => []
    | some s =>
      s :: match s.parent with
        | none => []
        | some p => outward t fuel p

/-- The bindings that can be seen from scope `id`, innermost first. -/
def visibleBindings (t : ScopeTable) (id : Nat) : List Binding :=
  (t.outward (id + 1) id).flatMap (·.bindings)

/-- The innermost scope around a source range. Generated code lies in the program scope. -/
def scopeAt (t : ScopeTable) (site : Span) : Nat :=
  if site.isDummy then 0
  else
    let encloses (p : Scope × Nat) : Bool :=
      p.2 != 0 && !p.1.span.isDummy && p.1.span.contains site
    match t.scopes.zipIdx.reverse.find? encloses with
    | some (_, id) => id
    | none => 0

/-- Whether `name` at a source range means a binding of the program and not a global one. -/
def isBoundAt (t : ScopeTable) (name : String) (site : Span) : Bool :=
  (t.visibleBindings (t.scopeAt site)).any (·.name == name)

/-- The innermost function or program scope among the given ones; a `var` lands there. -/
def hoistTarget (t : ScopeTable) (stack : List Nat) : Nat :=
  let holdsVars (id : Nat) : Bool :=
    match t.scopes[id]? with
    | some s => s.kind == .function || s.kind == .program
    | none => false
  (stack.find? holdsVars).getD 0

def push (t : ScopeTable) (s : Scope) : ScopeTable := { t with scopes := t.scopes ++ [s] }

def declare (t : ScopeTable) (id : Nat) (b : Binding) : ScopeTable :=
  { t with scopes := t.scopes.modify id fun s => { s with bindings := s.bindings ++ [b] } }

def addName (t : ScopeTable) (name : String) : ScopeTable :=
  { t with names := t.names.insert name }

def addLabel (t : ScopeTable) (label : String) : ScopeTable :=
  { t with labels := t.labels.insert label }

end ScopeTable

end PlainJs
