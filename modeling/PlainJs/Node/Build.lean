import PlainJs.Node.Basic

namespace PlainJs

namespace Node

/-- The strength of an assignment, the weakest that may stand as an argument. -/
def assignStrength : Nat := 1

def condStrength : Nat := 2

def unaryStrength : Nat := 14

/-- The strength of whatever may stand before a member access or a call. -/
def memberStrength : Nat := 17

/-- How tightly the outermost operator of an expression binds. -/
def strength : Expr → Nat
  | .seq .. => 0
  | .assign .. | .arrow .. | .yieldExpr .. => assignStrength
  | .cond .. => condStrength
  | .binary _ op _ _ => op.precedence
  | .unary .. | .awaitExpr .. => unaryStrength
  | .update .. => 15
  | .newCall _ _ _ .none => 16
  | .optMember .. | .optCall .. => 16
  | _ => memberStrength

/-- Parenthesised if it binds less tightly than `least`. -/
def atLeast (least : Nat) (e : Expr) : Expr :=
  if strength e < least then .paren .none e else e

/-- Whether the first token of an expression would make a statement of it something else: a block,
a function, a class or a pattern. -/
def startsAmbiguously {c : Cat} : Node c → Bool
  | .object .. | .function .. | .classExpr .. => true
  | .assign _ _ (.objectPat ..) _ => true
  | .binary _ _ l _ => l.startsAmbiguously
  | .member _ o _ => o.startsAmbiguously
  | .cond _ t _ _ => t.startsAmbiguously
  | .seq _ (.cons e _) => e.startsAmbiguously
  | .call _ _ (.exprCallee f) _ => f.startsAmbiguously
  | _ => false

namespace Build

def name (s : String) : Expr := .ref (.ofName s)

def bool (b : Bool) : Expr := .atom .none (.bool b)

def num (n : Nat) : Expr := .atom .none (.num (.ofNat n) .none)

def unary (op : UnaryOp) (e : Expr) : Expr := .unary .none op (atLeast unaryStrength e)

def not (e : Expr) : Expr := unary .not e

/-- The expression `void 0`. -/
def undefined : Expr := unary .void (num 0)

def binary (op : BinaryOp) (l r : Expr) : Expr :=
  .binary .none op (atLeast op.precedence l) (atLeast (op.precedence + 1) r)

def cond (t a b : Expr) : Expr :=
  .cond .none (atLeast (condStrength + 1) t) (atLeast assignStrength a) (atLeast assignStrength b)

def access (e : Expr) (k : Key) : Expr := .member .none (atLeast memberStrength e) k

def member (e : Expr) (s : String) : Expr := access e (.fixedKey .none (.name s))

def computed (e k : Expr) : Expr := access e (.computedKey .none k)

def call (f : Expr) (args : List Expr) : Expr :=
  .call .none 0 (.exprCallee (atLeast memberStrength f))
    (.ofList (args.map fun e => .plainArg (atLeast assignStrength e)))

def assign (target : Pat) (e : Expr) : Expr :=
  .assign .none .assign target (atLeast assignStrength e)

def assignTo (id : Ident) (e : Expr) : Expr := assign (.binder id) e

def emptyObject : Expr := .object .none .nil

/-- A statement that evaluates an expression and cannot be read as anything else. -/
def exprStmt (e : Expr) : Stmt :=
  .exprStmt .none (if startsAmbiguously e then .paren .none e else e)

/-- A declaration of one pattern. -/
def declarePat (span : Span) (kind : VarKind) (p : Pat) (init : Option Expr) : Stmt :=
  .declStmt (.declVar (.varDecl span 0 kind false
    (.cons (.declarator span false p (.ofOption init)) .nil)))

def declare (kind : VarKind) (id : Ident) (init : Option Expr) : Stmt :=
  declarePat .none kind (.binder id) init

def block (stmts : List Stmt) : Block := .block .none 0 (.ofList stmts)

def blockStmt (span : Span) (stmts : List Stmt) : Stmt := .blockStmt (.block span 0 (.ofList stmts))

/-- A statement as a block; one that is a block already stays as it is. -/
def intoBlock : Stmt → Block
  | .blockStmt b => b
  | s => block [s]

def labeled (label : Ident) (s : Stmt) : Stmt := .labeledStmt .none label s

def breakTo (label : Option Ident) : Stmt := .breakStmt .none label

def ifElse (t : Expr) (yes : Stmt) (no : Option Stmt) : Stmt := .ifStmt .none t yes (.ofOption no)

def whileDo (span : Span) (t : Expr) (body : List Stmt) : Stmt :=
  .whileStmt span t (.blockStmt (block body))

def throwStmt (e : Expr) : Stmt := .throwStmt .none e

end Build

/-- A pattern as the left side of an assignment; some patterns cannot stand there. -/
def assignTarget? : Pat → Option Pat
  | .binder id => .some (.binder id)
  | .arrayPat span optional elems => .some (.arrayPat span optional elems)
  | .objectPat span optional props => .some (.objectPat span optional props)
  | .exprPat (.ref id) => .some (.binder id)
  | .exprPat (.member span o k) => .some (.exprPat (.member span o k))
  | .exprPat (.superMember span superSpan k) => .some (.exprPat (.superMember span superSpan k))
  | .exprPat (.paren span e) => .some (.exprPat (.paren span e))
  | _ => .none

end Node

end PlainJs
