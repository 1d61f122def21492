import PlainJs.Node.Data

namespace PlainJs

/-- The syntactic categories. -/
inductive Cat
  | expr | pat | patProp | key | prop | arg | callee
  | func | param | decorator | cls | member | arrowBody
  | block | stmt | decl | varDecl | declarator | clause | handler | forInit | forHead
  | item | program
  | list (c : Cat)
  | opt (c : Cat)
deriving DecidableEq, Repr

/-- A syntax tree of the given category. The parts of a constructor that are trees stand in the order
in which they are visited. -/
inductive Node : Cat → Type
  -- lists and optional parts
  | nil {c : Cat} : Node (.list c)
  | cons {c : Cat} (head : Node c) (tail : Node (.list c)) : Node (.list c)
  | none {c : Cat} : Node (.opt c)
  | some {c : Cat} (value : Node c) : Node (.opt c)
  -- expressions
  | ref (id : Ident) : Node .expr
  | atom (span : Span) (a : Atom) : Node .expr
  | array (span : Span) (elems : Node (.list (.opt .arg))) : Node .expr
  | object (span : Span) (props : Node (.list .prop)) : Node .expr
  | function (name : Option Ident) (f : Node .func) : Node .expr
  | classExpr (name : Option Ident) (c : Node .cls) : Node .expr
  | arrow (span : Span) (ctxt : Nat) (isAsync isGenerator : Bool)
      (params : Node (.list .pat)) (body : Node .arrowBody) : Node .expr
  | unary (span : Span) (op : UnaryOp) (operand : Node .expr) : Node .expr
  | update (span : Span) (op : UpdateOp) (isPrefix : Bool) (operand : Node .expr) : Node .expr
  | binary (span : Span) (op : BinaryOp) (left right : Node .expr) : Node .expr
  | assign (span : Span) (op : AssignOp) (left : Node .pat) (right : Node .expr) : Node .expr
  | cond (span : Span) (test yes no : Node .expr) : Node .expr
  | seq (span : Span) (exprs : Node (.list .expr)) : Node .expr
  | member (span : Span) (object : Node .expr) (key : Node .key) : Node .expr
  | superMember (span superSpan : Span) (key : Node .key) : Node .expr
  | call (span : Span) (ctxt : Nat) (callee : Node .callee) (args : Node (.list .arg)) :
      Node .expr
  | newCall (span : Span) (ctxt : Nat) (callee : Node .expr)
      (args : Node (.opt (.list .arg))) : Node .expr
  | optMember (span : Span) (optional : Bool) (baseSpan : Span)
      (object : Node .expr) (key : Node .key) : Node .expr
  | optCall (span : Span) (optional : Bool) (baseSpan : Span) (ctxt : Nat)
      (callee : Node .expr) (args : Node (.list .arg)) : Node .expr
  | paren (span : Span) (inner : Node .expr) : Node .expr
  | template (span : Span) (exprs : Node (.list .expr)) (quasis : List Quasi) : Node .expr
  | tagged (span : Span) (ctxt : Nat) (tag : Node .expr)
      (textSpan : Span) (exprs : Node (.list .expr)) (quasis : List Quasi) : Node .expr
  | yieldExpr (span : Span) (delegate : Bool) (operand : Node (.opt .expr)) : Node .expr
  | awaitExpr (span : Span) (operand : Node .expr) : Node .expr
  -- patterns
  | binder (id : Ident) : Node .pat
  | arrayPat (span : Span) (optional : Bool) (elems : Node (.list (.opt .pat))) : Node .pat
  | objectPat (span : Span) (optional : Bool) (props : Node (.list .patProp)) : Node .pat
  | restPat (span dots : Span) (target : Node .pat) : Node .pat
  | defaultPat (span : Span) (target : Node .pat) (default : Node .expr) : Node .pat
  | exprPat (target : Node .expr) : Node .pat
  | invalidPat (span : Span) : Node .pat
  | keyedPat (key : Node .key) (target : Node .pat) : Node .patProp
  | shortPat (span : Span) (id : Ident) (default : Node (.opt .expr)) : Node .patProp
  | restProp (span dots : Span) (target : Node .pat) : Node .patProp
  -- keys, object members and arguments
  | fixedKey (span : Span) (key : FixedKey) : Node .key
  | computedKey (span : Span) (key : Node .expr) : Node .key
  | shortProp (id : Ident) : Node .prop
  | defaultProp (span : Span) (id : Ident) (value : Node .expr) : Node .prop
  | keyedProp (key : Node .key) (value : Node .expr) : Node .prop
  | getterProp (span : Span) (key : Node .key) (body : Node (.opt .block)) : Node .prop
  | setterProp (span : Span) (key : Node .key) (param : Node .pat)
      (body : Node (.opt .block)) : Node .prop
  | methodProp (key : Node .key) (f : Node .func) : Node .prop
  | spreadProp (dots : Span) (value : Node .expr) : Node .prop
  | plainArg (value : Node .expr) : Node .arg
  | spreadArg (dots : Span) (value : Node .expr) : Node .arg
  | exprCallee (callee : Node .expr) : Node .callee
  | superCallee (span : Span) : Node .callee
  | importCallee (span : Span) : Node .callee
  -- functions and classes
  | func (span : Span) (ctxt : Nat) (isGenerator isAsync : Bool)
      (params : Node (.list .param)) (decorators : Node (.list .decorator))
      (body : Node (.opt .block)) : Node .func
  | param (span : Span) (decorators : Node (.list .decorator)) (target : Node .pat) : Node .param
  | decorator (span : Span) (value : Node .expr) : Node .decorator
  | cls (span : Span) (ctxt : Nat) (decorators : Node (.list .decorator))
      (members : Node (.list .member)) (parent : Node (.opt .expr)) : Node .cls
  | ctorMember (span : Span) (ctxt : Nat) (key : Node .key) (params : Node (.list .param))
      (body : Node (.opt .block)) : Node .member
  | methodMember (span : Span) (kind : MethodKind) (isStatic : Bool)
      (key : Node .key) (f : Node .func) : Node .member
  | fieldMember (span : Span) (ctxt : Nat) (isStatic : Bool) (key : Node .key)
      (value : Node (.opt .expr)) (decorators : Node (.list .decorator)) : Node .member
  | staticBlock (span : Span) (body : Node .block) : Node .member
  | emptyMember (span : Span) : Node .member
  | blockBody (body : Node .block) : Node .arrowBody
  | exprBody (value : Node .expr) : Node .arrowBody
  -- statements
  | block (span : Span) (ctxt : Nat) (stmts : Node (.list .stmt)) : Node .block
  | blockStmt (body : Node .block) : Node .stmt
  | emptyStmt (span : Span) : Node .stmt
  | debuggerStmt (span : Span) : Node .stmt
  | exprStmt (span : Span) (value : Node .expr) : Node .stmt
  | withStmt (span : Span) (object : Node .expr) (body : Node .stmt) : Node .stmt
  | returnStmt (span : Span) (value : Node (.opt .expr)) : Node .stmt
  | throwStmt (span : Span) (value : Node .expr) : Node .stmt
  | labeledStmt (span : Span) (label : Ident) (body : Node .stmt) : Node .stmt
  | breakStmt (span : Span) (label : Option Ident) : Node .stmt
  | continueStmt (span : Span) (label : Option Ident) : Node .stmt
  | ifStmt (span : Span) (test : Node .expr) (yes : Node .stmt) (no : Node (.opt .stmt)) :
      Node .stmt
  | switchStmt (span : Span) (subject : Node .expr) (clauses : Node (.list .clause)) : Node .stmt
  | tryStmt (span : Span) (body : Node .block) (handler : Node (.opt .handler))
      (finalizer : Node (.opt .block)) : Node .stmt
  | whileStmt (span : Span) (test : Node .expr) (body : Node .stmt) : Node .stmt
  | doWhileStmt (span : Span) (test : Node .expr) (body : Node .stmt) : Node .stmt
  | forStmt (span : Span) (init : Node (.opt .forInit)) (test update : Node (.opt .expr))
      (body : Node .stmt) : Node .stmt
  | forInStmt (span : Span) (head : Node .forHead) (subject : Node .expr) (body : Node .stmt) :
      Node .stmt
  | forOfStmt (span : Span) (isAwait : Bool) (head : Node .forHead) (subject : Node .expr)
      (body : Node .stmt) : Node .stmt
  | declStmt (d : Node .decl) : Node .stmt
  | clause (span : Span) (test : Node (.opt .expr)) (body : Node (.list .stmt)) : Node .clause
  | handler (span : Span) (param : Node (.opt .pat)) (body : Node .block) : Node .handler
  | initDecl (v : Node .varDecl) : Node .forInit
  | initExpr (value : Node .expr) : Node .forInit
  | headDecl (v : Node .varDecl) : Node .forHead
  | headUsing (span : Span) (isAwait : Bool) (decls : Node (.list .declarator)) : Node .forHead
  | headPat (target : Node .pat) : Node .forHead
  -- declarations
  | declVar (v : Node .varDecl) : Node .decl
  | declFunc (declare : Bool) (name : Ident) (f : Node .func) : Node .decl
  | declClass (declare : Bool) (name : Ident) (c : Node .cls) : Node .decl
  | declUsing (span : Span) (isAwait : Bool) (decls : Node (.list .declarator)) : Node .decl
  | varDecl (span : Span) (ctxt : Nat) (kind : VarKind) (declare : Bool)
      (decls : Node (.list .declarator)) : Node .varDecl
  | declarator (span : Span) (definite : Bool) (target : Node .pat)
      (init : Node (.opt .expr)) : Node .declarator
  -- modules and programs
  | stmtItem (s : Node .stmt) : Node .item
  | importItem (i : Import) : Node .item
  | exportDecl (span : Span) (d : Node .decl) : Node .item
  | exportNames (e : ExportList) : Node .item
  | exportFunc (span : Span) (name : Option Ident) (f : Node .func) : Node .item
  | exportClass (span : Span) (name : Option Ident) (c : Node .cls) : Node .item
  | exportExpr (span : Span) (value : Node .expr) : Node .item
  | exportAll (span : Span) (source : StrLit) : Node .item
  | moduleProgram (span : Span) (interpreter : Option String) (items : Node (.list .item)) :
      Node .program
  | scriptProgram (span : Span) (interpreter : Option String) (stmts : Node (.list .stmt)) :
      Node .program

abbrev Expr := Node .expr
abbrev Pat := Node .pat
abbrev Key := Node .key
abbrev Stmt := Node .stmt
abbrev Block := Node .block
abbrev VarDecl := Node .varDecl
abbrev Declarator := Node .declarator
abbrev Clause := Node .clause
abbrev Item := Node .item
abbrev Program := Node .program

namespace Node

variable {c : Cat}

/-- The elements of a tree whose category is a list; the equation makes the recursion structural. -/
def elements {c : Cat} : {d : Cat} → Node d → d = .list c → List (Node c)
  | _, .cons a l, h => (Cat.list.inj h ▸ a) :: elements l h
  | _, _, _ => []

def toList (l : Node (.list c)) : List (Node c) := elements l rfl

def ofList : List (Node c) → Node (.list c)
  | [] => nil
  | a :: l => cons a (ofList l)

def toOption : Node (.opt c) → Option (Node c)
  | none => .none
  | some a => .some a

def ofOption : Option (Node c) → Node (.opt c)
  | .none => none
  | .some a => some a

@[simp] theorem toList_nil : (nil : Node (.list c)).toList = [] := rfl

@[simp] theorem toList_cons (a : Node c) (l : Node (.list c)) :
    (cons a l).toList = a :: l.toList := rfl

@[simp] theorem toList_ofList (l : List (Node c)) : (ofList l).toList = l := by
  induction l with
  | nil => rfl
  | cons a l ih => simp [ofList, ih]

@[simp] theorem ofList_toList : (l : Node (.list c)) → ofList l.toList = l
  | nil => rfl
  | cons a l => by simp [ofList, ofList_toList l]

@[simp] theorem toOption_ofOption (o : Option (Node c)) : (ofOption o).toOption = o := by
  cases o <;> rfl

@[simp] theorem ofOption_toOption (o : Node (.opt c)) : ofOption o.toOption = o := by
  cases o <;> rfl

end Node

end PlainJs
