import PlainJs.Json.Printer
import PlainJs.Node.Basic
import PlainJs.Text.Page

namespace PlainJs

abbrev Writing := StateM Page Unit

namespace Writing

def text (s : String) : Writing := modify (Page.write s)

def line : Writing := modify Page.endLine

def indent : Writing := modify Page.indent

def dedent : Writing := modify Page.dedent

/-- Writes a text only if it is asked for. -/
def textIf (b : Bool) (s : String) : Writing := if b then text s else pure ()

end Writing

/-- How the elements of a list follow each other. -/
inductive Spacing
  | adjacent
  | lines
  | commas
  | commaLines
  /-- Each element stands in braces, with the next of these texts behind it. -/
  | holes (texts : List String)

namespace Spacing

open Writing in
/-- What is written between two elements. -/
def between : Spacing → Writing
  | adjacent => pure ()
  | lines => line
  | commas => text ", "
  | commaLines => do
    text ","
    line
  | holes _ => pure ()

open Writing in
def before : Spacing → Writing
  | holes _ => text "$\x7b"
  | _ => pure ()

open Writing in
def after : Spacing → Writing
  | holes texts => text ("\x7d" ++ texts.headD "")
  | _ => pure ()

/-- How the elements behind the first one follow each other. -/
def rest : Spacing → Spacing
  | holes texts => holes texts.tail
  | s => s

end Spacing

/-- The text of a string literal. -/
def StrLit.text (s : StrLit) : String := s.raw.getD (Json.quote s.value)

namespace BigWhole

/-- The value without its sign. -/
def magnitude (b : BigWhole) : Nat := b.digits.foldr (fun d n => d + 4294967296 * n) 0

def text (b : BigWhole) : String :=
  (if b.sign < 0 then "-" else "") ++ toString b.magnitude ++ "n"

end BigWhole

def Atom.text : Atom → String
  | .this => "this"
  | .null => "null"
  | .bool b => if b then "true" else "false"
  | .num value raw => raw.getD value.positional
  | .str value raw => raw.getD (Json.quote value)
  | .bigInt value raw => raw.getD value.text
  | .regExp pattern flags => "/" ++ pattern ++ "/" ++ flags
  | .metaProperty kind => kind.text
  | .privateName s => "#" ++ s

def FixedKey.text : FixedKey → String
  | .name s => s
  | .privateName s => "#" ++ s
  | .str value raw => raw.getD (Json.quote value)
  | .num value raw => raw.getD value.positional
  | .bigInt value raw => raw.getD value.text

/-- Line ends as a template holds them: a carriage return, with or without a line feed behind it,
is a line feed. -/
def normalLines : List Char → List Char
  | '\r' :: '\n' :: cs => '\n' :: normalLines cs
  | '\r' :: cs => '\n' :: normalLines cs
  | c :: cs => c :: normalLines cs
  | [] => []

def Quasi.text (q : Quasi) : String := String.ofList (normalLines q.raw.toList)

def ExportName.text : ExportName → String
  | .ident id => id.name
  | .str s => s.text

namespace ImportSpecifier

def isNamed : ImportSpecifier → Bool
  | .named _ _ _ => true
  | _ => false

def text : ImportSpecifier → String
  | .named _ here none => here.name
  | .named _ here (some there) => there.text ++ " as " ++ here.name
  | .default _ here => here.name
  | .namespace _ here => "* as " ++ here.name

end ImportSpecifier

/-- Names in braces. -/
def braced (names : List String) : String :=
  if names.isEmpty then "\x7b\x7d" else "\x7b " ++ ", ".intercalate names ++ " \x7d"

/-- Names that stand alone come before those in braces. -/
def Import.text (i : Import) : String :=
  let (named, alone) := i.specifiers.partition (·.isNamed)
  let groups := alone.map (·.text) ++
    if named.isEmpty then [] else [braced (named.map (·.text))]
  let names := if groups.isEmpty then "" else ", ".intercalate groups ++ " from "
  "import " ++ names ++ i.source.text ++ ";"

def ExportSpecifier.text : ExportSpecifier → String
  | .named _ inner none => inner.text
  | .named _ inner (some outer) => inner.text ++ " as " ++ outer.text
  | .namespace _ name => "* as " ++ name.text

def ExportList.text (e : ExportList) : String :=
  let names :=
    match e.specifiers with
    | [.namespace span name] => (ExportSpecifier.namespace span name).text
    | specifiers => braced (specifiers.map (·.text))
  "export " ++ names ++ (e.source.elim "" fun s => " from " ++ s.text) ++ ";"

namespace Node

def isNil : {c : Cat} → Node c → Bool
  | _, .nil => true
  | _, _ => false

def isSome : {c : Cat} → Node c → Bool
  | _, .some _ => true
  | _, _ => false

/-- Whether the last element of a list is missing. -/
def endsInHole : {c : Cat} → Node c → Bool
  | _, .cons a .nil => !a.isSome
  | _, .cons _ l => l.endsInHole
  | _, _ => false

def isBlockStmt : Stmt → Bool
  | .blockStmt _ => true
  | _ => false

/-- Whether a sign before the operand would join it. -/
def joinsSign (op : UnaryOp) : Expr → Bool
  | .unary _ inner _ => op == inner && (op == .minus || op == .plus)
  | .update _ inner isPrefix _ =>
    isPrefix && ((op == .minus && inner == .decrement) || (op == .plus && inner == .increment))
  | _ => false

/-- The words that start a function. -/
def funcWords : Node .func → String
  | .func _ _ isGenerator isAsync _ _ _ =>
    (if isAsync then "async " else "") ++ "function" ++ if isGenerator then "*" else ""

/-- The words before the key of a method. -/
def methodWords : Node .func → String
  | .func _ _ isGenerator isAsync _ _ _ =>
    (if isAsync then "async " else "") ++ if isGenerator then "*" else ""

def methodKindWords : MethodKind → String
  | .method => ""
  | .getter => "get "
  | .setter => "set "

/-- Whether a point behind the expression would belong to it: it is a number written as a whole
one. -/
def needsPoint : Expr → Bool
  | .atom _ (.num _ (.some raw)) =>
    let digits := raw.toList.filter (· != '_')
    digits.all Char.isDigit && !(2 ≤ digits.length && digits.head? == .some '0')
  | .atom _ (.num value .none) => !value.positional.toList.contains '.'
  | _ => false

def isFixed : Key → Bool
  | .fixedKey _ _ => true
  | .computedKey _ _ => false

def nameText (name : Option Ident) : String := name.elim "" fun id => " " ++ id.name

open Writing in
/-- Writes a tree; `spacing` says how the elements of a list follow each other. -/
def emit : {c : Cat} → Node c → (spacing : Spacing) → Writing
  | _, .nil, _ => pure ()
  | _, .cons a l, spacing => do
    spacing.before
    a.emit .adjacent
    spacing.after
    unless l.isNil do spacing.between
    l.emit spacing.rest
  | _, .none, _ => pure ()
  | _, .some a, spacing => a.emit spacing
  | _, .ref id, _ => text id.name
  | _, .atom _ a, _ => text a.text
  | _, .array _ elems, _ => do
    text "["
    unless elems.isNil do
      line
      indent
    elems.emit .commaLines
    textIf elems.endsInHole ", "
    unless elems.isNil do
      line
      dedent
    text "]"
  | _, .object _ props, _ => do
    text "\x7b"
    unless props.isNil do
      line
      indent
    props.emit .commaLines
    unless props.isNil do
      line
      dedent
    text "\x7d"
  | _, .function name f, _ => do
    text (f.funcWords ++ nameText name)
    f.emit .adjacent
  | _, .classExpr name c, _ => do
    text ("class" ++ nameText name)
    c.emit .adjacent
  | _, .arrow _ _ isAsync _ params body, _ => do
    textIf isAsync "async "
    text "("
    params.emit .commas
    text ")=>"
    body.emit .adjacent
  | _, .unary _ op e, _ => do
    text op.text
    textIf (op.isWord || e.joinsSign op) " "
    e.emit .adjacent
  | _, .update _ op isPrefix e, _ => do
    textIf isPrefix op.text
    e.emit .adjacent
    textIf (!isPrefix) op.text
  | _, .binary _ op l r, _ => do
    l.emit .adjacent
    text (" " ++ op.text ++ " ")
    r.emit .adjacent
  | _, .assign _ op p e, _ => do
    p.emit .adjacent
    text (" " ++ op.text ++ " ")
    e.emit .adjacent
  | _, .cond _ t a b, _ => do
    t.emit .adjacent
    text " ? "
    a.emit .adjacent
    text " : "
    b.emit .adjacent
  | _, .seq _ es, _ => es.emit .commas
  | _, .member _ e k, _ => do
    e.emit .adjacent
    textIf k.isFixed (if e.needsPoint then ".." else ".")
    k.emit .adjacent
  | _, .superMember _ _ k, _ => do
    text "super"
    textIf k.isFixed "."
    k.emit .adjacent
  | _, .call _ _ f args, _ => do
    f.emit .adjacent
    text "("
    args.emit .commas
    text ")"
  | _, .newCall _ _ f args, _ => do
    text "new "
    f.emit .adjacent
    textIf args.isSome "("
    args.emit .commas
    textIf args.isSome ")"
  | _, .optMember _ optional _ e k, _ => do
    e.emit .adjacent
    text (if optional then "?." else if k.isFixed then "." else "")
    k.emit .adjacent
  | _, .optCall _ optional _ _ f args, _ => do
    f.emit .adjacent
    textIf optional "?."
    text "("
    args.emit .commas
    text ")"
  | _, .paren _ e, _ => do
    text "("
    e.emit .adjacent
    text ")"
  | _, .template _ es quasis, _ => do
    text ("\x60" ++ (quasis.map (·.text)).headD "")
    es.emit (.holes (quasis.map (·.text)).tail)
    text "\x60"
  | _, .tagged _ _ tag _ es quasis, _ => do
    tag.emit .adjacent
    text ("\x60" ++ (quasis.map (·.text)).headD "")
    es.emit (.holes (quasis.map (·.text)).tail)
    text "\x60"
  | _, .yieldExpr _ delegate e, _ => do
    text (if delegate then "yield*" else "yield")
    textIf e.isSome " "
    e.emit .adjacent
  | _, .awaitExpr _ e, _ => do
    text "await "
    e.emit .adjacent
  | _, .binder id, _ => text id.name
  | _, .arrayPat _ _ elems, _ => do
    text "["
    elems.emit .commas
    textIf elems.endsInHole ", "
    text "]"
  | _, .objectPat _ _ props, _ => do
    text (if props.isNil then "\x7b" else "\x7b ")
    props.emit .commas
    text (if props.isNil then "\x7d" else " \x7d")
  | _, .restPat _ _ p, _ => do
    text "..."
    p.emit .adjacent
  | _, .defaultPat _ p e, _ => do
    p.emit .adjacent
    text " = "
    e.emit .adjacent
  | _, .exprPat e, _ => e.emit .adjacent
  | _, .invalidPat _, _ => pure ()
  | _, .keyedPat k p, _ => do
    k.emit .adjacent
    text ": "
    p.emit .adjacent
  | _, .shortPat _ id e, _ => do
    text id.name
    textIf e.isSome " = "
    e.emit .adjacent
  | _, .restProp _ _ p, _ => do
    text "..."
    p.emit .adjacent
  | _, .fixedKey _ k, _ => text k.text
  | _, .computedKey _ e, _ => do
    text "["
    e.emit .adjacent
    text "]"
  | _, .shortProp id, _ => text id.name
  | _, .defaultProp _ id e, _ => do
    text (id.name ++ "=")
    e.emit .adjacent
  | _, .keyedProp k e, _ => do
    k.emit .adjacent
    text ": "
    e.emit .adjacent
  | _, .getterProp _ k b, _ => do
    text "get "
    k.emit .adjacent
    text "() "
    b.emit .adjacent
  | _, .setterProp _ k p b, _ => do
    text "set "
    k.emit .adjacent
    text "("
    p.emit .adjacent
    text ") "
    b.emit .adjacent
  | _, .methodProp k f, _ => do
    text f.methodWords
    k.emit .adjacent
    f.emit .adjacent
  | _, .spreadProp _ e, _ => do
    text "..."
    e.emit .adjacent
  | _, .plainArg e, _ => e.emit .adjacent
  | _, .spreadArg _ e, _ => do
    text "..."
    e.emit .adjacent
  | _, .exprCallee e, _ => e.emit .adjacent
  | _, .superCallee _, _ => text "super"
  | _, .importCallee _, _ => text "import"
  | _, .func _ _ _ _ params _ body, _ => do
    text "("
    params.emit .commas
    text ") "
    body.emit .adjacent
  | _, .param _ decorators p, _ => do
    decorators.emit .adjacent
    p.emit .adjacent
  | _, .decorator _ e, _ => do
    text "@"
    e.emit .adjacent
    text " "
  | _, .cls _ _ _ members parent, _ => do
    textIf parent.isSome " extends "
    parent.emit .adjacent
    text " \x7b"
    unless members.isNil do
      line
      indent
    members.emit .lines
    unless members.isNil do
      line
      dedent
    text "\x7d"
  | _, .ctorMember _ _ k params b, _ => do
    k.emit .adjacent
    text "("
    params.emit .commas
    text ") "
    b.emit .adjacent
  | _, .methodMember _ kind isStatic k f, _ => do
    textIf isStatic "static "
    text (methodKindWords kind ++ f.methodWords)
    k.emit .adjacent
    f.emit .adjacent
  | _, .fieldMember _ _ isStatic k e decorators, _ => do
    decorators.emit .adjacent
    textIf isStatic "static "
    k.emit .adjacent
    textIf e.isSome " = "
    e.emit .adjacent
    text ";"
  | _, .staticBlock _ b, _ => do
    text "static "
    b.emit .adjacent
  | _, .emptyMember _, _ => text ";"
  | _, .blockBody b, _ => b.emit .adjacent
  | _, .exprBody e, _ => do
    indent
    e.emit .adjacent
    dedent
  | _, .block _ _ stmts, _ => do
    text "\x7b"
    unless stmts.isNil do
      line
      indent
    stmts.emit .lines
    unless stmts.isNil do
      line
      dedent
    text "\x7d"
  | _, .blockStmt b, _ => b.emit .adjacent
  | _, .emptyStmt _, _ => do
    text ";"
    line
  | _, .debuggerStmt _, _ => do
    text "debugger;"
    line
  | _, .exprStmt _ e, _ => do
    e.emit .adjacent
    text ";"
    line
  | _, .withStmt _ e s, _ => do
    text "with("
    e.emit .adjacent
    text ")"
    s.emit .adjacent
    line
  | _, .returnStmt _ e, _ => do
    text (if e.isSome then "return " else "return")
    e.emit .adjacent
    text ";"
    line
  | _, .throwStmt _ e, _ => do
    text "throw "
    e.emit .adjacent
    text ";"
    line
  | _, .labeledStmt _ label s, _ => do
    text (label.name ++ ": ")
    s.emit .adjacent
    line
  | _, .breakStmt _ label, _ => do
    text ("break" ++ nameText label ++ ";")
    line
  | _, .continueStmt _ label, _ => do
    text ("continue" ++ nameText label ++ ";")
    line
  | _, .ifStmt _ t a b, _ => do
    text "if ("
    t.emit .adjacent
    text ") "
    a.emit .adjacent
    textIf b.isSome (if a.isBlockStmt then " else " else "else ")
    b.emit .adjacent
    line
  | _, .switchStmt _ e clauses, _ => do
    text "switch("
    e.emit .adjacent
    text ")\x7b"
    line
    indent
    clauses.emit .lines
    line
    dedent
    text "\x7d"
    line
  | _, .tryStmt _ b h f, _ => do
    text "try "
    b.emit .adjacent
    textIf h.isSome " "
    h.emit .adjacent
    textIf f.isSome " finally"
    f.emit .adjacent
    line
  | _, .whileStmt _ t s, _ => do
    text "while("
    t.emit .adjacent
    text ")"
    s.emit .adjacent
    line
  | _, .doWhileStmt _ t s, _ => do
    text "do "
    s.emit .adjacent
    text "while ("
    t.emit .adjacent
    text ")"
    line
  | _, .forStmt _ i t u s, _ => do
    text "for("
    i.emit .adjacent
    text (if t.isSome then "; " else ";")
    t.emit .adjacent
    text (if u.isSome then "; " else ";")
    u.emit .adjacent
    text ")"
    s.emit .adjacent
    line
  | _, .forInStmt _ h e s, _ => do
    text "for("
    h.emit .adjacent
    text " in "
    e.emit .adjacent
    text ")"
    s.emit .adjacent
    line
  | _, .forOfStmt _ isAwait h e s, _ => do
    text (if isAwait then "for await (" else "for (")
    h.emit .adjacent
    text " of "
    e.emit .adjacent
    text ")"
    s.emit .adjacent
    line
  | _, .declStmt d, _ => do
    d.emit .adjacent
    line
  | _, .clause _ t body, _ => do
    text (if t.isSome then "case " else "default")
    t.emit .adjacent
    text ":"
    line
    indent
    body.emit .lines
    dedent
  | _, .handler _ p b, _ => do
    text "catch "
    textIf p.isSome "("
    p.emit .adjacent
    textIf p.isSome ")"
    text " "
    b.emit .adjacent
  | _, .initDecl v, _ => v.emit .adjacent
  | _, .initExpr e, _ => e.emit .adjacent
  | _, .headDecl v, _ => v.emit .adjacent
  | _, .headUsing _ isAwait decls, _ => do
    textIf isAwait "await "
    text "using "
    decls.emit .commas
  | _, .headPat p, _ => p.emit .adjacent
  | _, .declVar v, _ => do
    v.emit .adjacent
    text ";"
  | _, .declFunc _ name f, _ => do
    text (f.funcWords ++ " " ++ name.name)
    f.emit .adjacent
  | _, .declClass _ name c, _ => do
    text ("class " ++ name.name)
    c.emit .adjacent
  | _, .declUsing _ isAwait decls, _ => do
    textIf isAwait "await "
    text "using "
    decls.emit .commas
    text ";"
  | _, .varDecl _ _ kind _ decls, _ => do
    text (kind.text ++ " ")
    decls.emit .commas
  | _, .declarator _ _ p e, _ => do
    p.emit .adjacent
    textIf e.isSome " = "
    e.emit .adjacent
  | _, .stmtItem s, _ => s.emit .adjacent
  | _, .importItem i, _ => do
    text i.text
    line
  | _, .exportDecl _ d, _ => do
    text "export "
    d.emit .adjacent
    line
  | _, .exportNames e, _ => do
    text e.text
    line
  | _, .exportFunc _ name f, _ => do
    text ("export default " ++ f.funcWords ++ nameText name)
    f.emit .adjacent
    line
  | _, .exportClass _ name c, _ => do
    text ("export default class" ++ nameText name)
    c.emit .adjacent
    line
  | _, .exportExpr _ e, _ => do
    text "export default "
    e.emit .adjacent
    text ";"
    line
  | _, .exportAll _ source, _ => do
    text ("export * from " ++ source.text ++ ";")
    line
  | _, .moduleProgram _ interpreter items, _ => do
    text (interpreter.elim "" ("#!" ++ ·))
    line
    items.emit .adjacent
  | _, .scriptProgram _ interpreter stmts, _ => do
    text (interpreter.elim "" ("#!" ++ ·))
    line
    stmts.emit .adjacent

/-- The source text of a tree. -/
def print {c : Cat} (n : Node c) : String := ((n.emit .adjacent).run .empty).2.text

end Node

end PlainJs
