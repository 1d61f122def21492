import PlainJs.Json.Basic
import PlainJs.Node.Basic
import PlainJs.Number.Double

namespace PlainJs

namespace Load

/-- A member, where a missing one counts as `null`. -/
def member (name : String) (j : Json) : Json := (j.get? name).getD .null

def type? (j : Json) : Option String := (j.get? "type").bind Json.str?

def span? (j : Json) : Option Span := do
  return ⟨← (member "start" j).nat?, ← (member "end" j).nat?⟩

def bool? (name : String) (j : Json) : Option Bool := (member name j).bool?

def nat? (name : String) (j : Json) : Option Nat := (member name j).nat?

def str? (name : String) (j : Json) : Option String := (member name j).str?

def spanOf? (j : Json) : Option Span := span? (member "span" j)

/-- A part that may be `null`. -/
def orNone? {α : Type} (f : Json → Option α) (j : Json) : Option (Option α) :=
  if j.isNull then .some .none else (f j).map .some

def raw? (j : Json) : Option (Option String) := orNone? Json.str? (member "raw" j)

def ident? (j : Json) : Option Ident := do
  return ⟨← spanOf? j, ← nat? "ctxt" j, ← str? "value" j, ← bool? "optional" j⟩

def number? (j : Json) : Option Decimal := (member "value" j).decimal?.bind Decimal.toDouble?

def bigWhole? (j : Json) : Option BigWhole := do
  match ← (member "value" j).arr? with
  | [sign, digits] => return ⟨← sign.int?, ← (← digits.arr?).mapM Json.nat?⟩
  | _ => .none

/-- The forms of expression without parts. -/
def atom? (j : Json) : Option Atom := do
  match ← type? j with
  | "ThisExpression" => return .this
  | "NullLiteral" => return .null
  | "BooleanLiteral" => return .bool (← bool? "value" j)
  | "NumericLiteral" => return .num (← number? j) (← raw? j)
  | "StringLiteral" => return .str (← str? "value" j) (← raw? j)
  | "BigIntLiteral" => return .bigInt (← bigWhole? j) (← raw? j)
  | "RegExpLiteral" => return .regExp (← str? "pattern" j) (← str? "flags" j)
  | "MetaProperty" => return .metaProperty (← (← str? "kind" j) |> MetaKind.ofText?)
  | "PrivateName" => return .privateName (← str? "value" j)
  | _ => .none

def fixedKey? (j : Json) : Option FixedKey := do
  match ← type? j with
  | "Identifier" => return .name (← str? "value" j)
  | "PrivateName" => return .privateName (← str? "value" j)
  | "StringLiteral" => return .str (← str? "value" j) (← raw? j)
  | "NumericLiteral" => return .num (← number? j) (← raw? j)
  | "BigIntLiteral" => return .bigInt (← bigWhole? j) (← raw? j)
  | _ => .none

def quasi? (j : Json) : Option Quasi := do
  return ⟨← spanOf? j, ← bool? "tail" j, ← orNone? Json.str? (member "cooked" j), ← str? "raw" j⟩

def quasis? (j : Json) : Option (List Quasi) := do (← (member "quasis" j).arr?).mapM quasi?

def strLit? (j : Json) : Option StrLit := do
  return ⟨← spanOf? j, ← str? "value" j, ← raw? j⟩

def exportName? (j : Json) : Option ExportName := do
  match ← type? j with
  | "Identifier" => return .ident (← ident? j)
  | "StringLiteral" => return .str (← strLit? j)
  | _ => .none

def importSpecifier? (j : Json) : Option ImportSpecifier := do
  let span ← spanOf? j
  let here ← ident? (member "local" j)
  match ← type? j with
  | "ImportSpecifier" => return .named span here (← orNone? exportName? (member "imported" j))
  | "ImportDefaultSpecifier" => return .default span here
  | "ImportNamespaceSpecifier" => return .namespace span here
  | _ => .none

def import? (j : Json) : Option Import := do
  return ⟨← spanOf? j, ← (← (member "specifiers" j).arr?).mapM importSpecifier?,
    ← strLit? (member "source" j)⟩

def exportSpecifier? (j : Json) : Option ExportSpecifier := do
  let span ← spanOf? j
  match ← type? j with
  | "ExportSpecifier" =>
    return .named span (← exportName? (member "orig" j))
      (← orNone? exportName? (member "exported" j))
  | "ExportNamespaceSpecifier" => return .namespace span (← exportName? (member "name" j))
  | _ => .none

def exportList? (j : Json) : Option ExportList := do
  return ⟨← spanOf? j, ← (← (member "specifiers" j).arr?).mapM exportSpecifier?,
    ← orNone? strLit? (member "source" j)⟩

/-- A reader for trees of every category. -/
abbrev Reader := (c : Cat) → Json → Option (Node c)

variable (read : Reader)

/-- Reads the member `name` as a tree. -/
def part (c : Cat) (name : String) (j : Json) : Option (Node c) := read c (member name j)

def expr (j : Json) : Option (Node .expr) := do
  let type ← type? j
  match type with
  | "FunctionExpression" =>
    return .function (← orNone? ident? (member "identifier" j)) (← read .func j)
  | "ClassExpression" =>
    return .classExpr (← orNone? ident? (member "identifier" j)) (← read .cls j)
  | _ =>
  let span ← spanOf? j
  match type with
  | "Identifier" => return .ref (← ident? j)
  | "ArrayExpression" => return .array span (← part read _ "elements" j)
  | "ObjectExpression" => return .object span (← part read _ "properties" j)
  | "ArrowFunctionExpression" =>
    return .arrow span (← nat? "ctxt" j) (← bool? "async" j) (← bool? "generator" j)
      (← part read _ "params" j) (← part read _ "body" j)
  | "UnaryExpression" =>
    return .unary span (← UnaryOp.ofText? (← str? "operator" j)) (← part read _ "argument" j)
  | "UpdateExpression" =>
    return .update span (← UpdateOp.ofText? (← str? "operator" j)) (← bool? "prefix" j)
      (← part read _ "argument" j)
  | "BinaryExpression" =>
    return .binary span (← BinaryOp.ofText? (← str? "operator" j))
      (← part read _ "left" j) (← part read _ "right" j)
  | "AssignmentExpression" =>
    return .assign span (← AssignOp.ofText? (← str? "operator" j))
      (← part read _ "left" j) (← part read _ "right" j)
  | "ConditionalExpression" =>
    return .cond span (← part read _ "test" j) (← part read _ "consequent" j)
      (← part read _ "alternate" j)
  | "SequenceExpression" => return .seq span (← part read _ "expressions" j)
  | "MemberExpression" =>
    return .member span (← part read _ "object" j) (← part read _ "property" j)
  | "SuperPropExpression" =>
    return .superMember span (← spanOf? (member "obj" j)) (← part read _ "property" j)
  | "CallExpression" =>
    return .call span (← nat? "ctxt" j) (← part read _ "callee" j) (← part read _ "arguments" j)
  | "NewExpression" =>
    return .newCall span (← nat? "ctxt" j) (← part read _ "callee" j)
      (← part read _ "arguments" j)
  | "OptionalChainingExpression" =>
    let base := member "base" j
    let optional ← bool? "optional" j
    let baseSpan ← spanOf? base
    match ← type? base with
    | "MemberExpression" =>
      return .optMember span optional baseSpan (← part read _ "object" base)
        (← part read _ "property" base)
    | "CallExpression" =>
      return .optCall span optional baseSpan (← nat? "ctxt" base) (← part read _ "callee" base)
        (← part read _ "arguments" base)
    | _ => .none
  | "ParenthesisExpression" => return .paren span (← part read _ "expression" j)
  | "TemplateLiteral" => return .template span (← part read _ "expressions" j) (← quasis? j)
  | "TaggedTemplateExpression" =>
    let text := member "template" j
    return .tagged span (← nat? "ctxt" j) (← part read _ "tag" j) (← spanOf? text)
      (← part read _ "expressions" text) (← quasis? text)
  | "YieldExpression" =>
    return .yieldExpr span (← bool? "delegate" j) (← part read _ "argument" j)
  | "AwaitExpression" => return .awaitExpr span (← part read _ "argument" j)
  | _ => return .atom span (← atom? j)

def pat (j : Json) : Option (Node .pat) := do
  match ← type? j with
  | "Identifier" => return .binder (← ident? j)
  | "ArrayPattern" =>
    return .arrayPat (← spanOf? j) (← bool? "optional" j) (← part read _ "elements" j)
  | "ObjectPattern" =>
    return .objectPat (← spanOf? j) (← bool? "optional" j) (← part read _ "properties" j)
  | "RestElement" =>
    return .restPat (← spanOf? j) (← span? (member "rest" j)) (← part read _ "argument" j)
  | "AssignmentPattern" =>
    return .defaultPat (← spanOf? j) (← part read _ "left" j) (← part read _ "right" j)
  | "Invalid" => return .invalidPat (← spanOf? j)
  | _ => return .exprPat (← read _ j)

def patProp (j : Json) : Option (Node .patProp) := do
  match ← type? j with
  | "KeyValuePatternProperty" =>
    return .keyedPat (← part read _ "key" j) (← part read _ "value" j)
  | "AssignmentPatternProperty" =>
    return .shortPat (← spanOf? j) (← ident? (member "key" j)) (← part read _ "value" j)
  | "RestElement" =>
    return .restProp (← spanOf? j) (← span? (member "rest" j)) (← part read _ "argument" j)
  | _ => .none

def key (j : Json) : Option (Node .key) := do
  let span ← spanOf? j
  match ← type? j with
  | "Computed" => return .computedKey span (← part read _ "expression" j)
  | _ => return .fixedKey span (← fixedKey? j)

def prop (j : Json) : Option (Node .prop) := do
  match ← type? j with
  | "Identifier" => return .shortProp (← ident? j)
  | "AssignmentProperty" =>
    return .defaultProp (← spanOf? j) (← ident? (member "key" j)) (← part read _ "value" j)
  | "KeyValueProperty" => return .keyedProp (← part read _ "key" j) (← part read _ "value" j)
  | "GetterProperty" =>
    return .getterProp (← spanOf? j) (← part read _ "key" j) (← part read _ "body" j)
  | "SetterProperty" =>
    return .setterProp (← spanOf? j) (← part read _ "key" j) (← part read _ "param" j)
      (← part read _ "body" j)
  | "MethodProperty" => return .methodProp (← part read _ "key" j) (← read _ j)
  | "SpreadElement" =>
    return .spreadProp (← span? (member "spread" j)) (← part read _ "arguments" j)
  | _ => .none

def arg (j : Json) : Option (Node .arg) := do
  let value ← part read _ "expression" j
  match ← orNone? span? (member "spread" j) with
  | .some dots => return .spreadArg dots value
  | .none => return .plainArg value

def callee (j : Json) : Option (Node .callee) := do
  match ← type? j with
  | "Super" => return .superCallee (← spanOf? j)
  | "Import" => return .importCallee (← spanOf? j)
  | _ => return .exprCallee (← read _ j)

def func (j : Json) : Option (Node .func) := do
  return .func (← spanOf? j) (← nat? "ctxt" j) (← bool? "generator" j) (← bool? "async" j)
    (← part read _ "params" j) (← part read _ "decorators" j) (← part read _ "body" j)

def cls (j : Json) : Option (Node .cls) := do
  return .cls (← spanOf? j) (← nat? "ctxt" j) (← part read _ "decorators" j)
    (← part read _ "body" j) (← part read _ "superClass" j)

def param (j : Json) : Option (Node .param) := do
  return .param (← spanOf? j) (← part read _ "decorators" j) (← part read _ "pat" j)

def decorator (j : Json) : Option (Node .decorator) := do
  return .decorator (← spanOf? j) (← part read _ "expression" j)

def classMember (j : Json) : Option (Node .member) := do
  let span ← spanOf? j
  match ← type? j with
  | "Constructor" =>
    return .ctorMember span (← nat? "ctxt" j) (← part read _ "key" j) (← part read _ "params" j)
      (← part read _ "body" j)
  | "ClassMethod" | "PrivateMethod" =>
    return .methodMember span (← MethodKind.ofText? (← str? "kind" j)) (← bool? "isStatic" j)
      (← part read _ "key" j) (← part read _ "function" j)
  | "ClassProperty" =>
    return .fieldMember span 0 (← bool? "isStatic" j) (← part read _ "key" j)
      (← part read _ "value" j) (← part read _ "decorators" j)
  | "PrivateProperty" =>
    return .fieldMember span (← nat? "ctxt" j) (← bool? "isStatic" j) (← part read _ "key" j)
      (← part read _ "value" j) (← part read _ "decorators" j)
  | "StaticBlock" => return .staticBlock span (← part read _ "body" j)
  | "EmptyStatement" => return .emptyMember span
  | _ => .none

def arrowBody (j : Json) : Option (Node .arrowBody) := do
  match ← type? j with
  | "BlockStatement" => return .blockBody (← read _ j)
  | _ => return .exprBody (← read _ j)

def block (j : Json) : Option (Node .block) := do
  match ← type? j with
  | "BlockStatement" => return .block (← spanOf? j) (← nat? "ctxt" j) (← part read _ "stmts" j)
  | _ => .none

def stmt (j : Json) : Option (Node .stmt) := do
  let type ← type? j
  match type with
  | "FunctionDeclaration" | "ClassDeclaration" | "VariableDeclaration" | "UsingDeclaration" =>
    return .declStmt (← read _ j)
  | _ =>
  let span ← spanOf? j
  match type with
  | "BlockStatement" => return .blockStmt (← read _ j)
  | "EmptyStatement" => return .emptyStmt span
  | "DebuggerStatement" => return .debuggerStmt span
  | "ExpressionStatement" => return .exprStmt span (← part read _ "expression" j)
  | "WithStatement" =>
    return .withStmt span (← part read _ "object" j) (← part read _ "body" j)
  | "ReturnStatement" => return .returnStmt span (← part read _ "argument" j)
  | "ThrowStatement" => return .throwStmt span (← part read _ "argument" j)
  | "LabeledStatement" =>
    return .labeledStmt span (← ident? (member "label" j)) (← part read _ "body" j)
  | "BreakStatement" => return .breakStmt span (← orNone? ident? (member "label" j))
  | "ContinueStatement" => return .continueStmt span (← orNone? ident? (member "label" j))
  | "IfStatement" =>
    return .ifStmt span (← part read _ "test" j) (← part read _ "consequent" j)
      (← part read _ "alternate" j)
  | "SwitchStatement" =>
    return .switchStmt span (← part read _ "discriminant" j) (← part read _ "cases" j)
  | "TryStatement" =>
    return .tryStmt span (← part read _ "block" j) (← part read _ "handler" j)
      (← part read _ "finalizer" j)
  | "WhileStatement" =>
    return .whileStmt span (← part read _ "test" j) (← part read _ "body" j)
  | "DoWhileStatement" =>
    return .doWhileStmt span (← part read _ "test" j) (← part read _ "body" j)
  | "ForStatement" =>
    return .forStmt span (← part read _ "init" j) (← part read _ "test" j)
      (← part read _ "update" j) (← part read _ "body" j)
  | "ForInStatement" =>
    return .forInStmt span (← part read _ "left" j) (← part read _ "right" j)
      (← part read _ "body" j)
  | "ForOfStatement" =>
    return .forOfStmt span (← bool? "await" j) (← part read _ "left" j)
      (← part read _ "right" j) (← part read _ "body" j)
  | _ => .none

def decl (j : Json) : Option (Node .decl) := do
  match ← type? j with
  | "FunctionDeclaration" =>
    return .declFunc (← bool? "declare" j) (← ident? (member "identifier" j)) (← read _ j)
  | "ClassDeclaration" =>
    return .declClass (← bool? "declare" j) (← ident? (member "identifier" j)) (← read _ j)
  | "VariableDeclaration" => return .declVar (← read _ j)
  | "UsingDeclaration" =>
    return .declUsing (← spanOf? j) (← bool? "isAwait" j) (← part read _ "decls" j)
  | _ => .none

def varDecl (j : Json) : Option (Node .varDecl) := do
  return .varDecl (← spanOf? j) (← nat? "ctxt" j) (← VarKind.ofText? (← str? "kind" j))
    (← bool? "declare" j) (← part read _ "declarations" j)

def declarator (j : Json) : Option (Node .declarator) := do
  return .declarator (← spanOf? j) (← bool? "definite" j) (← part read _ "id" j)
    (← part read _ "init" j)

def clause (j : Json) : Option (Node .clause) := do
  return .clause (← spanOf? j) (← part read _ "test" j) (← part read _ "consequent" j)

def handler (j : Json) : Option (Node .handler) := do
  return .handler (← spanOf? j) (← part read _ "param" j) (← part read _ "body" j)

def forInit (j : Json) : Option (Node .forInit) := do
  match ← type? j with
  | "VariableDeclaration" => return .initDecl (← read _ j)
  | _ => return .initExpr (← read _ j)

def forHead (j : Json) : Option (Node .forHead) := do
  match ← type? j with
  | "VariableDeclaration" => return .headDecl (← read _ j)
  | "UsingDeclaration" =>
    return .headUsing (← spanOf? j) (← bool? "isAwait" j) (← part read _ "decls" j)
  | _ => return .headPat (← read _ j)

def item (j : Json) : Option (Node .item) := do
  match ← type? j with
  | "ImportDeclaration" => return .importItem (← import? j)
  | "ExportDeclaration" => return .exportDecl (← spanOf? j) (← part read _ "declaration" j)
  | "ExportNamedDeclaration" => return .exportNames (← exportList? j)
  | "ExportDefaultDeclaration" =>
    let d := member "decl" j
    let name ← orNone? ident? (member "identifier" d)
    match ← type? d with
    | "FunctionExpression" => return .exportFunc (← spanOf? j) name (← read _ d)
    | "ClassExpression" => return .exportClass (← spanOf? j) name (← read _ d)
    | _ => .none
  | "ExportDefaultExpression" => return .exportExpr (← spanOf? j) (← part read _ "expression" j)
  | "ExportAllDeclaration" => return .exportAll (← spanOf? j) (← strLit? (member "source" j))
  | _ => return .stmtItem (← read _ j)

def program (j : Json) : Option (Node .program) := do
  let span ← spanOf? j
  let interpreter ← orNone? Json.str? (member "interpreter" j)
  match ← type? j with
  | "Module" => return .moduleProgram span interpreter (← part read _ "body" j)
  | "Script" => return .scriptProgram span interpreter (← part read _ "body" j)
  | _ => .none

/-- Reads a tree, going at most `fuel` steps down. -/
def load (fuel : Nat) (c : Cat) (j : Json) : Option (Node c) :=
  match fuel with
  | 0 => .none
  | fuel + 1 =>
    let read : Reader := fun c j => load fuel c j
    match c with
    | .expr => expr read j
    | .pat => pat read j
    | .patProp => patProp read j
    | .key => key read j
    | .prop => prop read j
    | .arg => arg read j
    | .callee => callee read j
    | .func => func read j
    | .param => param read j
    | .decorator => decorator read j
    | .cls => cls read j
    | .member => classMember read j
    | .arrowBody => arrowBody read j
    | .block => block read j
    | .stmt => stmt read j
    | .decl => decl read j
    | .varDecl => varDecl read j
    | .declarator => declarator read j
    | .clause => clause read j
    | .handler => handler read j
    | .forInit => forInit read j
    | .forHead => forHead read j
    | .item => item read j
    | .program => program read j
    | .list c => j.arr?.bind fun elems => (elems.mapM (read c)).map Node.ofList
    | .opt c => if j.isNull then .some .none else (read c j).map .some

end Load

/-- The tree of category `c` that a JSON value stands for. -/
def Node.ofJson? (c : Cat) (j : Json) : Option (Node c) :=
  Load.load (8 * j.depth + 8) c j

end PlainJs
