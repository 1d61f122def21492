import PlainJs.Json.Basic
import PlainJs.Node.Basic
import PlainJs.Number.Double

namespace PlainJs

open Json (ofNat orNull)

def Span.toJson (s : Span) : Json := .obj [("start", ofNat s.lo), ("end", ofNat s.hi)]

def Ident.members (id : Ident) : List (String × Json) :=
  [("type", .str "Identifier"), ("span", id.span.toJson), ("ctxt", ofNat id.ctxt),
    ("value", .str id.name), ("optional", .bool id.optional)]

def Ident.toJson (id : Ident) : Json := .obj id.members

/-- An identifier where a pattern may stand. -/
def Ident.binderJson (id : Ident) : Json := .obj (id.members ++ [("typeAnnotation", .null)])

def BigWhole.toJson (n : BigWhole) : Json :=
  .arr [.num n.sign, .arr (n.digits.map Json.ofNat)]

namespace Json

/-- An object for a node of the given kind. -/
def node (type : String) (members : List (String × Json)) : Json :=
  .obj (("type", .str type) :: members)

def nodeAt (type : String) (span : Span) (members : List (String × Json)) : Json :=
  node type (("span", span.toJson) :: members)

/-- The members of an object. -/
def membersOf : Json → List (String × Json)
  | .obj members => members
  | _ => []

/-- An array with one more element in front. -/
def consElem (j : Json) : Json → Json
  | .arr elems => .arr (j :: elems)
  | _ => .arr [j]

/-- The nearest binary64 number; one beyond the range has no JSON form. -/
def ofDecimal (d : Decimal) : Json := orNull .real d.toDouble?

def ofRaw (raw : Option String) : Json := orNull .str raw

end Json

open Json

def Atom.toJson (span : Span) : Atom → Json
  | .this => nodeAt "ThisExpression" span []
  | .null => nodeAt "NullLiteral" span []
  | .bool b => nodeAt "BooleanLiteral" span [("value", .bool b)]
  | .num v raw => nodeAt "NumericLiteral" span [("value", ofDecimal v), ("raw", ofRaw raw)]
  | .str v raw => nodeAt "StringLiteral" span [("value", .str v), ("raw", ofRaw raw)]
  | .bigInt v raw => nodeAt "BigIntLiteral" span [("value", v.toJson), ("raw", ofRaw raw)]
  | .regExp pattern flags =>
    nodeAt "RegExpLiteral" span [("pattern", .str pattern), ("flags", .str flags)]
  | .metaProperty kind => nodeAt "MetaProperty" span [("kind", .str kind.text)]
  | .privateName name => nodeAt "PrivateName" span [("value", .str name)]

def FixedKey.toJson (span : Span) : FixedKey → Json
  | .name s => nodeAt "Identifier" span [("value", .str s)]
  | .privateName s => Atom.toJson span (.privateName s)
  | .str v raw => Atom.toJson span (.str v raw)
  | .num v raw => Atom.toJson span (.num v raw)
  | .bigInt v raw => Atom.toJson span (.bigInt v raw)

def Quasi.toJson (q : Quasi) : Json :=
  nodeAt "TemplateElement" q.span
    [("tail", .bool q.tail), ("cooked", orNull .str q.cooked), ("raw", .str q.raw)]

def StrLit.toJson (s : StrLit) : Json := Atom.toJson s.span (.str s.value s.raw)

def ExportName.toJson : ExportName → Json
  | .ident id => id.toJson
  | .str lit => lit.toJson

def ImportSpecifier.toJson : ImportSpecifier → Json
  | .named span here there =>
    nodeAt "ImportSpecifier" span
      [("local", here.toJson), ("imported", orNull ExportName.toJson there),
        ("isTypeOnly", .bool false)]
  | .default span here => nodeAt "ImportDefaultSpecifier" span [("local", here.toJson)]
  | .namespace span here => nodeAt "ImportNamespaceSpecifier" span [("local", here.toJson)]

def Import.toJson (i : Import) : Json :=
  nodeAt "ImportDeclaration" i.span
    [("specifiers", .arr (i.specifiers.map ImportSpecifier.toJson)), ("source", i.source.toJson),
      ("typeOnly", .bool false), ("with", .null), ("phase", .str "evaluation")]

def ExportSpecifier.toJson : ExportSpecifier → Json
  | .named span inner outer =>
    nodeAt "ExportSpecifier" span
      [("orig", inner.toJson), ("exported", orNull ExportName.toJson outer),
        ("isTypeOnly", .bool false)]
  | .namespace span name => nodeAt "ExportNamespaceSpecifier" span [("name", name.toJson)]

def ExportList.toJson (e : ExportList) : Json :=
  nodeAt "ExportNamedDeclaration" e.span
    [("specifiers", .arr (e.specifiers.map ExportSpecifier.toJson)),
      ("source", orNull StrLit.toJson e.source), ("typeOnly", .bool false), ("with", .null)]

namespace Node

def isPrivateKey : Key → Bool
  | .fixedKey _ (.privateName _) => true
  | _ => false

/-- Members that plain code leaves at their defaults on every member of a class. -/
def memberDefaults : List (String × Json) :=
  [("accessibility", .null), ("isOptional", .bool false), ("isOverride", .bool false)]

/-- The JSON form of a tree. -/
def toJson : {c : Cat} → Node c → Json
  | _, .nil => .arr []
  | _, .cons a l => consElem a.toJson l.toJson
  | _, .none => .null
  | _, .some a => a.toJson
  | _, .ref id => id.toJson
  | _, .atom span a => a.toJson span
  | _, .array span elems => nodeAt "ArrayExpression" span [("elements", elems.toJson)]
  | _, .object span props => nodeAt "ObjectExpression" span [("properties", props.toJson)]
  | _, .function name f =>
    node "FunctionExpression" (("identifier", orNull Ident.toJson name) :: membersOf f.toJson)
  | _, .classExpr name c =>
    node "ClassExpression" (("identifier", orNull Ident.toJson name) :: membersOf c.toJson)
  | _, .arrow span ctxt isAsync isGenerator params body =>
    nodeAt "ArrowFunctionExpression" span
      [("ctxt", ofNat ctxt), ("params", params.toJson), ("body", body.toJson),
        ("async", .bool isAsync), ("generator", .bool isGenerator), ("typeParameters", .null),
        ("returnType", .null)]
  | _, .unary span op a =>
    nodeAt "UnaryExpression" span [("operator", .str op.text), ("argument", a.toJson)]
  | _, .update span op isPrefix a =>
    nodeAt "UpdateExpression" span
      [("operator", .str op.text), ("prefix", .bool isPrefix), ("argument", a.toJson)]
  | _, .binary span op l r =>
    nodeAt "BinaryExpression" span
      [("operator", .str op.text), ("left", l.toJson), ("right", r.toJson)]
  | _, .assign span op l r =>
    nodeAt "AssignmentExpression" span
      [("operator", .str op.text), ("left", l.toJson), ("right", r.toJson)]
  | _, .cond span t a b =>
    nodeAt "ConditionalExpression" span
      [("test", t.toJson), ("consequent", a.toJson), ("alternate", b.toJson)]
  | _, .seq span es => nodeAt "SequenceExpression" span [("expressions", es.toJson)]
  | _, .member span o k =>
    nodeAt "MemberExpression" span [("object", o.toJson), ("property", k.toJson)]
  | _, .superMember span superSpan k =>
    nodeAt "SuperPropExpression" span
      [("obj", nodeAt "Super" superSpan []), ("property", k.toJson)]
  | _, .call span ctxt f args =>
    nodeAt "CallExpression" span
      [("ctxt", ofNat ctxt), ("callee", f.toJson), ("arguments", args.toJson),
        ("typeArguments", .null)]
  | _, .newCall span ctxt f args =>
    nodeAt "NewExpression" span
      [("ctxt", ofNat ctxt), ("callee", f.toJson), ("arguments", args.toJson),
        ("typeArguments", .null)]
  | _, .optMember span optional baseSpan o k =>
    nodeAt "OptionalChainingExpression" span
      [("optional", .bool optional), ("base", nodeAt "MemberExpression" baseSpan
        [("object", o.toJson), ("property", k.toJson)])]
  | _, .optCall span optional baseSpan ctxt f args =>
    nodeAt "OptionalChainingExpression" span
      [("optional", .bool optional), ("base", nodeAt "CallExpression" baseSpan
        [("ctxt", ofNat ctxt), ("callee", f.toJson), ("arguments", args.toJson),
          ("typeArguments", .null)])]
  | _, .paren span e => nodeAt "ParenthesisExpression" span [("expression", e.toJson)]
  | _, .template span es quasis =>
    nodeAt "TemplateLiteral" span
      [("expressions", es.toJson), ("quasis", .arr (quasis.map Quasi.toJson))]
  | _, .tagged span ctxt tag textSpan es quasis =>
    nodeAt "TaggedTemplateExpression" span
      [("ctxt", ofNat ctxt), ("tag", tag.toJson), ("typeParameters", .null),
        ("template", nodeAt "TemplateLiteral" textSpan
          [("expressions", es.toJson), ("quasis", .arr (quasis.map Quasi.toJson))])]
  | _, .yieldExpr span delegate a =>
    nodeAt "YieldExpression" span [("argument", a.toJson), ("delegate", .bool delegate)]
  | _, .awaitExpr span a => nodeAt "AwaitExpression" span [("argument", a.toJson)]
  | _, .binder id => id.binderJson
  | _, .arrayPat span optional elems =>
    nodeAt "ArrayPattern" span
      [("elements", elems.toJson), ("optional", .bool optional), ("typeAnnotation", .null)]
  | _, .objectPat span optional props =>
    nodeAt "ObjectPattern" span
      [("properties", props.toJson), ("optional", .bool optional), ("typeAnnotation", .null)]
  | _, .restPat span dots p | _, .restProp span dots p =>
    nodeAt "RestElement" span
      [("rest", dots.toJson), ("argument", p.toJson), ("typeAnnotation", .null)]
  | _, .defaultPat span p e =>
    nodeAt "AssignmentPattern" span [("left", p.toJson), ("right", e.toJson)]
  | _, .exprPat e => e.toJson
  | _, .invalidPat span => nodeAt "Invalid" span []
  | _, .keyedPat k p =>
    node "KeyValuePatternProperty" [("key", k.toJson), ("value", p.toJson)]
  | _, .shortPat span id e =>
    nodeAt "AssignmentPatternProperty" span [("key", id.binderJson), ("value", e.toJson)]
  | _, .fixedKey span k => k.toJson span
  | _, .computedKey span e => nodeAt "Computed" span [("expression", e.toJson)]
  | _, .shortProp id => id.toJson
  | _, .defaultProp span id e =>
    nodeAt "AssignmentProperty" span [("key", id.toJson), ("value", e.toJson)]
  | _, .keyedProp k e => node "KeyValueProperty" [("key", k.toJson), ("value", e.toJson)]
  | _, .getterProp span k body =>
    nodeAt "GetterProperty" span
      [("key", k.toJson), ("typeAnnotation", .null), ("body", body.toJson)]
  | _, .setterProp span k p body =>
    nodeAt "SetterProperty" span
      [("key", k.toJson), ("thisParam", .null), ("param", p.toJson), ("body", body.toJson)]
  | _, .methodProp k f => node "MethodProperty" (("key", k.toJson) :: membersOf f.toJson)
  | _, .spreadProp dots e =>
    node "SpreadElement" [("spread", dots.toJson), ("arguments", e.toJson)]
  | _, .plainArg e => .obj [("spread", .null), ("expression", e.toJson)]
  | _, .spreadArg dots e => .obj [("spread", dots.toJson), ("expression", e.toJson)]
  | _, .exprCallee e => e.toJson
  | _, .superCallee span => nodeAt "Super" span []
  | _, .importCallee span => nodeAt "Import" span [("phase", .str "evaluation")]
  | _, .func span ctxt isGenerator isAsync params decorators body =>
    .obj [("params", params.toJson), ("decorators", decorators.toJson), ("span", span.toJson),
      ("ctxt", ofNat ctxt), ("body", body.toJson), ("generator", .bool isGenerator),
      ("async", .bool isAsync), ("typeParameters", .null), ("returnType", .null)]
  | _, .param span decorators p =>
    nodeAt "Parameter" span [("decorators", decorators.toJson), ("pat", p.toJson)]
  | _, .decorator span e => nodeAt "Decorator" span [("expression", e.toJson)]
  | _, .cls span ctxt decorators members parent =>
    .obj [("span", span.toJson), ("ctxt", ofNat ctxt), ("decorators", decorators.toJson),
      ("body", members.toJson), ("superClass", parent.toJson), ("isAbstract", .bool false),
      ("typeParams", .null), ("superTypeParams", .null), ("implements", .arr [])]
  | _, .ctorMember span ctxt k params body =>
    nodeAt "Constructor" span
      [("ctxt", ofNat ctxt), ("key", k.toJson), ("params", params.toJson), ("body", body.toJson),
        ("accessibility", .null), ("isOptional", .bool false)]
  | _, .methodMember span kind isStatic k f =>
    nodeAt (if isPrivateKey k then "PrivateMethod" else "ClassMethod") span
      ([("key", k.toJson), ("function", f.toJson), ("kind", .str kind.text),
        ("isStatic", .bool isStatic), ("isAbstract", .bool false)] ++ memberDefaults)
  | _, .fieldMember span ctxt isStatic k e decorators =>
    let shared : List (String × Json) :=
      [("key", k.toJson), ("value", e.toJson), ("typeAnnotation", .null),
        ("isStatic", .bool isStatic), ("decorators", decorators.toJson),
        ("readonly", .bool false), ("definite", .bool false)] ++ memberDefaults
    if isPrivateKey k then nodeAt "PrivateProperty" span (("ctxt", ofNat ctxt) :: shared)
    else
      nodeAt "ClassProperty" span
        (shared ++ [("isAbstract", .bool false), ("declare", .bool false)])
  | _, .staticBlock span body => nodeAt "StaticBlock" span [("body", body.toJson)]
  | _, .emptyMember span | _, .emptyStmt span => nodeAt "EmptyStatement" span []
  | _, .blockBody b => b.toJson
  | _, .exprBody e => e.toJson
  | _, .block span ctxt stmts =>
    nodeAt "BlockStatement" span [("ctxt", ofNat ctxt), ("stmts", stmts.toJson)]
  | _, .blockStmt b => b.toJson
  | _, .debuggerStmt span => nodeAt "DebuggerStatement" span []
  | _, .exprStmt span e => nodeAt "ExpressionStatement" span [("expression", e.toJson)]
  | _, .withStmt span e s =>
    nodeAt "WithStatement" span [("object", e.toJson), ("body", s.toJson)]
  | _, .returnStmt span e => nodeAt "ReturnStatement" span [("argument", e.toJson)]
  | _, .throwStmt span e => nodeAt "ThrowStatement" span [("argument", e.toJson)]
  | _, .labeledStmt span label s =>
    nodeAt "LabeledStatement" span [("label", label.toJson), ("body", s.toJson)]
  | _, .breakStmt span label =>
    nodeAt "BreakStatement" span [("label", orNull Ident.toJson label)]
  | _, .continueStmt span label =>
    nodeAt "ContinueStatement" span [("label", orNull Ident.toJson label)]
  | _, .ifStmt span t a b =>
    nodeAt "IfStatement" span
      [("test", t.toJson), ("consequent", a.toJson), ("alternate", b.toJson)]
  | _, .switchStmt span e cs =>
    nodeAt "SwitchStatement" span [("discriminant", e.toJson), ("cases", cs.toJson)]
  | _, .tryStmt span b h f =>
    nodeAt "TryStatement" span
      [("block", b.toJson), ("handler", h.toJson), ("finalizer", f.toJson)]
  | _, .whileStmt span t s =>
    nodeAt "WhileStatement" span [("test", t.toJson), ("body", s.toJson)]
  | _, .doWhileStmt span t s =>
    nodeAt "DoWhileStatement" span [("test", t.toJson), ("body", s.toJson)]
  | _, .forStmt span i t u s =>
    nodeAt "ForStatement" span
      [("init", i.toJson), ("test", t.toJson), ("update", u.toJson), ("body", s.toJson)]
  | _, .forInStmt span h e s =>
    nodeAt "ForInStatement" span [("left", h.toJson), ("right", e.toJson), ("body", s.toJson)]
  | _, .forOfStmt span isAwait h e s =>
    nodeAt "ForOfStatement" span
      [("await", .bool isAwait), ("left", h.toJson), ("right", e.toJson), ("body", s.toJson)]
  | _, .declStmt d => d.toJson
  | _, .clause span t body =>
    nodeAt "SwitchCase" span [("test", t.toJson), ("consequent", body.toJson)]
  | _, .handler span p b =>
    nodeAt "CatchClause" span [("param", p.toJson), ("body", b.toJson)]
  | _, .initDecl v => v.toJson
  | _, .initExpr e => e.toJson
  | _, .headDecl v => v.toJson
  | _, .headPat p => p.toJson
  | _, .headUsing span isAwait decls | _, .declUsing span isAwait decls =>
    nodeAt "UsingDeclaration" span [("isAwait", .bool isAwait), ("decls", decls.toJson)]
  | _, .declVar v => v.toJson
  | _, .declFunc declare name f =>
    node "FunctionDeclaration"
      (("identifier", name.toJson) :: ("declare", .bool declare) :: membersOf f.toJson)
  | _, .declClass declare name c =>
    node "ClassDeclaration"
      (("identifier", name.toJson) :: ("declare", .bool declare) :: membersOf c.toJson)
  | _, .varDecl span ctxt kind declare decls =>
    nodeAt "VariableDeclaration" span
      [("ctxt", ofNat ctxt), ("kind", .str kind.text), ("declare", .bool declare),
        ("declarations", decls.toJson)]
  | _, .declarator span definite p e =>
    nodeAt "VariableDeclarator" span
      [("id", p.toJson), ("init", e.toJson), ("definite", .bool definite)]
  | _, .stmtItem s => s.toJson
  | _, .importItem i => i.toJson
  | _, .exportDecl span d => nodeAt "ExportDeclaration" span [("declaration", d.toJson)]
  | _, .exportNames e => e.toJson
  | _, .exportFunc span name f =>
    nodeAt "ExportDefaultDeclaration" span
      [("decl", node "FunctionExpression"
        (("identifier", orNull Ident.toJson name) :: membersOf f.toJson))]
  | _, .exportClass span name c =>
    nodeAt "ExportDefaultDeclaration" span
      [("decl", node "ClassExpression"
        (("identifier", orNull Ident.toJson name) :: membersOf c.toJson))]
  | _, .exportExpr span e => nodeAt "ExportDefaultExpression" span [("expression", e.toJson)]
  | _, .exportAll span source =>
    nodeAt "ExportAllDeclaration" span
      [("source", source.toJson), ("typeOnly", .bool false), ("with", .null)]
  | _, .moduleProgram span interpreter items =>
    nodeAt "Module" span [("body", items.toJson), ("interpreter", orNull .str interpreter)]
  | _, .scriptProgram span interpreter stmts =>
    nodeAt "Script" span [("body", stmts.toJson), ("interpreter", orNull .str interpreter)]

end Node

end PlainJs
