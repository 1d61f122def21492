import PlainJs.Grammar.Definition

namespace PlainJs

namespace Node

def isArrow : Expr → Bool
  | .arrow _ _ _ _ _ _ => true
  | _ => false

/-- Whether an operator outside assignments makes up the expression. -/
def isOperation : Expr → Bool
  | .cond _ _ _ _ | .binary _ _ _ _ | .unary _ _ _ | .update _ _ _ _ => true
  | _ => false

end Node

namespace Parse

/-- A function where an expression stands; it may have a name. -/
def functionExpr? (r : Rules) : Parse (Option Expr) := do
  let lo ← position
  match ← functionStart? with
  | none => return none
  | some (isAsync, isGenerator) =>
    let name ← ownName?
    let f ← functionParts r lo isAsync isGenerator
    return some (.function name f)

/-- A class where an expression stands; it may have a name. -/
def classExpr? (r : Rules) : Parse (Option Expr) := do
  let lo ← position
  if ← eatWord "class" then
    let name ← ownName?
    return some (.classExpr name (← classParts r lo))
  else return none

/-- The body of an arrow function. -/
def arrowBody (r : Rules) (isAsync : Bool) (params : List Pat) : Parse (Node .arrowBody) :=
  withReader (·.enterArrow isAsync) do
    if ← isPunct "\x7b" then return .blockBody (← functionBlock r params)
    else return .exprBody (← r.assignment)

/-- An arrow function behind its arrow. -/
def arrowRest (r : Rules) (lo : Nat) (isAsync : Bool) (params : List Pat) : Parse Expr := do
  let body ← arrowBody r isAsync params
  return .arrow (← spanFrom lo) 0 isAsync false (.ofList params) body

/-- The text of a template as a part of the tree; its range lies between the marks. An escape
without meaning is an error unless the template is tagged. -/
def quasi (t : Token) (isTagged isLast : Bool) (raw : String)
    (cooked : Except SyntaxError String) : Parse Quasi := do
  let span : Span := ⟨t.span.lo + 1, t.span.hi - if isLast then 1 else 2⟩
  match cooked with
  | .ok s => return ⟨span, isLast, some s, raw⟩
  | .error e => if isTagged then return ⟨span, isLast, none, raw⟩ else throw e

/-- Reads on in a template behind a hole. -/
def resumeTemplate (start : Nat) : Parse Unit := do
  unless ← isPunct "\x7d" do reject (.expected "\x7d" (← peek).shown)
  modify fun i => { i with current := i.current.asTemplate start, ahead := none }
  checkReadable

/-- The pieces of a template that starts at `lo`: expressions, and the texts around them. -/
def templateParts (r : Rules) (lo : Nat) (isTagged : Bool) : Parse (List Expr × List Quasi) := do
  let (exprs, quasis, _) ← repeatFrom (([], [], false) : List Expr × List Quasi × Bool)
    fun (exprs, quasis, isDone) => do
      if isDone then return none
      else
        let t ← peek
        match t.kind with
        | .template raw cooked isLast =>
          let q ← quasi t isTagged isLast raw cooked
          let _ ← advance
          if isLast then return some (exprs, q :: quasis, true)
          else
            let e ← allowingIn (sequence r.assignment)
            resumeTemplate lo
            return some (e :: exprs, q :: quasis, false)
        | _ => return none
  return (exprs.reverse, quasis.reverse)

def isTemplate (t : Token) : Bool :=
  match t.kind with
  | .template _ _ _ => true
  | _ => false

def templateExpr (r : Rules) : Parse Expr := do
  let lo ← position
  let (exprs, quasis) ← templateParts r lo false
  return .template (← spanFrom lo) (.ofList exprs) quasis

/-- An argument of a call, an element of an array, or an item in parentheses. -/
def argument (r : Rules) : Parse (Node .arg) := do
  if ← eat "..." then
    let dots ← lastSpan
    return .spreadArg dots (← allowingIn r.assignment)
  else return .plainArg (← r.assignment)

/-- Keeps in mind that a comma ends the array or object at a position. -/
def noteComma (lo : Nat) (comma : Option Span) : Parse Unit :=
  comma.forM fun span => modify fun i => { i with commas := (lo, span) :: i.commas }

def arrayExpr (r : Rules) : Parse Expr := do
  let lo ← position
  expect "["
  let (elems, comma) ←
    repeatFrom (([], none) : List (Node (.opt .arg)) × Option Span) fun (elems, _) => do
      if ← isPunct "]" then return none
      else if ← eat "," then return some (.none :: elems, none)
      else
        let a ← allowingIn (argument r)
        if ← isPunct "]" then return some (.some a :: elems, none)
        else
          expect ","
          return some (.some a :: elems, some (← lastSpan))
  expect "]"
  noteComma lo comma
  return .array (← spanFrom lo) (.ofList elems.reverse)

/-- The method or accessor behind its key, where the member starts at `lo`. -/
def methodMember (r : Rules) (lo : Nat) (isAsync isGenerator : Bool) (key : Key) :
    Parse (Node .prop) := do
  return .methodProp key (← methodParts r lo isAsync isGenerator)

def accessorMember (r : Rules) (lo : Nat) (word : String) : Parse (Node .prop) := do
  let isGenerator ← if word == "async" then eat "*" else pure false
  let key ← propertyKey r
  if word == "async" then methodMember r lo true isGenerator key
  else
    withReader (·.enterMethod false false) do
      let params ← parameters r
      checkAccessor key.span (word == "get") params
      let body ← functionBlock r params
      if word == "get" then return .getterProp (← spanFrom lo) key (.some body)
      else
        let p := params.headD (.invalidPat .none)
        return .setterProp (← spanFrom lo) key p (.some body)

/-- A member of an object behind its key, which is not followed by a value or a method. -/
def plainMember (r : Rules) (lo : Nat) (key : Key) : Parse (Node .prop) := do
  match key with
  | .fixedKey span (.name name) =>
    let id : Ident := ⟨span, 0, name, false⟩
    if ← eat "=" then
      let e ← allowingIn r.assignment
      return .defaultProp (← spanFrom lo) id e
    else if (← isPunct ",") || (← isPunct "\x7d") then return .shortProp id
    else if ["get", "set", "async"].contains name then accessorMember r lo name
    else rejectFor "*,  (, [, :, , ?, = or an identifier"
  | _ => rejectFor "identifier"

def objectMember (r : Rules) : Parse (Node .prop) := do
  let lo ← position
  if ← eat "..." then
    let dots ← lastSpan
    return .spreadProp dots (← allowingIn r.assignment)
  else if ← eat "*" then
    let key ← propertyKey r
    methodMember r lo false true key
  else
    let key ← propertyKey r
    if ← eat ":" then return .keyedProp key (← allowingIn r.assignment)
    else if ← isPunct "(" then methodMember r lo false false key
    else plainMember r lo key

def objectExpr (r : Rules) : Parse Expr := do
  let lo ← position
  expect "\x7b"
  let (props, comma) ← commaListWithEnd "\x7d" (objectMember r)
  noteComma lo comma
  return .object (← spanFrom lo) (.ofList props)

/-- Whether items in parentheses are a single identifier. -/
def isSingleName : List (Node .arg) → Bool
  | [.plainArg (.ref _)] => true
  | _ => false

/-- Items in parentheses, and the comma behind the last one. -/
def parenItems (r : Rules) : Parse (List (Node .arg) × Option Span) := do
  expect "("
  let (items, comma) ←
    repeatFrom (([], none) : List (Node .arg) × Option Span) fun (items, _) => do
      if ← isPunct ")" then return none
      else
        let lo ← position
        modify fun i => { i with arrowStart := some lo }
        let items := (← argument r) :: items
        let isArrow ← eat "=>"
        let items ←
          if isArrow && isSingleName items then do
            let params ← itemsAsParameters r items none
            pure [.plainArg (← arrowRest r lo false params)]
          else pure items
        if ← isPunct ")" then return some (items, none)
        else
          expect ","
          return some (items, some (← lastSpan))
  expect ")"
  return (items.reverse, comma)

/-- Records the members of object literals among the items that only a pattern can hold. -/
def checkItems (items : List (Node .arg)) : Parse Unit :=
  items.forM fun
    | .plainArg (.object _ props) | .spreadArg _ (.object _ props) =>
      props.toList.forM fun
        | .defaultProp span _ _ => report span .assignedProperty
        | _ => pure ()
    | _ => pure ()

/-- The expression that items in parentheses are. -/
def parenthesized (lo : Nat) (items : List (Node .arg)) : Parse Expr := do
  let span ← spanFrom lo
  let exprs ← items.mapM fun
    | .plainArg e => return e
    | .spreadArg _ _ => reject .spreadInParentheses
  match exprs with
  | [] => rejectAt span .emptyParentheses
  | [e] => return .paren span e
  | e :: es =>
    let hi := (es.getLast?.getD e).span.hi
    return .paren span (.seq ⟨e.span.lo, hi⟩ (.ofList (e :: es)))

/-- Parentheses: the parameters of an arrow function, or an expression. Behind the word `async`,
which starts at `lo`, they are parameters or arguments. -/
def parenOrArrow (r : Rules) (lo : Nat) (async : Option Ident) (canBeArrow : Bool) :
    Parse Expr := do
  let (items, comma) ← allowingIn (parenItems r)
  let t ← peek
  if t.isPunct "=>" then
    if t.afterLine then rejectAt (← spanFrom lo) .lineBeforeArrow
    else unless canBeArrow do rejectAt (← spanFrom lo) .arrowNotAllowed
    expect "=>"
    let params ← itemsAsParameters r items comma
    arrowRest r lo async.isSome params
  else
    checkItems items
    match async with
    | some id => return .call (← spanFrom lo) 0 (.exprCallee (.ref id)) (.ofList items)
    | none => parenthesized lo items

/-- The literals that are words. -/
def wordAtom? (s : String) : Option Atom :=
  match s with
  | "this" => some .this
  | "null" => some .null
  | "true" => some (.bool true)
  | "false" => some (.bool false)
  | _ => none

/-- An arrow function with a single parameter that has been read, if an arrow follows on the
line. -/
def arrowAfter? (r : Rules) (lo : Nat) (isAsync : Bool) (id : Ident) : Parse (Option Expr) := do
  let t ← peek
  if t.isPunct "=>" && !t.afterLine then
    let _ ← advance
    if Text.unbindableWords.contains id.name then report id.span .unbindableWord
    return some (← arrowRest r lo isAsync [.binder id])
  else return none

/-- A variable, or an arrow function that starts with its parameter. -/
def nameExpr (r : Rules) (lo : Nat) (canBeArrow : Bool) : Parse Expr := do
  let id ← ident
  if id.name == "arguments" && (← read).inField then report id.span .argumentsInField
  if !canBeArrow then return .ref id
  else
    let t ← peek
    if id.name == "async" && t.isPunct "(" && !t.afterLine then
      parenOrArrow r lo (some id) canBeArrow
    else if id.name == "async" && t.isAnyWord && !t.isReserved && !t.afterLine then
      let param ← ident
      match ← arrowAfter? r lo true param with
      | some e => return e
      | none => reject (.expected "=>" (← peek).shown)
    else return (← arrowAfter? r lo false id).getD (.ref id)

def wordExpr (r : Rules) (t : Token) (name : String) (canBeArrow : Bool) : Parse Expr := do
  match wordAtom? name with
  | some a =>
    let _ ← advance
    return .atom t.span a
  | none =>
    match ← firstOf (functionExpr? r) (classExpr? r) with
    | some e => return e
    | none =>
      if name == "let" || !t.isReserved then nameExpr r t.span.lo canBeArrow
      else reject .expressionExpected

/-- The first one of some characters that comes again behind it. -/
def firstRepeated? : List Char → Option Char
  | [] => none
  | c :: cs => if cs.contains c then some c else firstRepeated? cs

/-- Checks the flags of a regular expression. -/
def checkFlags (span : Span) (flags : List Char) : Parse Unit := do
  let (known, unknown) := flags.partition fun c => "dgimsuvy".toList.contains c
  unless unknown.isEmpty do report span .regExpFlags
  (firstRepeated? known).forM fun c => report span (.repeatedFlag c)

/-- A regular expression, which starts with the slash that is next. -/
def regExpExpr : Parse Expr := do
  modify fun i => { i with current := i.current.asRegExp, ahead := none }
  checkReadable
  let t ← advance
  match t.kind with
  | .regExp pattern flags =>
    checkFlags t.span flags.toList
    return .atom t.span (.regExp pattern flags)
  | _ => reject .expressionExpected

def primary (r : Rules) : Parse Expr := do
  let t ← peek
  let canBeArrow := (← get).arrowStart == some t.span.lo
  match t.kind with
  | .word name => wordExpr r t name canBeArrow
  | .number value =>
    let _ ← advance
    return .atom t.span (.num value (some t.text))
  | .bigInt value =>
    let _ ← advance
    return .atom t.span (.bigInt (.ofNat value) (some t.text))
  | .string value =>
    let _ ← advance
    return .atom t.span (.str value (some t.text))
  | .template _ _ _ => templateExpr r
  | _ =>
    if t.isPunct "(" then parenOrArrow r t.span.lo none canBeArrow
    else if t.isPunct "[" then arrayExpr r
    else if t.isPunct "\x7b" then objectExpr r
    else if t.isPunct "/" || t.isPunct "/=" then regExpExpr
    else if t.isPunct "#" then
      let (span, name) ← privateName
      return .atom span (.privateName name)
    else reject .expressionExpected

def arguments (r : Rules) : Parse (List (Node .arg)) := do
  expect "("
  commaList ")" (allowingIn (argument r))

/-- A key in brackets. -/
def computedKey (r : Rules) : Parse Key := do
  let lo ← position
  expect "["
  let e ← allowingIn (sequence r.assignment)
  expect "]"
  return .computedKey (← spanFrom lo) e

/-- The access to a key of an expression. -/
def accessTo (e : Expr) (optional : Bool) (key : Key) : Parse Expr := do
  let span ← spanFrom e.span.lo
  return if optional || e.isOptional then .optMember span optional span e key
    else .member span e key

/-- The call of an expression. -/
def callOf (r : Rules) (e : Expr) (optional : Bool) : Parse Expr := do
  let args ← arguments r
  let span ← spanFrom e.span.lo
  return if optional || e.isOptional then .optCall span optional span 0 e (.ofList args)
    else .call span 0 (.exprCallee e) (.ofList args)

/-- One access, call or template behind an expression. -/
def suffix (r : Rules) (allowCall : Bool) (e : Expr) : Parse (Option Expr) := do
  let t ← peek
  if ← eat "?." then
    if ← isPunct "[" then return some (← accessTo e true (← computedKey r))
    else if ← isPunct "(" then return some (← callOf r e true)
    else return some (← accessTo e true (← pointKey))
  else if t.isPunct "[" then return some (← accessTo e false (← computedKey r))
  else if ← eat "." then return some (← accessTo e false (← pointKey))
  else if allowCall && t.isPunct "(" then return some (← callOf r e false)
  else if isTemplate t then
    if e.isOptional then report t.span .chainTemplate
    let (exprs, quasis) ← templateParts r t.span.lo true
    let span ← spanFrom t.span.lo
    return some (.tagged ⟨e.span.lo, span.hi⟩ 0 e span (.ofList exprs) quasis)
  else return none

/-- What follows `super`: a key, or the arguments of a call where calls are allowed. -/
def superExpr (r : Rules) (allowCall : Bool) : Parse Expr := do
  let t ← advance
  if allowCall && (← isPunct "(") then
    let args ← arguments r
    return .call (← spanFrom t.span.lo) 0 (.superCallee t.span) (.ofList args)
  else
    let key ← do
      if ← isPunct "[" then computedKey r
      else if ← eat "." then
        if ← isPunct "#" then reject .superPrivateName
        pointKey
      else reject (if allowCall then .superAccess else .superCall)
    unless (← read).hasSuper do rejectAt t.span .superAccess
    return .superMember (← spanFrom t.span.lo) t.span key

/-- What follows `import` in an expression: the word `meta`, or the arguments of a call where calls
are allowed. -/
def importExpr (r : Rules) (allowCall : Bool) : Parse Expr := do
  let t ← advance
  if ← eat "." then
    unless ← eatWord "meta" do rejectFor "meta"
    return .atom (← spanFrom t.span.lo) (.metaProperty .importMeta)
  else if allowCall && (← isPunct "(") then
    let args ← arguments r
    return .call (← spanFrom t.span.lo) 0 (.importCallee t.span) (.ofList args)
  else reject .importAccess

/-- What `new` starts at `lo` when a point follows it. -/
def newTarget (lo : Nat) : Parse Expr := do
  unless ← eatWord "target" do rejectFor "target"
  let span ← spanFrom lo
  unless (← read).hasNewTarget do report span .newTargetOutside
  return .atom span (.metaProperty .newTarget)

/-- A primary expression with the accesses behind it; `new` takes arguments if there are any. -/
def construction (r : Rules) : Parse Expr := do
  let lo ← position
  if ← isWord "super" then repeatFrom (← superExpr r false) (suffix r false)
  else if ← isWord "import" then repeatFrom (← importExpr r false) (suffix r false)
  else if ← eatWord "new" then
    if ← eat "." then return ← repeatFrom (← newTarget lo) (suffix r false)
    let callee ← r.construction
    if callee.isArrow then return callee
    if callee.isOptional then rejectAt callee.span .chainInNew
    if ← isPunct "(" then
      let args ← arguments r
      repeatFrom (.newCall (← spanFrom lo) 0 callee (.some (.ofList args))) (suffix r false)
    else return .newCall (← spanFrom lo) 0 callee .none
  else
    let e ← primary r
    if e.isArrow then return e else repeatFrom e (suffix r false)

/-- An expression with what is accessed and called behind it. -/
def access (r : Rules) : Parse Expr := do
  if ← isWord "super" then repeatFrom (← superExpr r true) (suffix r true)
  else if ← isWord "import" then repeatFrom (← importExpr r true) (suffix r true)
  else
    let e ← construction r
    if e.isArrow then return e
    else if ← isPunct "(" then
      repeatFrom (← callOf r e false) (suffix r true)
    else return e

def updateOp? (t : Token) : Option UpdateOp := t.operator?.bind UpdateOp.ofText?

def unaryOp? (t : Token) : Option UnaryOp := t.operator?.bind UnaryOp.ofText?

/-- An access with an update operator behind it, if there is one on the same line. -/
def updated (r : Rules) : Parse Expr := do
  let e ← access r
  if e.isArrow then return e
  else
    let t ← peek
    match updateOp? t with
    | some op =>
      if t.afterLine then return e
      else
        checkTarget e
        let _ ← advance
        return .update (← spanFrom e.span.lo) op false e
    | none => return e

/-- What stands for an expression that cannot be read. -/
def unreadable (span : Span) : Expr := .atom span .null

/-- The operand of a unary operator. An error in it is recorded. -/
def operand (r : Rules) : Parse Expr := do
  let here := (← position) - 1
  try r.unary
  catch e =>
    reportError e
    return unreadable ⟨here, here⟩

def unaryExpr (r : Rules) (op : UnaryOp) : Parse Expr := do
  let t ← advance
  let e ← operand r
  match op, e with
  | .delete, .ref id => report id.span .deletedIdentifier
  | _, _ => pure ()
  return .unary ⟨t.span.lo, e.span.hi⟩ op e

/-- Waiting for a value, behind the word for it. Where nothing can be waited for, the word is taken
as an identifier. -/
def awaitRest (r : Rules) (word : Span) : Parse Expr := do
  if ← isPunct "*" then reject .awaitStar
  let here ← read
  let next ← peek
  let isAlone := next.isPunct ";" || next.endsStatement || next.isPunct ")" || next.isPunct "]" ||
    next.isPunct ":" || next.isPunct ","
  if !here.inAsync && isAlone then
    report word .awaitWord
    return .ref ⟨word, 0, "await", false⟩
  else
    if (here.inFunction || here.inField) && !here.inAsync then report word .awaitInFunction
    let e ← r.unary
    return .awaitExpr (← spanFrom word.lo) e

def awaitExpr (r : Rules) : Parse Expr := do
  let t ← advance
  awaitRest r t.span

def unary (r : Rules) : Parse Expr := do
  let t ← peek
  match updateOp? t, unaryOp? t with
  | some op, _ =>
    let _ ← advance
    let e ← r.unary
    checkTarget e
    return .update ⟨t.span.lo, e.span.hi⟩ op true e
  | none, some op => unaryExpr r op
  | none, none => if t.isWord "await" then awaitExpr r else updated r

/-- The binary operator that a token is here. -/
def binaryOp? (allowIn : Bool) (t : Token) : Option BinaryOp :=
  (t.operator?.bind BinaryOp.ofText?).filter fun op => allowIn || op != .isIn

/-- The weakest operator that may stand on the right of an operator without parentheses binds
tighter than this. -/
def rightLeast : BinaryOp → Nat
  | .exp => BinaryOp.exp.precedence - 1
  | op => op.precedence

def isLogical : Expr → Bool
  | .binary _ .and _ _ | .binary _ .or _ _ => true
  | _ => false

def isNullish : Expr → Bool
  | .binary _ .nullish _ _ => true
  | _ => false

/-- Checks the operands of an operator that lets the first one of two values through. -/
def checkNullish (op : BinaryOp) (left right : Expr) : Parse Unit := do
  if op == .nullish then
    if isLogical left then report left.span .mixedNullish
    if isLogical right then report right.span .mixedNullish

/-- Checks the left operand of a logical operator. -/
def checkLogical (e : Expr) : Parse Unit :=
  match e with
  | .binary span op left _ =>
    if (op == .and || op == .or) && isNullish left then report span .mixedNullish else pure ()
  | _ => pure ()

/-- Whether an operand cannot stand before the power operator. -/
def isUnary : Expr → Bool
  | .unary _ _ _ | .awaitExpr _ _ => true
  | _ => false

/-- One operator that binds tighter than `least`, and its right operand. -/
def operator? (r : Rules) (least : Nat) (left : Expr) : Parse (Option Expr) := do
  match binaryOp? (← read).allowIn (← peek) with
  | some op =>
    if least < op.precedence then
      let _ ← advance
      if op == .exp && isUnary left then reject .unaryPower
      let right ← r.operators (rightLeast op) (← r.unary)
      checkNullish op left right
      return some (.binary ⟨left.span.lo, right.span.hi⟩ op left right)
    else return none
  | none => return none

/-- Operators behind an operand that bind tighter than `least`. -/
def operators (r : Rules) (least : Nat) (left : Expr) : Parse Expr := do
  let (e, _) ← repeatFrom (left, false) fun (left, isDone) => do
    if isDone then return none
    else
      match ← operator? r least left with
      | some e =>
        checkLogical e
        return some (e, false)
      | none =>
        checkLogical left
        return some (left, true)
  return e

/-- Operands joined by operators. If an operand is missing before an operator, that is recorded. -/
def binary (r : Rules) : Parse Expr := do
  let left ←
    try unary r
    catch e => do
      let t ← peek
      if (binaryOp? true t).isSome then
        report t.span .expressionExpected
        pure (unreadable e.span)
      else throw e
  if left.isArrow then return left else operators r 0 left

def conditional (r : Rules) : Parse Expr := do
  let test ← binary r
  if test.isArrow then return test
  else if ← eat "?" then
    let yes ← allowingIn r.assignment
    expect ":"
    let no ← r.assignment
    return .cond ⟨test.span.lo, no.span.hi⟩ test yes no
  else return test

/-- Whether an expression can be the left side of an assignment at all. -/
def isTargetForm : Pat → Bool
  | .binder _ | .arrayPat _ _ _ | .objectPat _ _ _ => true
  | .exprPat e =>
    match e with
    | .member _ _ _ | .superMember _ _ _ | .paren _ _ | .optMember _ _ _ _ _
    | .optCall _ _ _ _ _ _ => true
    | _ => false
  | _ => false

def assignOp? (t : Token) : Option AssignOp := t.operator?.bind AssignOp.ofText?

/-- The left side of an assignment, which has been read as an expression. -/
def assignTarget (r : Rules) (op : AssignOp) (e : Expr) : Parse Pat := do
  let p ←
    if op == .assign then asPattern r .target e
    else do
      unless e.isSimpleTarget do report e.span .notAssignable
      pure e.asTarget
  if isTargetForm p then return p else rejectAt e.span .invalidTarget

def yieldExpr (r : Rules) : Parse Expr := do
  let t ← advance
  let next ← peek
  let isAlone := next.endsStatement || next.isPunct ";" || next.isPunct ")" || next.isPunct "]" ||
    next.isPunct ":" || next.isPunct "," || next.isWord "in" || next.isWord "of"
  if isAlone then return .yieldExpr (← spanFrom t.span.lo) false .none
  else
    let delegate ← eat "*"
    let e ← r.assignment
    return .yieldExpr (← spanFrom t.span.lo) delegate (.some e)

/-- Whether a token can start an arrow function. -/
def startsArrow (t : Token) : Bool :=
  t.isPunct "(" || t.word?.any fun s => !Text.keywords.contains s

def assignment (r : Rules) : Parse Expr := do
  let t ← peek
  if (← read).inGenerator && t.isWord "yield" then yieldExpr r
  else
    checkReadable
    modify fun i => { i with arrowStart := if startsArrow t then some t.span.lo else none }
    let left ← conditional r
    if left.isArrow || left.isOperation then return left
    else
      match assignOp? (← peek) with
      | some op =>
        let p ← assignTarget r op left
        let _ ← advance
        let e ← r.assignment
        return .assign (← spanFrom t.span.lo) op p e
      | none => return left

def expr (r : Rules) : Parse Expr := sequence (assignment r)

end Parse

end PlainJs
