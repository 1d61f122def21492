import PlainJs.Grammar.Basic
import PlainJs.Node.Extent
import PlainJs.Node.Parts

namespace PlainJs

namespace Node

def isMember : Expr → Bool
  | .member _ _ _ => true
  | _ => false

/-- Whether an expression is an access or a call that may be left out. -/
def isOptional : Expr → Bool
  | .optMember _ _ _ _ _ | .optCall _ _ _ _ _ _ => true
  | _ => false

/-- Whether a node is a variable or a property, possibly in parentheses. -/
def isSimpleTarget : {c : Cat} → Node c → Bool
  | _, .ref id => !Text.unbindableWords.contains id.name
  | _, .member _ e _ => if e.isMember then e.isSimpleTarget else !e.isOptional
  | _, .superMember _ _ _ => true
  | _, .paren _ e => e.isSimpleTarget
  | _, _ => false

def asTarget : Expr → Pat
  | .ref id => .binder id
  | e => .exprPat e

def isAssignment : Expr → Bool
  | .assign _ _ _ _ => true
  | _ => false

/-- Whether an expression stands in a pattern as it is, if anything can be assigned to it. -/
def isElementForm : Expr → Bool
  | .member _ _ _ | .superMember _ _ _ | .call _ _ _ _ | .newCall _ _ _ _ | .ref _
  | .function _ _ | .classExpr _ _ | .paren _ _ | .template _ _ _ => true
  | .atom _ a =>
    match a with
    | .this | .metaProperty _ | .privateName _ => false
    | _ => true
  | _ => false

end Node

namespace Parse

/-- Checks that an expression can be assigned to. -/
def checkTarget (e : Expr) : Parse Unit :=
  unless e.isSimpleTarget do report e.span .assignmentTarget

/-- Records that an expression is no pattern. -/
def noPattern (e : Expr) : Parse Pat := do
  report e.span .notPattern
  return .invalidPat e.span

/-- The comma that ends the array or object at a position. -/
def endComma? (lo : Nat) : Parse (Option Span) := return (← get).commas.lookup lo

/-- Checks that no comma follows the rest of an array, an object or a parameter list. -/
def checkRestComma (comma : Option Span) : Parse Unit :=
  comma.forM fun span => report span .commaAfterRest

/-- The elements before the last one, none of which takes the rest. -/
def elementPatterns (r : Rules) (role : PatternRole) (elems : List (Node (.opt .arg))) :
    Parse (List (Node (.opt .pat))) := do
  let ps ← elems.mapM fun
    | .none => return some Node.none
    | .some (.plainArg e) => return some (.some (← r.asPattern role.element e))
    | .some (.spreadArg dots e) => do
      report ⟨dots.lo, e.span.hi⟩ .restNotLast
      return none
  return ps.filterMap id

/-- The pattern that takes the rest; its range is that of its target. -/
def restAsPattern (r : Rules) (role : PatternRole) (dots : Span) (e : Expr)
    (comma : Option Span) : Parse Pat := do
  if e.isAssignment then report ⟨dots.lo, e.span.hi⟩ .restInitializer
  checkRestComma comma
  return .restPat e.span dots (← r.asPattern role e)

def arrayAsPattern (r : Rules) (role : PatternRole) (span : Span)
    (elems : List (Node (.opt .arg))) : Parse Pat := do
  match elems.reverse with
  | .some last :: before =>
    let front ← elementPatterns r role before.reverse
    let p ←
      match last with
      | .plainArg e => r.asPattern role.element e
      | .spreadArg dots e => do
        restAsPattern r role.element dots e (← endComma? span.lo)
    return .arrayPat span false (.ofList (front ++ [.some p]))
  | reversed =>
    let present := (reversed.dropWhile fun e => e.toOption.isNone).reverse
    return .arrayPat span false (.ofList (← elementPatterns r role present))

/-- A member of an object that takes the rest. -/
def restMember (r : Rules) (role : PatternRole) (dots : Span) (e : Expr) :
    Parse (Node .patProp) := do
  let span : Span := ⟨dots.lo, e.span.hi⟩
  let p ←
    if role == .binding then
      match e with
      | .ref id => pure (.binder id)
      | _ => do
        report span .dotsWithoutIdentifier
        pure (.invalidPat span)
    else r.asPattern role.element e
  match p with
  | .defaultPat _ _ _ => report span .restInitializer
  | _ => pure ()
  return .restProp span dots p

/-- A member of an object literal as a member of a pattern; `isLast` tells whether none follows. -/
def memberAsPattern (r : Rules) (role : PatternRole) (comma : Option Span) (isLast : Bool)
    (prop : Node .prop) : Parse (Node .patProp) := do
  match prop with
  | .shortProp id => return .shortPat id.span id .none
  | .defaultProp span id e => return .shortPat span id (.some e)
  | .keyedProp key e => return .keyedPat key (← r.asPattern role.element e)
  | .spreadProp dots e =>
    if isLast then checkRestComma comma
    else report ⟨dots.lo, e.span.hi⟩ .restNotLast
    restMember r role dots e
  | prop => rejectAt prop.span .notPattern

def objectAsPattern (r : Rules) (role : PatternRole) (span : Span) (props : List (Node .prop)) :
    Parse Pat := do
  let comma ← endComma? span.lo
  let before ← props.dropLast.mapM (memberAsPattern r role comma false)
  let last ← props.getLast?.toList.mapM (memberAsPattern r role comma true)
  return .objectPat span false (.ofList (before ++ last))

/-- Takes an expression apart as a pattern. -/
def destructure (r : Rules) (role : PatternRole) (e : Expr) : Parse Pat :=
  match e with
  | .array span elems => arrayAsPattern r role span elems.toList
  | .object span props => objectAsPattern r role span props.toList
  | .ref id => return .binder id
  | .assign span .assign left right => return .defaultPat span left right
  | e => noPattern e

/-- An expression that stands where a pattern must stand. -/
def asPattern (r : Rules) (role : PatternRole) (e : Expr) : Parse Pat := do
  match role, e with
  | .binding, e | .target, e@(.array _ _) | .target, e@(.object _ _) => destructure r role e
  | .target, e =>
    checkTarget e
    return e.asTarget
  | .targetElement, e@(.array _ _) | .targetElement, e@(.object _ _)
  | .targetElement, e@(.assign _ _ _ _) => destructure r role e
  | .targetElement, e =>
    if e.isElementForm then
      unless e.isSimpleTarget do report e.span .notAssignable
      return e.asTarget
    else
      report e.span .notPattern
      destructure r role e

/-- The key of a property. -/
def propertyKey (r : Rules) : Parse Key := do
  let t ← peek
  match t.kind with
  | .word name =>
    let _ ← advance
    return .fixedKey t.span (.name name)
  | .string value =>
    let _ ← advance
    return .fixedKey t.span (.str value (some t.text))
  | .number value =>
    let _ ← advance
    return .fixedKey t.span (.num value (some t.text))
  | .bigInt value =>
    let _ ← advance
    return .fixedKey t.span (.bigInt (.ofNat value) (some t.text))
  | _ =>
    if ← eat "[" then
      let e ← allowingIn r.assignment
      expect "]"
      return .computedKey (← spanFrom t.span.lo) e
    else rejectFor "identifier, string literal, numeric literal or [ for the computed key"

/-- A binding pattern with what its value defaults to, if there is a default. -/
def bindingElement (r : Rules) : Parse Pat := do
  let lo ← position
  let p ← r.binding
  if ← eat "=" then
    let e ← allowingIn r.assignment
    return .defaultPat (← spanFrom lo) p e
  else return p

/-- The elements of an array pattern up to its closing bracket. An element behind the rest is an
error. -/
def bindingElements (r : Rules) : Parse (List (Node (.opt .pat))) := do
  let (elems, _) ← repeatFrom (([], none) : List (Node (.opt .pat)) × Option Span)
    fun (elems, rest) => do
      if ← isPunct "]" then return none
      else if ← eat "," then return some (.none :: elems, rest)
      else
        rest.forM fun span => report span .restNotLast
        let lo ← position
        let isRest ← eat "..."
        let dots ← spanFrom lo
        let p ← if isRest then r.binding else bindingElement r
        let span ← spanFrom lo
        let p := if isRest then Node.restPat span dots p else p
        let rest := if isRest then some span else rest
        unless ← isPunct "]" do
          expect ","
          if isRest && (← isPunct "]") then report (← lastSpan) .commaAfterRest
        return some (.some p :: elems, rest)
  return elems.reverse

def arrayPattern (r : Rules) : Parse Pat := do
  let lo ← position
  expect "["
  let elems ← bindingElements r
  expect "]"
  return .arrayPat (← spanFrom lo) false (.ofList elems)

def patternProperty (r : Rules) : Parse (Node .patProp) := do
  let lo ← position
  if ← eat "..." then
    let dots ← lastSpan
    let p ← r.binding
    return .restProp (← spanFrom lo) dots p
  else
    let key ← propertyKey r
    if ← eat ":" then return .keyedPat key (← bindingElement r)
    else
      match key with
      | .fixedKey span (.name name) =>
        let id : Ident := ⟨span, 0, name, false⟩
        if ← eat "=" then
          let e ← allowingIn r.assignment
          return .shortPat (← spanFrom lo) id (.some e)
        else return .shortPat span id .none
      | _ => rejectFor "an identifier"

/-- Checks that the rest of an object comes last and is given a name. -/
def checkRestMembers (props : List (Node .patProp)) (comma : Option Span) : Parse Unit := do
  props.dropLast.forM fun
    | .restProp span _ _ => report span .restNotLast
    | _ => pure ()
  match props.getLast? with
  | some (.restProp span _ p) =>
    if p.isBinder then checkRestComma comma else rejectAt span .dotsWithoutIdentifier
  | _ => pure ()

def objectPattern (r : Rules) : Parse Pat := do
  let lo ← position
  expect "\x7b"
  let (props, comma) ← commaListWithEnd "\x7d" (patternProperty r)
  let span ← spanFrom lo
  checkRestMembers props comma
  return .objectPat span false (.ofList props)

/-- What binds identifiers. -/
def binding (r : Rules) : Parse Pat := do
  let t ← peek
  if t.isPunct "[" then arrayPattern r
  else if t.isPunct "\x7b" then objectPattern r
  else if t.isAnyWord then return .binder (← bindingIdent)
  else
    checkReadable
    rejectFor "yield, an identifier, [ or \x7b"

/-- What binds identifiers in a declaration of the scope that it stands in. -/
def scopedBinding (r : Rules) : Parse Pat := do
  if ← isWord "let" then rejectFor "let is reserved in const, let, class declaration"
  else binding r

/-- A parameter that takes the rest of the arguments. -/
def restParameter (r : Rules) : Parse Pat := do
  let lo ← position
  expect "..."
  let dots ← lastSpan
  let p ← r.binding
  let p ←
    if ← eat "=" then do
      let e ← r.assignment
      report p.span .restInitializer
      pure (Node.defaultPat (← spanFrom lo) p e)
    else pure p
  return .restPat (← spanFrom lo) dots p

/-- A parameter with its default, if there is one. -/
def parameter (r : Rules) : Parse Pat := do
  let lo ← position
  let p ← r.binding
  if ← eat "=" then
    let e ← r.assignment
    return .defaultPat (← spanFrom lo) p e
  else return p

/-- Parameters in parentheses. -/
def parameters (r : Rules) : Parse (List Pat) := do
  expect "("
  let (params, _) ← repeatFrom (([], none) : List Pat × Option Span) fun (params, rest) => do
    if ← isPunct ")" then return none
    else
      rest.forM fun span => report span .restParameterNotLast
      let isRest ← isPunct "..."
      let p ← if isRest then restParameter r else parameter r
      let rest := if isRest then some p.span else rest
      unless ← isPunct ")" do
        expect ","
        if isRest && (← isPunct ")") then report (← lastSpan) .commaAfterRest
      return some (p :: params, rest)
  expect ")"
  return params.reverse

/-- The items in parentheses before an arrow as parameters. -/
def itemsAsParameters (r : Rules) (items : List (Node .arg)) (comma : Option Span) :
    Parse (List Pat) := do
  let before ← items.dropLast.mapM fun
    | .plainArg e => return some (← asPattern r .binding e)
    | .spreadArg dots e => do
      report ⟨dots.lo, e.span.hi⟩ .restParameterNotLast
      return none
  let last ← items.getLast?.toList.mapM fun
    | .plainArg e => asPattern r .binding e
    | .spreadArg dots e => restAsPattern r .binding dots e comma
  let params := before.filterMap id ++ last
  (params.flatMap Node.boundIdents).forM fun id =>
    if Text.unbindableWords.contains id.name then report id.span .unbindableWord else pure ()
  return params

end Parse

end PlainJs
