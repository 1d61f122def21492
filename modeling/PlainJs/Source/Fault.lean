import PlainJs.Diagnostic
import PlainJs.Source.Location
import PlainJs.Text.Shown

namespace PlainJs

/-- What the digits of a number or an escape are read as. -/
inductive Radix
  | binary | octal | decimal | hexadecimal
deriving DecidableEq, Repr

namespace Radix

def base : Radix → Nat
  | binary => 2
  | octal => 8
  | decimal => 10
  | hexadecimal => 16

/-- A digit with its article. -/
def digit : Radix → String
  | binary => "a binary digit"
  | octal => "an octal digit"
  | decimal => "a decimal digit"
  | hexadecimal => "a hexadecimal digit"

end Radix

inductive SyntaxFault
  -- characters
  | unexpectedCharacter (c : Char)
  | unterminatedComment
  | markupComment
  | unterminatedString
  | unterminatedTemplate
  | unterminatedRegExp
  | regExpFlags
  | repeatedFlag (flag : Char)
  | stringEscape
  /-- An escape lacks the digits that are named. -/
  | badEscape (digits : String)
  | codePointEscape
  | wordEscapeExpected
  | wordCharacter
  | escapedWord (word : String)
  | legacyOctal
  | legacyDecimal
  | digitExpected (radix : Radix)
  | exponentExpected
  | digitSeparator
  | wordAfterNumber
  -- tokens
  | expected (wanted found : String)
  | unexpected (found wanted : String)
  | expressionExpected
  | identifierExpected
  | statementEnd
  | semicolonExpected
  -- names
  /-- A word that names nothing in a module. -/
  | strictWord (word : String)
  | awaitWord
  /-- A word that a module may not bind. -/
  | unbindableWord
  | spaceInPrivateName
  -- patterns and targets
  | notPattern
  | notAssignable
  | assignmentTarget
  | invalidTarget
  | restNotLast
  | commaAfterRest
  | dotsWithoutIdentifier
  | restParameterNotLast
  | restInitializer
  | assignedProperty
  | strictDirective
  -- members
  | getterParameter
  | setterParameter
  | setterRest
  | secondConstructor
  | constructorField
  | constructorAccessor
  | asyncConstructor
  | generatorConstructor
  | privateConstructor
  | argumentsInField
  -- expressions
  | emptyParentheses
  | spreadInParentheses
  | arrowNotAllowed
  | lineBeforeArrow
  | unaryPower
  | mixedNullish
  | deletedIdentifier
  | awaitInFunction
  | awaitStar
  | chainInNew
  | chainTemplate
  | superAccess
  | superCall
  | superPrivateName
  | importAccess
  | newTargetOutside
  -- statements
  | trailingComma
  | bareConst
  | bareDestructuring
  | headInitializer
  | headBindings
  | usingInHead
  | usingName
  | bareUsing
  | awaitInHead
  | secondDefault
  | lineBreakInThrow
  | returnOutside
  | breakTarget
  | breakLabel
  | continueTarget
  | continueLabel
  | duplicateLabel (label : String)
  | labeledFunction
  | labeledGenerator
  | declarationNotAllowed
  | withStatement
  | importOutside
  | reservedImport
  | stringImport (name : String)
  | stringExport
  | exportWithoutSource (name : String)
deriving DecidableEq, Repr

namespace SyntaxFault

def message : SyntaxFault → String
  | unexpectedCharacter c => "Unexpected character " ++ Text.shownInQuotes c
  | unterminatedComment => "Unterminated block comment"
  | markupComment => "Legacy comments cannot be used in module code"
  | unterminatedString => "Unterminated string constant"
  | unterminatedTemplate => "Unterminated template"
  | unterminatedRegExp => "Unterminated regexp literal"
  | regExpFlags => "Unknown regular expression flags."
  | repeatedFlag flag => "Duplicated regular expression flag '" ++ flag.toString ++ "'."
  | stringEscape => "Invalid string escape"
  | badEscape digits => "Bad character escape sequence, expected " ++ digits
  | codePointEscape => "Invalid unicode escape"
  | wordEscapeExpected => "Expected unicode escape"
  | wordCharacter => "Invalid character in identifier"
  | escapedWord word => "Unexpected escape sequence in reserved word: " ++ word
  | legacyOctal => "Legacy octal escape is not permitted in strict mode"
  | legacyDecimal => "Legacy decimal escape is not permitted in strict mode"
  | digitExpected radix => "Expected " ++ radix.digit
  | exponentExpected => "Expected +, - or decimal digit after e"
  | digitSeparator => "A numeric separator is only allowed between two digits"
  | wordAfterNumber => "Identifier cannot follow number"
  | expected wanted found => "Expected '" ++ wanted ++ "', got '" ++ found ++ "'"
  | unexpected found wanted => "Unexpected token `" ++ found ++ "`. Expected " ++ wanted
  | expressionExpected => "Expression expected"
  | identifierExpected => "Expected ident"
  | statementEnd => "Expected ';', '\x7d' or <eof>"
  | semicolonExpected => "Expected a semicolon"
  | strictWord word => "`" ++ word ++ "` cannot be used as an identifier in strict mode"
  | awaitWord => "`await` cannot be used as an identifier in an async context"
  | unbindableWord =>
    "'eval' and 'arguments' cannot be used as a binding identifier in strict mode"
  | spaceInPrivateName => "Unexpected space between # and identifier"
  | notPattern => "Not a pattern"
  | notAssignable => "Cannot assign to this"
  | assignmentTarget =>
    "The left-hand side of an assignment expression must be a variable or a property access."
  | invalidTarget => "Invalid assignment target"
  | restNotLast => "Rest element must be final element"
  | commaAfterRest => "Trailing comma isn't permitted after a rest element"
  | dotsWithoutIdentifier =>
    "`...` must be followed by an identifier in declaration contexts"
  | restParameterNotLast => "A rest parameter must be last in a parameter list"
  | restInitializer => "A rest parameter cannot have an initializer"
  | assignedProperty => "assignment property is invalid syntax"
  | strictDirective =>
    "Illegal 'use strict' directive in function with non-simple parameter list."
  | getterParameter => "A `get` accessor cannot have parameters"
  | setterParameter => "A `set` accessor must have exactly one parameter"
  | setterRest => "Rest pattern is not allowed in setter"
  | secondConstructor => "A class may only have one constructor"
  | constructorField => "Classes may not have a non-static field named 'constructor'"
  | constructorAccessor => "Class constructor can't be an accessor"
  | asyncConstructor => "Constructor can't be an async function"
  | generatorConstructor => "Constructor can't be a generator"
  | privateConstructor => "Classes can't have a private field named '#constructor'"
  | argumentsInField => "'arguments' is only allowed in functions and class methods"
  | emptyParentheses => "Parenthesized expression cannot be empty"
  | spreadInParentheses => "Parenthesized expression cannot contain spread operator"
  | arrowNotAllowed => "An arrow function is not allowed here"
  | lineBeforeArrow => "Unexpected line break between arrow head and arrow"
  | unaryPower => "** cannot be applied to unary expression"
  | mixedNullish =>
    "Nullish coalescing operator(??) requires parens when mixing with logical operators"
  | deletedIdentifier => "'delete' cannot be called on an identifier in strict mode"
  | awaitInFunction => "await isn't allowed in non-async function"
  | awaitStar =>
    "await* has been removed from the async functions proposal. Use Promise.all() instead."
  | chainInNew => "Constructor in/after an optional chaining is not allowed."
  | chainTemplate => "Tagged template literals are not allowed in optional chain"
  | superAccess => "Invalid access to super"
  | superCall => "Invalid `super()`"
  | superPrivateName => "Index super with private name is not allowed"
  | importAccess => "Import is not allowed here"
  | newTargetOutside =>
    "'new.target' is only allowed in the body of a function declaration, function expression, " ++
      "or constructor."
  | trailingComma => "Trailing comma is not allowed"
  | bareConst => "'const' declarations must be initialized"
  | bareDestructuring => "Destructuring bindings require initializers"
  | headInitializer => "Unexpected initializer in for in/of loop"
  | headBindings => "Expected one variable binding"
  | usingInHead => "Using declaration is not allowed in for-in loop"
  | usingName => "Using declaration only allows identifiers"
  | bareUsing => "Initializer is required for using declaration"
  | awaitInHead => "for await syntax is valid only for for-of statement"
  | secondDefault => "A switch block cannot have multiple defaults"
  | lineBreakInThrow => "LineBreak cannot follow 'throw'"
  | returnOutside => "Return statement is not allowed here"
  | breakTarget =>
    "A 'break' statement can only be used within an enclosing iteration or switch statement"
  | breakLabel => "A 'break' statement can only jump to a label of an enclosing statement"
  | continueTarget =>
    "A 'continue' statement can only jump to a label of an enclosing iteration statement"
  | continueLabel => "Jump target cannot cross function boundary"
  | duplicateLabel label => "Label " ++ label ++ " is already declared"
  | labeledFunction => "Function cannot be labelled in strict mode"
  | labeledGenerator => "Generator or async function cannot be labelled"
  | declarationNotAllowed => "Declaration is not allowed"
  | withStatement => "With statement are not allowed in strict mode"
  | importOutside => "'import', and 'export' cannot be used outside of module code"
  | reservedImport => "cannot import as reserved word"
  | stringImport name =>
    "A string literal cannot be used as an imported binding.\n- Did you mean `import \x7b \"" ++
      name ++ "\" as foo \x7d`?"
  | stringExport => "A string literal cannot be used as an exported binding without `from`."
  | exportWithoutSource name => "`" ++ name ++ "` cannot be used without `from` clause"

/-- Whether only strict code has the fault. -/
def isStrict : SyntaxFault → Bool
  | legacyOctal | legacyDecimal => true
  | _ => false

end SyntaxFault

structure SyntaxError where
  span : Span
  fault : SyntaxFault
deriving DecidableEq, Repr

/-- A syntax error with the place where it is shown. -/
structure LocatedError where
  span : Span
  location : String
  message : String
deriving DecidableEq, Repr

namespace LocatedError

def display (e : LocatedError) : String := e.location ++ ": " ++ e.message

def diagnostic (e : LocatedError) : Diagnostic := ⟨.parseFailure, e.span, e.display⟩

end LocatedError

def SyntaxError.locate (source filename : String) (e : SyntaxError) : LocatedError :=
  ⟨e.span, (Location.ofPosition source e.span.lo).text filename, e.fault.message⟩

/-- Why a source text is no program. -/
structure Rejection where
  errors : List LocatedError
deriving DecidableEq, Repr

namespace Rejection

/-- All errors, one on a line. -/
def message (r : Rejection) : String := "\n".intercalate (r.errors.map LocatedError.display)

def diagnostics (r : Rejection) : List Diagnostic := r.errors.map LocatedError.diagnostic

end Rejection

end PlainJs
