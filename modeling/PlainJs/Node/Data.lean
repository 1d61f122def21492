import PlainJs.Number.Decimal
import PlainJs.Operator
import PlainJs.Span

namespace PlainJs

/-- An identifier that refers to, binds or labels something. -/
structure Ident where
  span : Span
  ctxt : Nat
  name : String
  optional : Bool
deriving DecidableEq, Repr, Inhabited

/-- An identifier of generated code. -/
def Ident.ofName (name : String) : Ident := ⟨.none, 0, name, false⟩

/-- The sign and the 32-bit digits, least significant first, of a whole number of any size. -/
structure BigWhole where
  sign : Int
  digits : List Nat
deriving DecidableEq, Repr

namespace BigWhole

/-- The digits of a number in the base `2 ^ 32`, least significant first; the fuel bounds their
number. -/
def digitsOf : (fuel n : Nat) → List Nat
  | 0, _ => []
  | fuel + 1, n => if n == 0 then [] else n % Nat.pow 2 32 :: digitsOf fuel (n / Nat.pow 2 32)

def ofNat (n : Nat) : BigWhole := ⟨if n == 0 then 0 else 1, digitsOf (n.log2 + 1) n⟩

end BigWhole

/-- The forms of expression without parts. A literal may keep the text that it was read from. -/
inductive Atom
  | this
  | null
  | bool (value : Bool)
  | num (value : Decimal) (raw : Option String)
  | str (value : String) (raw : Option String)
  | bigInt (value : BigWhole) (raw : Option String)
  | regExp (pattern flags : String)
  | metaProperty (kind : MetaKind)
  | privateName (name : String)
deriving DecidableEq, Repr

/-- A property key that is known without evaluation. -/
inductive FixedKey
  | name (name : String)
  | privateName (name : String)
  | str (value : String) (raw : Option String)
  | num (value : Decimal) (raw : Option String)
  | bigInt (value : BigWhole) (raw : Option String)
deriving DecidableEq, Repr

/-- A piece of literal text in a template; `cooked` is absent where an escape has no meaning. -/
structure Quasi where
  span : Span
  tail : Bool
  cooked : Option String
  raw : String
deriving DecidableEq, Repr

/-- A string literal outside expressions: the name of another module or of an export. -/
structure StrLit where
  span : Span
  value : String
  raw : Option String
deriving DecidableEq, Repr

/-- The name under which a module shows something. -/
inductive ExportName
  | ident (id : Ident)
  | str (lit : StrLit)
deriving DecidableEq, Repr

inductive ImportSpecifier
  | named (span : Span) (here : Ident) (there : Option ExportName)
  | default (span : Span) (here : Ident)
  | namespace (span : Span) (here : Ident)
deriving DecidableEq, Repr

/-- The name that an import binds in this module. -/
def ImportSpecifier.here : ImportSpecifier → Ident
  | .named _ here _ => here
  | .default _ here => here
  | .namespace _ here => here

structure Import where
  span : Span
  specifiers : List ImportSpecifier
  source : StrLit
deriving DecidableEq, Repr

inductive ExportSpecifier
  | named (span : Span) (inner : ExportName) (outer : Option ExportName)
  | namespace (span : Span) (name : ExportName)
deriving DecidableEq, Repr

/-- A list of exported names, taken from this module or, with a source, from another one. -/
structure ExportList where
  span : Span
  specifiers : List ExportSpecifier
  source : Option StrLit
deriving DecidableEq, Repr

end PlainJs
