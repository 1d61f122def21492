namespace PlainJs

inductive UnaryOp
  | minus | plus | not | tilde | typeof | void | delete
deriving DecidableEq, Repr

inductive UpdateOp
  | increment | decrement
deriving DecidableEq, Repr

inductive BinaryOp
  | eqEq | notEq | eqEqEq | notEqEq | lt | ltEq | gt | gtEq
  | shiftLeft | shiftRight | shiftRightZero
  | add | sub | mul | div | mod
  | bitOr | bitXor | bitAnd | or | and
  | isIn | instanceOf | exp | nullish
deriving DecidableEq, Repr

inductive AssignOp
  | assign | add | sub | mul | div | mod | shiftLeft | shiftRight | shiftRightZero
  | bitOr | bitXor | bitAnd | exp | and | or | nullish
deriving DecidableEq, Repr

inductive VarKind
  | var | let | const
deriving DecidableEq, Repr

inductive MethodKind
  | method | getter | setter
deriving DecidableEq, Repr

inductive MetaKind
  | newTarget | importMeta
deriving DecidableEq, Repr

namespace UnaryOp

def text : UnaryOp → String
  | minus => "-"
  | plus => "+"
  | not => "!"
  | tilde => "~"
  | typeof => "typeof"
  | void => "void"
  | delete => "delete"

def all : List UnaryOp := [minus, plus, not, tilde, typeof, void, delete]

def ofText? (s : String) : Option UnaryOp := all.find? (·.text == s)

/-- Word operators are separated from their operand by a blank. -/
def isWord : UnaryOp → Bool
  | typeof | void | delete => true
  | _ => false

theorem ofText?_text (op : UnaryOp) : ofText? op.text = some op := by
  cases op <;> decide

end UnaryOp

namespace UpdateOp

def text : UpdateOp → String
  | increment => "++"
  | decrement => "--"

def ofText? (s : String) : Option UpdateOp := [increment, decrement].find? (·.text == s)

theorem ofText?_text (op : UpdateOp) : ofText? op.text = some op := by
  cases op <;> decide

end UpdateOp

namespace BinaryOp

def text : BinaryOp → String
  | eqEq => "=="
  | notEq => "!="
  | eqEqEq => "==="
  | notEqEq => "!=="
  | lt => "<"
  | ltEq => "<="
  | gt => ">"
  | gtEq => ">="
  | shiftLeft => "<<"
  | shiftRight => ">>"
  | shiftRightZero => ">>>"
  | add => "+"
  | sub => "-"
  | mul => "*"
  | div => "/"
  | mod => "%"
  | bitOr => "|"
  | bitXor => "^"
  | bitAnd => "&"
  | or => "||"
  | and => "&&"
  | isIn => "in"
  | instanceOf => "instanceof"
  | exp => "**"
  | nullish => "??"

def all : List BinaryOp :=
  [eqEq, notEq, eqEqEq, notEqEq, lt, ltEq, gt, gtEq, shiftLeft, shiftRight, shiftRightZero,
    add, sub, mul, div, mod, bitOr, bitXor, bitAnd, or, and, isIn, instanceOf, exp, nullish]

def ofText? (s : String) : Option BinaryOp := all.find? (·.text == s)

/-- Binding strength; a larger number binds tighter. -/
def precedence : BinaryOp → Nat
  | nullish | or => 3
  | and => 4
  | bitOr => 5
  | bitXor => 6
  | bitAnd => 7
  | eqEq | notEq | eqEqEq | notEqEq => 8
  | lt | ltEq | gt | gtEq | instanceOf | isIn => 9
  | shiftLeft | shiftRight | shiftRightZero => 10
  | add | sub => 11
  | mul | div | mod => 12
  | exp => 13

theorem ofText?_text (op : BinaryOp) : ofText? op.text = some op := by
  cases op <;> decide

end BinaryOp

namespace AssignOp

def text : AssignOp → String
  | assign => "="
  | add => "+="
  | sub => "-="
  | mul => "*="
  | div => "/="
  | mod => "%="
  | shiftLeft => "<<="
  | shiftRight => ">>="
  | shiftRightZero => ">>>="
  | bitOr => "|="
  | bitXor => "^="
  | bitAnd => "&="
  | exp => "**="
  | and => "&&="
  | or => "||="
  | nullish => "??="

def all : List AssignOp :=
  [assign, add, sub, mul, div, mod, shiftLeft, shiftRight, shiftRightZero,
    bitOr, bitXor, bitAnd, exp, and, or, nullish]

def ofText? (s : String) : Option AssignOp := all.find? (·.text == s)

theorem ofText?_text (op : AssignOp) : ofText? op.text = some op := by
  cases op <;> decide

end AssignOp

namespace VarKind

def text : VarKind → String
  | .var => "var"
  | .let => "let"
  | .const => "const"

def ofText? (s : String) : Option VarKind := [.var, .let, .const].find? (·.text == s)

theorem ofText?_text (kind : VarKind) : ofText? kind.text = some kind := by
  cases kind <;> decide

end VarKind

namespace MethodKind

def text : MethodKind → String
  | method => "method"
  | getter => "getter"
  | setter => "setter"

def ofText? (s : String) : Option MethodKind := [method, getter, setter].find? (·.text == s)

end MethodKind

namespace MetaKind

def text : MetaKind → String
  | newTarget => "new.target"
  | importMeta => "import.meta"

def ofText? (s : String) : Option MetaKind := [newTarget, importMeta].find? (·.text == s)

end MetaKind

end PlainJs
