import PlainJs.Number.Decimal

namespace PlainJs

inductive Json
  | null
  | bool (value : Bool)
  | num (value : Int)
  | real (value : Decimal)
  | str (value : String)
  | arr (elems : List Json)
  | obj (members : List (String × Json))
deriving Inhabited

namespace Json

def ofNat (n : Nat) : Json := .num n

/-- An absent value is written as `null`. -/
def orNull {α : Type} (f : α → Json) : Option α → Json
  | .none => .null
  | .some a => f a

/-- The member of that name; the last one counts where a name occurs twice. -/
def get? (name : String) : Json → Option Json
  | .obj members => (members.reverse.find? (·.1 == name)).map (·.2)
  | _ => .none

def bool? : Json → Option Bool
  | .bool b => .some b
  | _ => .none

def str? : Json → Option String
  | .str s => .some s
  | _ => .none

def int? : Json → Option Int
  | .num n => .some n
  | _ => .none

def nat? (j : Json) : Option Nat := j.int?.bind Int.toNat?

/-- The value of a number of either kind. -/
def decimal? : Json → Option Decimal
  | .num n => .some (Decimal.canonical ⟨n < 0, n.natAbs, 0⟩)
  | .real d => .some d
  | _ => .none

def arr? : Json → Option (List Json)
  | .arr elems => .some elems
  | _ => .none

def isNull : Json → Bool
  | .null => true
  | _ => false

mutual

/-- How deeply arrays and objects are nested. -/
def depth : Json → Nat
  | .arr elems => depthList elems + 1
  | .obj members => depthMembers members + 1
  | _ => 0

def depthList : List Json → Nat
  | [] => 0
  | j :: js => max j.depth (depthList js)

def depthMembers : List (String × Json) → Nat
  | [] => 0
  | (_, j) :: js => max j.depth (depthMembers js)

end

end Json

end PlainJs
