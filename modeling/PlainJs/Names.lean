namespace PlainJs

/-- A supply of names: `reserved` holds those in use, `made` and `madeLabels` those handed out. -/
structure NameSupply where
  reserved : List String
  made : List String
  madeLabels : List String
deriving DecidableEq, Repr

namespace NameSupply

/-- A supply that avoids the given names. -/
def avoiding (names : List String) : NameSupply := ⟨names, [], []⟩

/-- The candidates after the hint itself. -/
def numbered (hint : String) (n : Nat) : String := hint ++ String.ofList (Nat.toDigits 10 n)

/-- The first free candidate among `hint n`, `hint (n + 1)`, …, of which `count` are tried. -/
def firstFree (reserved : List String) (hint : String) : (count n : Nat) → String
  | 0, n => numbered hint n
  | count + 1, n =>
    if numbered hint n ∈ reserved then firstFree reserved hint count (n + 1)
    else numbered hint n

/-- The hint if it is free, otherwise the hint with the least number that makes it free. One of
as many candidates as there are reserved names, and one more, is free. -/
def pick (s : NameSupply) (hint : String) : String :=
  if hint ∈ s.reserved then firstFree s.reserved hint s.reserved.length 1 else hint

def fresh (s : NameSupply) (hint : String) : String × NameSupply :=
  let name := s.pick hint
  (name, { s with reserved := name :: s.reserved, made := name :: s.made })

def freshLabel (s : NameSupply) (hint : String) : String × NameSupply :=
  let (name, s) := s.fresh hint
  (name, { s with madeLabels := name :: s.madeLabels })

def isMade (s : NameSupply) (name : String) : Bool := s.made.contains name

def isMadeLabel (s : NameSupply) (name : String) : Bool := s.madeLabels.contains name

end NameSupply

end PlainJs
