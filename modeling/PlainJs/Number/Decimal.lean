namespace PlainJs

/-- The number `± digits * 10 ^ exponent`. -/
structure Decimal where
  negative : Bool
  digits : Nat
  exponent : Int
deriving DecidableEq, Repr, Inhabited

namespace Decimal

/-- Moves trailing zeros of `n` into the exponent, at most `fuel` of them. -/
def stripZeros : (fuel n : Nat) → (e : Int) → Nat × Int
  | 0, n, e => (n, e)
  | fuel + 1, n, e => if n % 10 == 0 && n != 0 then stripZeros fuel (n / 10) (e + 1) else (n, e)

/-- The canonical form: no trailing zero, and zero has exponent zero. -/
def canonical (d : Decimal) : Decimal :=
  if d.digits == 0 then ⟨d.negative, 0, 0⟩
  else
    let (n, e) := stripZeros d.digits.log2 d.digits d.exponent
    ⟨d.negative, n, e⟩

def ofNat (n : Nat) : Decimal := canonical ⟨false, n, 0⟩

/-- The whole number it stands for, if there is one; meant for canonical decimals. -/
def toNat? (d : Decimal) : Option Nat :=
  if d.negative && d.digits != 0 then none
  else if 0 ≤ d.exponent then some (d.digits * Nat.pow 10 d.exponent.toNat)
  else none

def digitText (n : Nat) : String := String.ofList (Nat.toDigits 10 n)

/-- All digits written out, with a point only where there is a fraction. -/
def positional (d : Decimal) : String :=
  let body :=
    if 0 ≤ d.exponent then digitText (d.digits * Nat.pow 10 d.exponent.toNat)
    else
      let places := d.exponent.natAbs
      let ds := Nat.toDigits 10 d.digits
      let ds := List.replicate (places + 1 - ds.length) '0' ++ ds
      String.ofList (ds.take (ds.length - places)) ++ "." ++
        String.ofList (ds.drop (ds.length - places))
  if d.negative then "-" ++ body else body

/-- One digit before the point, the others behind it, and a power of ten with its sign. -/
def scientific (d : Decimal) : String :=
  let ds := Nat.toDigits 10 d.digits
  let power : Int := d.exponent + ds.length - 1
  let fraction := if ds.length ≤ 1 then "" else "." ++ String.ofList ds.tail
  (if d.negative then "-" else "") ++ String.ofList (ds.take 1) ++ fraction ++ "e" ++
    (if power < 0 then "-" else "+") ++ digitText power.natAbs

/-- The text of a canonical decimal as a real number: positional with at least one decimal place
where the point falls within the first sixteen digits or up to four zeros follow it, and
scientific elsewhere. -/
def real (d : Decimal) : String :=
  let point : Int := (Nat.toDigits 10 d.digits).length + d.exponent
  if d.digits == 0 then d.positional ++ ".0"
  else if 16 < point || point ≤ -5 then d.scientific
  else if 0 ≤ d.exponent then d.positional ++ ".0"
  else d.positional

end Decimal

end PlainJs
