import PlainJs.Number.Decimal

namespace PlainJs

/-- The number `significand * 2 ^ exponent`. -/
structure Double where
  significand : Nat
  exponent : Int
deriving DecidableEq, Repr

namespace Double

/-- Rounds `n / d` to a whole number, a half going to the even neighbour. -/
def roundDiv (n d : Nat) : Nat :=
  let q := n / d
  let r := n % d
  if 2 * r < d then q
  else if d < 2 * r then q + 1
  else if q % 2 == 0 then q else q + 1

/-- The fraction `n / d` scaled by `2 ^ -q`. -/
def scaled (n d : Nat) (q : Int) : Nat × Nat :=
  if 0 ≤ q then (n, d * Nat.pow 2 q.toNat) else (n * Nat.pow 2 q.natAbs, d)

/-- The nearest number to the fraction `n / d`; `none` above the range. -/
def nearest? (n d : Nat) : Option Double :=
  let guess : Int := (n.log2 : Int) - d.log2 - 53
  let (a, b) := scaled n d (guess + 1)
  let q := max (-1074) (if Nat.pow 2 52 * b ≤ a then guess + 1 else guess)
  let (a, b) := scaled n d q
  let m := roundDiv a b
  let (m, q) := if m == Nat.pow 2 53 then (Nat.pow 2 52, q + 1) else (m, q)
  if 971 < q then none else some ⟨m, q⟩

/-- The nearest number to `n * 2 ^ q / d`. -/
def nearestScaled? (n d : Nat) (q : Int) : Option Double :=
  nearest? (n * Nat.pow 2 q.toNat) (d * Nat.pow 2 (-q).toNat)

def mul? (x y : Double) : Option Double :=
  nearestScaled? (x.significand * y.significand) 1 (x.exponent + y.exponent)

/-- The quotient by a positive number. -/
def div? (x y : Double) : Option Double :=
  nearestScaled? x.significand y.significand (x.exponent - y.exponent)

/-- Whether `c * 10 ^ e` lies strictly between, or where allowed on, the points halfway to the
neighbours of `m * 2 ^ q`. The bounds are given in quarters of `2 ^ q`. -/
def readsBack (m : Nat) (q : Int) (c : Nat) (e : Int) : Bool :=
  let low := if m == Nat.pow 2 52 && -1074 < q then 4 * m - 1 else 4 * m - 2
  let high := 4 * m + 2
  let x := c * Nat.pow 10 e.toNat * 4 * Nat.pow 2 (-q).toNat
  let unit := Nat.pow 2 q.toNat * Nat.pow 10 (-e).toNat
  if m % 2 == 0 then low * unit ≤ x && x ≤ high * unit
  else low * unit < x && x < high * unit

/-- Twice the distance of `c * 10 ^ e` from `m * 2 ^ q`, in a unit common to all `c`. -/
def distance (m : Nat) (q : Int) (c : Nat) (e : Int) : Nat :=
  let x := c * Nat.pow 10 e.toNat * Nat.pow 2 (-q).toNat
  let y := m * Nat.pow 2 q.toNat * Nat.pow 10 (-e).toNat
  (x - y) + (y - x)

/-- The multiple of `10 ^ e` that reads back as `m * 2 ^ q`; the nearer one if both neighbours
do. -/
def onGrid? (m : Nat) (q e : Int) (base : Nat) : Option Nat :=
  let low := readsBack m q base e
  let high := readsBack m q (base + 1) e
  if low && high then
    some (if distance m q (base + 1) e < distance m q base e then base + 1 else base)
  else if low then some base
  else if high then some (base + 1)
  else none

/-- The decimal exponent of the leading digit of `n / d`. -/
def leading (n d : Nat) : Int :=
  let guess : Int := (Nat.toDigits 10 n).length - (Nat.toDigits 10 d).length
  if d * Nat.pow 10 guess.toNat ≤ n * Nat.pow 10 (-guess).toNat then guess else guess - 1

/-- Searches the grids of `count` and fewer remaining digits, coarsest first. -/
def search (m : Nat) (q : Int) (lead : Int) : (count : Nat) → (fine : Nat) → Nat × Int
  | 0, _ => (m * Nat.pow 2 q.toNat, 0)
  | count + 1, fine =>
    let e := lead - fine
    let unit := Nat.pow 2 (-q).toNat * Nat.pow 10 e.toNat
    let base := m * Nat.pow 2 q.toNat * Nat.pow 10 (-e).toNat / unit
    match onGrid? m q e base with
    | some c => (c, e)
    | none => search m q lead count (fine + 1)

/-- The canonical decimal with the fewest digits that read back as the number. -/
def shortest (x : Double) (negative : Bool) : Decimal :=
  if x.significand == 0 then ⟨negative, 0, 0⟩
  else
    let (m, q) := (x.significand, x.exponent)
    let (n, e) := search m q (leading (m * Nat.pow 2 q.toNat) (Nat.pow 2 (-q).toNat)) 17 0
    Decimal.canonical ⟨negative, n, e⟩

/-- The largest exponent of a power of ten within the range. -/
def maxPower : Nat := 308

def powerOfTen? (n : Nat) : Option Double := nearest? (Nat.pow 10 n) 1

def timesPower? (x : Double) (n : Nat) : Option Double :=
  if n ≤ maxPower then (powerOfTen? n).bind x.mul?
  else if x.significand == 0 then some x
  else none

/-- Divides by the largest power of ten `count` times, or until nothing is left. -/
def overLargest? (x : Double) : (count : Nat) → Option Double
  | 0 => some x
  | count + 1 =>
    if x.significand == 0 then some x
    else
      match (powerOfTen? maxPower).bind x.div? with
      | none => none
      | some y => overLargest? y count

/-- `x / 10 ^ n`, where the largest power of ten is divided off first as long as `n` exceeds it. -/
def overPower? (x : Double) (n : Nat) : Option Double := do
  let count := (n - 1) / maxPower
  (← x.overLargest? count).div? (← powerOfTen? (n - count * maxPower))

/-- `n * 10 ^ e` with a rounding at every step. -/
def stepwise? (n : Nat) (e : Int) : Option Double := do
  let x ← nearest? n 1
  if 0 ≤ e then x.timesPower? e.toNat else x.overPower? e.natAbs

end Double

/-- The canonical decimal with the fewest digits that has the same nearest binary64 number;
`none` if that number is beyond the range. -/
def Decimal.toDouble? (d : Decimal) : Option Decimal :=
  if d.digits == 0 then some ⟨d.negative, 0, 0⟩
  else if 400 < d.exponent then none
  else if d.exponent + (Nat.toDigits 10 d.digits).length < -400 then some ⟨d.negative, 0, 0⟩
  else
    (Double.nearest? (d.digits * Nat.pow 10 d.exponent.toNat) (Nat.pow 10 (-d.exponent).toNat)).map
      (·.shortest d.negative)

end PlainJs
