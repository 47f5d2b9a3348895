namespace RoomCast

/-- A finite double of value `± mantissa * 2 ^ exponent`. -/
structure Binary64 where
  negative : Bool
  mantissa : Nat
  exponent : Int
deriving DecidableEq, Repr, Inhabited

namespace Binary64

def leastExponent : Int := -1074

def greatestExponent : Int := 971

/-- The nearest integer to `num / den`, a tie going to the even one. -/
def divideToEven (num den : Nat) : Nat :=
  let q := num / den
  let r := num % den
  if den < 2 * r ∨ (2 * r = den ∧ q % 2 = 1) then q + 1 else q

def inUnits (num den : Nat) (e : Int) : Nat :=
  if 0 ≤ e then divideToEven num (den * Nat.pow 2 e.toNat)
  else divideToEven (num * Nat.pow 2 (-e).toNat) den

/-- The exponent at which `num / den` has a mantissa of 53 bits, or the least one. -/
def exponentOf (num den : Nat) : Int :=
  let e : Int := (Nat.log2 num : Int) - (Nat.log2 den : Int) - 52
  let bound := den * Nat.pow 2 52
  let e := if (if 0 ≤ e then num < bound * Nat.pow 2 e.toNat else num * Nat.pow 2 (-e).toNat < bound)
    then e - 1 else e
  if e < leastExponent then leastExponent else e

/-- The magnitude nearest to `num / den`; there is none when it exceeds the largest double. -/
def nearest (num den : Nat) : Option (Nat × Int) :=
  if num = 0 then some (0, leastExponent) else
    let e := exponentOf num den
    let m := inUnits num den e
    let (m, e) := if m = Nat.pow 2 53 then (Nat.pow 2 52, e + 1) else (m, e)
    if greatestExponent < e then none else some (m, e)

def fraction (x : Nat × Int) : Nat × Nat :=
  if 0 ≤ x.2 then (x.1 * Nat.pow 2 x.2.toNat, 1) else (x.1, Nat.pow 2 (-x.2).toNat)

def multiplyByPower (x : Nat × Int) (power : Nat) : Option (Nat × Int) := do
  let p ← nearest (Nat.pow 10 power) 1
  let (a, b) := fraction x
  let (c, d) := fraction p
  nearest (a * c) (b * d)

def divideByPower (x : Nat × Int) (power : Nat) : Option (Nat × Int) := do
  let p ← nearest (Nat.pow 10 power) 1
  let (a, b) := fraction x
  let (c, d) := fraction p
  nearest (a * d) (b * c)

def largestPower : Nat := 308

/-- Divides by `10 ^ largestPower` up to `steps` times, as long as anything is left, and then by
`10 ^ power`. -/
def scaleDown (power : Nat) : Nat → Nat × Int → Option (Nat × Int)
  | 0, x => divideByPower x power
  | steps + 1, x =>
    if x.1 = 0 then some x else (divideByPower x largestPower).bind (scaleDown power steps)

/-- The digits as a double, times or over the double of a power of ten; none when out of range. -/
def ofDecimal (negative : Bool) (digits : Nat) (power : Int) : Option Binary64 := do
  let x ← nearest digits 1
  let (m, e) ←
    if 0 ≤ power then
      if power.toNat ≤ largestPower then multiplyByPower x power.toNat
      else if x.1 = 0 then some x else none
    else
      let n := (-power).toNat
      let steps := (n - 1) / largestPower
      scaleDown (n - steps * largestPower) steps x
  return ⟨negative, m, e⟩

end Binary64

end RoomCast
