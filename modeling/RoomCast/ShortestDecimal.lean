import RoomCast.Binary64

namespace RoomCast

namespace Binary64

/-- Whether `digits * 10 ^ power` lies among the reals that round to the magnitude `(m, e)`. -/
def roundsTo (m : Nat) (e : Int) (digits : Nat) (power : Int) : Bool :=
  -- Both sides in units of `10 ^ power * 2 ^ (e - 2)`, with negative powers moved across.
  let scale10 := fun n : Nat => if 0 ≤ power then n * Nat.pow 10 power.toNat else n
  let scale2 := fun n : Nat =>
    let n := if power < 0 then n * Nat.pow 10 (-power).toNat else n
    if 0 ≤ e - 2 then n * Nat.pow 2 (e - 2).toNat else n
  let point := scale10 (if e - 2 < 0 then digits * Nat.pow 2 (2 - e).toNat else digits)
  -- Below a power of two the neighbours are half as far apart.
  let low := scale2 (if m = Nat.pow 2 52 ∧ leastExponent < e then 4 * m - 1 else 4 * m - 2)
  let high := scale2 (4 * m + 2)
  if m % 2 = 0 then low ≤ point ∧ point ≤ high else low < point ∧ point < high

/-- The distance between the magnitude and `digits * 10 ^ power`, in a unit fixed by `e` and `power`. -/
def distance (m : Nat) (e : Int) (digits : Nat) (power : Int) : Nat :=
  let a := (if 0 ≤ e then m * Nat.pow 2 e.toNat else m) * (if power < 0 then Nat.pow 10 (-power).toNat else 1)
  let b := (if 0 ≤ power then digits * Nat.pow 10 power.toNat else digits) *
    (if e < 0 then Nat.pow 2 (-e).toNat else 1)
  if a ≤ b then b - a else a - b

def below (m : Nat) (e : Int) (power : Int) : Nat :=
  let (a, b) := fraction (m, e)
  if 0 ≤ power then a / (b * Nat.pow 10 power.toNat) else a * Nat.pow 10 (-power).toNat / b

/-- The digits on the grid of `10 ^ power` that round to the magnitude, the nearer of two. -/
def onGrid (m : Nat) (e : Int) (power : Int) : Option Nat :=
  let d := below m e power
  match roundsTo m e d power && d != 0, roundsTo m e (d + 1) power with
  | true, true =>
    let l := distance m e d power
    let h := distance m e (d + 1) power
    if l < h ∨ (l = h ∧ d % 2 = 0) then some d else some (d + 1)
  | true, false => some d
  | false, true => some (d + 1)
  | false, false => none

/-- The first of the grids `10 ^ power`, `10 ^ (power - 1)`, … that has digits for the magnitude. -/
def firstGrid (m : Nat) (e : Int) : Nat → Int → Nat × Int
  | 0, power => (below m e power, power)
  | n + 1, power =>
    match onGrid m e power with
    | some d => (d, power)
    | none => firstGrid m e n (power - 1)

/-- The power of ten of the leading digit of a nonzero magnitude. -/
def leadingPower (m : Nat) (e : Int) : Int :=
  let (a, b) := fraction (m, e)
  if b ≤ a then ((Nat.toDigits 10 (a / b)).length : Int) - 1
  else -((Nat.toDigits 10 ((b - 1) / a)).length : Int)

def stripZeros : Nat → Nat → Int → Nat × Int
  | 0, d, power => (d, power)
  | n + 1, d, power =>
    if d ≠ 0 ∧ d % 10 = 0 then stripZeros n (d / 10) (power + 1) else (d, power)

def shortest (m : Nat) (e : Int) : Nat × Int :=
  let (d, power) := firstGrid m e 19 (leadingPower m e + 1)
  stripZeros 20 d power

/-- Positional text when the leading digit stands between `10 ^ -5` and `10 ^ 15`, else an exponent of two digits or more. -/
def magnitudeText (digits : Nat) (power : Int) : String :=
  let ds := Nat.toDigits 10 digits
  let lead : Int := power + (ds.length : Int) - 1
  if lead < -5 ∨ 15 < lead then
    let tail := ds.drop 1
    let mantissa := ds.take 1 ++ (if tail.isEmpty then [] else '.' :: tail)
    let exponent := Nat.toDigits 10 lead.natAbs
    let exponent := if exponent.length < 2 then '0' :: exponent else exponent
    String.ofList (mantissa ++ 'e' :: (if lead < 0 then '-' else '+') :: exponent)
  else if 0 ≤ power then
    String.ofList (ds ++ List.replicate power.toNat '0' ++ ['.', '0'])
  else if 0 ≤ lead then
    String.ofList (ds.take (lead.toNat + 1) ++ '.' :: ds.drop (lead.toNat + 1))
  else
    String.ofList ('0' :: '.' :: (List.replicate (-lead - 1).toNat '0' ++ ds))

/-- The text of a double, always with a point or an exponent. -/
def text (x : Binary64) : String :=
  let magnitude :=
    if x.mantissa = 0 then "0.0"
    else
      let (d, power) := shortest x.mantissa x.exponent
      magnitudeText d power
  if x.negative then "-" ++ magnitude else magnitude

end Binary64

end RoomCast
