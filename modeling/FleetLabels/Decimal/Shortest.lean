/-!
    Double-precision numbers and their shortest decimal text.

    A finite double is `m · 2^q` with a sign. The reals that round to it form an interval around it,
    whose ends belong to it exactly when `m` is even. Among the decimals inside that interval those
    with the fewest digits are sought, and of two with equally many the nearer one: for one digit,
    two digits, and so on, the two neighbours of the value on that decimal grid are tried, and the
    first grid with a hit gives the digits.

    The text is positional while the decimal point falls between the fourth place after zero and
    the sixteenth digit, and has a power of ten otherwise. -/

namespace FleetLabels.Decimal

/-- A double-precision number, given by its bit pattern. -/
structure Double where
  /-- sign, eleven bits of exponent, fifty-two bits of fraction -/
  bits : UInt64
  deriving DecidableEq, Inhabited, Repr

namespace Double

def ofFloat (x : Float) : Double := ⟨x.toBits⟩

def toFloat (x : Double) : Float := Float.ofBits x.bits

def infinity (negative : Bool) : Double :=
  ⟨if negative then 0xFFF0000000000000 else 0x7FF0000000000000⟩

def notANumber : Double := ⟨0x7FF8000000000000⟩

/-- The number `± mantissa · 10^exponent`, rounded to nearest. From `10^310` on every number is
    infinite, and below `10^(-330)` it is zero. -/
def ofDecimal (negative : Bool) (mantissa : Nat) (exponent : Int) : Double :=
  let place : Int := (Nat.toDigits 10 mantissa).length + exponent
  if mantissa != 0 && 310 < place then infinity negative
  else
    let x := if mantissa == 0 || place < -330 then 0.0
      else Float.ofScientific mantissa (exponent < 0) exponent.natAbs
    ofFloat (if negative then -x else x)

def isNegative (x : Double) : Bool := x.bits.toNat / Nat.pow 2 63 == 1

/-- The biased exponent. -/
def biased (x : Double) : Nat := x.bits.toNat / Nat.pow 2 52 % Nat.pow 2 11

/-- The fraction bits. -/
def fraction (x : Double) : Nat := x.bits.toNat % Nat.pow 2 52

/-- Zero of either sign. -/
def isZero (x : Double) : Bool := x.biased == 0 && x.fraction == 0

/-- Whether the number is less than one; what is not a number is not. -/
def isBelowOne (x : Double) : Bool :=
  if x.isNegative then x.biased != 2047 || x.fraction == 0 else x.biased < 1023

/-- The `m` of `m · 2^q`. -/
def mantissa (x : Double) : Nat :=
  if x.biased == 0 then x.fraction else x.fraction + Nat.pow 2 52

/-- The `q` of `m · 2^q`. -/
def exponent (x : Double) : Int := (max x.biased 1 : Nat) - 1075

/-- The exact integer a double stands for, if it is one. -/
def integer? (x : Double) : Option Int :=
  if x.biased == 2047 then none
  else
    let sign : Int := if x.isNegative then -1 else 1
    if 0 ≤ x.exponent then some (sign * (x.mantissa * Nat.pow 2 x.exponent.natAbs : Nat))
    else
      let d := Nat.pow 2 x.exponent.natAbs
      if x.mantissa % d == 0 then some (sign * (x.mantissa / d : Nat)) else none

end Double

/-- A positive value with the interval of reals that round to it, all over one denominator. -/
structure Interval where
  low : Nat
  value : Nat
  high : Nat
  den : Nat
  /-- whether the two ends round to the value as well -/
  closed : Bool

/-- The interval of a finite, non-zero double. A power of two has a lower neighbour at half the
    usual distance, unless it is the least normal number. -/
def Interval.ofDouble (x : Double) : Interval :=
  let m := x.mantissa
  let below := if m == Nat.pow 2 52 && 1 < x.biased then 1 else 2
  let up := Nat.pow 2 x.exponent.toNat
  { low := (4 * m - below) * up
    value := 4 * m * up
    high := (4 * m + 2) * up
    den := 4 * Nat.pow 2 (-x.exponent).toNat
    closed := m % 2 == 0 }

/-- Whether `n / d` lies in the interval. -/
def Interval.holds (i : Interval) (n d : Nat) : Bool :=
  let l := i.low * d
  let h := i.high * d
  let x := n * i.den
  if i.closed then l ≤ x && x ≤ h else l < x && x < h

/-- The number of decimal places by which a value below one has to be shifted to reach one. -/
def shiftToOne (num den : Nat) : Nat → Nat
  | 0 => 0
  | fuel + 1 => if den ≤ num then 0 else shiftToOne (num * 10) den fuel + 1

/-- The place of the decimal point: `10^(k-1) ≤ value < 10^k`. -/
def Interval.point (i : Interval) : Int :=
  if i.den ≤ i.value then ((Nat.toDigits 10 (i.value / i.den)).length : Int)
  else 1 - (shiftToOne i.value i.den 400 : Int)

/-- The nearer of the value's two neighbours on the grid `10^e` that lies in the interval; of two
    at equal distance the even one. -/
def Interval.onGrid (i : Interval) (e : Int) : Option Nat :=
  let up := Nat.pow 10 e.toNat
  let down := Nat.pow 10 (-e).toNat
  let f := i.value * down / (i.den * up)
  let hitLow := i.holds (f * up) down
  let hitHigh := i.holds ((f + 1) * up) down
  -- twice the distance to the lower neighbour, against one step of the grid
  let twice := 2 * (i.value * down - f * up * i.den)
  let step := up * i.den
  match hitLow, hitHigh with
  | true, true =>
    if twice < step then some f
    else if step < twice then some (f + 1)
    else some (if f % 2 == 0 then f else f + 1)
  | true, false => some f
  | false, true => some (f + 1)
  | false, false => none

/-- The digits of the first grid with a hit, and the place of the decimal point. -/
def Interval.search (i : Interval) (k : Int) : Nat → Nat → Nat × Int
  | 0, n => ((i.onGrid (k - n)).getD 0, k)
  | fuel + 1, n =>
    match i.onGrid (k - n) with
    | some d => if d == Nat.pow 10 n then (1, k + 1) else (d, k)
    | none => i.search k fuel (n + 1)

/-- The fewest digits that read back as the double, and the place of the decimal point counted
    from the first digit. -/
def shortest (x : Double) : List Char × Int :=
  let i := Interval.ofDouble x
  let (d, k) := i.search i.point 17 1
  (Nat.toDigits 10 d, k)

/-- An exponent has a sign and at least two digits. -/
def exponentText (e : Int) : List Char :=
  let ds := Nat.toDigits 10 e.natAbs
  'e' :: (if e < 0 then '-' else '+') :: (if ds.length < 2 then '0' :: ds else ds)

/-- Digits with the point after the first `k` of them. -/
def layout (ds : List Char) (k : Int) : List Char :=
  if k ≤ -4 ∨ 16 < k then
    match ds with
    | [] => []
    | [d] => d :: exponentText (k - 1)
    | d :: r => d :: '.' :: r ++ exponentText (k - 1)
  else if k ≤ 0 then '0' :: '.' :: List.replicate k.natAbs '0' ++ ds
  else
    let whole := ds.take k.toNat
    let pad := List.replicate (k.toNat - ds.length) '0'
    let rest := ds.drop k.toNat
    whole ++ pad ++ '.' :: (if rest.isEmpty then ['0'] else rest)

/-- The text of a double: always with a point or a power of ten, so that it never looks like an
    integer. -/
def Double.text (x : Double) : String :=
  let sign := if x.isNegative then "-" else ""
  if x.biased == 2047 then
    if x.fraction == 0 then sign ++ "inf" else "nan"
  else if x.isZero then sign ++ "0.0"
  else
    let (ds, k) := shortest x
    sign ++ String.ofList (layout ds k)

end FleetLabels.Decimal
