/-! The shortest decimal that reads back as a given binary fraction. A binary number stands for the
interval of reals that round to it; for growing numbers of digits the two neighbours of the number
on that decimal grid are tried, and the first grid with a neighbour inside the interval is taken. -/
namespace MethodFlow

/-- The number `digits * 10 ^ exponent`. -/
structure Decimal where
  digits : Nat
  exponent : Int

/-- A positive double: `mantissa * 2 ^ exponent`, and whether the next smaller double lies only
half as far away as the next larger one. -/
structure BinaryFraction where
  mantissa : Nat
  exponent : Int
  lowerNeighbourNear : Bool

namespace BinaryFraction

def ofBits (bits : Nat) : BinaryFraction :=
  let fraction := bits % 4503599627370496
  let biased := bits / 4503599627370496 % 2048
  if biased = 0 then ⟨fraction, -1074, false⟩
  else ⟨fraction + 4503599627370496, (biased : Int) - 1075, fraction = 0 && 1 < biased⟩

/-- A quarter of the unit in the last place times a count, over a common denominator. -/
def quarters (number : BinaryFraction) (count : Nat) : Nat × Nat :=
  let scale := number.exponent - 2
  (count * Nat.pow 2 scale.toNat, Nat.pow 2 (-scale).toNat)

/-- The least power of ten, searched upwards from a start, whose multiple of `numerator` reaches
`denominator`. -/
def reach (numerator denominator : Nat) : Nat → Nat → Nat
  | 0, start => start
  | fuel + 1, start =>
    if denominator ≤ numerator * Nat.pow 10 start then start
    else reach numerator denominator fuel (start + 1)

def digitCount (n : Nat) : Nat := (Nat.toDigits 10 n).length

def leading (number : BinaryFraction) : Int :=
  let (numerator, denominator) := number.quarters (4 * number.mantissa)
  if denominator ≤ numerator then (digitCount (numerator / denominator) : Int) - 1
  else -(reach numerator denominator 400 0 : Int)

/-- The decimal `digits * 10 ^ exponent` is one of the reals that round to the number; the ends of
the interval count if the mantissa is even. -/
def rounds (number : BinaryFraction) (decimal : Decimal) : Bool :=
  let (low, denominator) :=
    number.quarters (4 * number.mantissa - if number.lowerNeighbourNear then 1 else 2)
  let (high, _) := number.quarters (4 * number.mantissa + 2)
  let up := Nat.pow 10 decimal.exponent.toNat
  let down := Nat.pow 10 (-decimal.exponent).toNat
  let value := decimal.digits * up * denominator
  let least := low * down
  let greatest := high * down
  if number.mantissa % 2 = 0 then least ≤ value && value ≤ greatest
  else least < value && value < greatest

/-- The grid points with a given last place just below and just above the number, and whether the
lower one is nearer. -/
def neighbours (number : BinaryFraction) (place : Int) : Decimal × Decimal × Bool :=
  let (numerator, denominator) := number.quarters (4 * number.mantissa)
  let scaled := numerator * Nat.pow 10 (-place).toNat
  let unit := denominator * Nat.pow 10 place.toNat
  let below := scaled / unit
  (⟨below, place⟩, ⟨below + 1, place⟩, 2 * (scaled - below * unit) < unit)

/-- Tries grids of the given number of digits and more, and falls back to the lower neighbour on
the last one. Of two neighbours that are equally near the upper one is taken. -/
def search (number : BinaryFraction) (lead : Int) : Nat → Nat → Decimal
  | 0, count => (number.neighbours (lead - count + 1)).1
  | fuel + 1, count =>
    let (below, above, lowerNearer) := number.neighbours (lead - count + 1)
    match number.rounds below, number.rounds above with
    | true, true => if lowerNearer then below else above
    | true, false => below
    | false, true => above
    | false, false => search number lead fuel (count + 1)

def shortest (number : BinaryFraction) : Decimal := number.search number.leading 17 1

end BinaryFraction

def Decimal.trim (decimal : Decimal) : Nat → Decimal
  | 0 => decimal
  | fuel + 1 =>
    if decimal.digits % 10 = 0 && decimal.digits != 0 then
      Decimal.trim ⟨decimal.digits / 10, decimal.exponent + 1⟩ fuel
    else decimal

/-- How a decimal is written: positionally within an interval of exponents of the leading digit,
otherwise with an exponent mark. -/
structure DecimalFormat where
  leastPositional : Int
  greatestPositional : Int
  mark : String

namespace DecimalFormat

def zeros (count : Nat) : String := String.ofList (List.replicate count '0')

/-- Digits with a point; a whole number gets one decimal. -/
def positional (digits : List Char) (lead : Int) : String :=
  let point := lead + 1
  if point ≤ 0 then "0." ++ zeros (-point).toNat ++ String.ofList digits
  else if digits.length ≤ point.toNat then
    String.ofList digits ++ zeros (point.toNat - digits.length) ++ ".0"
  else String.ofList (digits.take point.toNat) ++ "." ++ String.ofList (digits.drop point.toNat)

def scientific (format : DecimalFormat) (digits : List Char) (lead : Int) : String :=
  let fraction := digits.drop 1
  let point := if fraction.isEmpty then "" else "."
  String.ofList (digits.take 1) ++ point ++ String.ofList fraction ++ format.mark ++ toString lead

def render (format : DecimalFormat) (decimal : Decimal) : String :=
  let trimmed := decimal.trim 20
  let digits := Nat.toDigits 10 trimmed.digits
  let lead := trimmed.exponent + digits.length - 1
  if format.leastPositional ≤ lead && lead ≤ format.greatestPositional then positional digits lead
  else format.scientific digits lead

end DecimalFormat

end MethodFlow
