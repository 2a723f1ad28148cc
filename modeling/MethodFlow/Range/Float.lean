import MethodFlow.Range.Integer

/-! Closed floating-point ranges with a flag for NaN. The operations need only an order and the
arithmetic of the format, so they are stated for any type that has them. Bounds may be infinite,
and the two zeros count as one number. -/
namespace MethodFlow

/-- The part of a floating-point format that range arithmetic uses. A number that is not below or
equal to itself is NaN. -/
class FloatFormat (α : Type) where
  le : α → α → Bool
  zero : α
  infinity : α
  neg : α → α
  add : α → α → α
  sub : α → α → α
  mul : α → α → α
  div : α → α → α

namespace FloatFormat

variable {α : Type} [FloatFormat α]

def isNaN (x : α) : Bool := !le x x

def lt (x y : α) : Bool := le x y && !le y x

/-- Equality of numbers, for which both zeros are the same. -/
def same (x y : α) : Bool := le x y && le y x

def negInfinity : α := neg infinity

def magnitude (x : α) : α := if le zero x then x else neg x

def lower (x y : α) : α := if le x y then x else y

def upper (x y : α) : α := if le y x then x else y

end FloatFormat

open FloatFormat

structure FloatSpan (α : Type) [FloatFormat α] where
  low : α
  high : α
  ordered : le low high = true

/-- The numbers between two bounds, if there are bounds, and NaN if the flag is set. -/
structure FloatRange (α : Type) [FloatFormat α] where
  span : Option (FloatSpan α)
  nan : Bool

namespace FloatRange

variable {α : Type} [FloatFormat α]

/-- The range between two bounds; bounds that are not in order leave no numbers. -/
def of (bounds : Option (α × α)) (nan : Bool) : FloatRange α :=
  match bounds with
  | none => ⟨none, nan⟩
  | some (low, high) =>
    if ordered : le low high = true then ⟨some ⟨low, high, ordered⟩, nan⟩ else ⟨none, nan⟩

def empty : FloatRange α := ⟨none, false⟩

def full : FloatRange α := of (some (negInfinity, infinity)) true

def singleton (value : α) : FloatRange α :=
  if isNaN value then ⟨none, true⟩ else of (some (value, value)) false

def bounds? (range : FloatRange α) : Option (α × α) :=
  range.span.map fun span => (span.low, span.high)

def isEmpty (range : FloatRange α) : Bool := range.span.isNone && !range.nan

/-- A number lies between the bounds; the flag for NaN plays no part. -/
def contains (value : α) (range : FloatRange α) : Bool :=
  match range.span with
  | some span => le span.low value && le value span.high
  | none => false

def covers (range other : FloatRange α) : Bool :=
  let bounds := match range.span, other.span with
    | _, none => true
    | none, some _ => false
    | some a, some c => le a.low c.low && le c.high a.high
  bounds && (range.nan || !other.nan)

def hull (range other : FloatRange α) : FloatRange α :=
  let bounds := match range.bounds?, other.bounds? with
    | none, bounds => bounds
    | bounds, none => bounds
    | some (a, b), some (c, d) => some (lower a c, upper b d)
  of bounds (range.nan || other.nan)

def meet (range other : FloatRange α) : FloatRange α :=
  let bounds := match range.bounds?, other.bounds? with
    | some (a, b), some (c, d) => some (upper a c, lower b d)
    | _, _ => none
  of bounds (range.nan && other.nan)

/-- The first range without the second: the numbers go only if the second covers them all. -/
def without (range other : FloatRange α) : FloatRange α :=
  let bounds := match range.bounds?, other.bounds? with
    | some (a, b), some (c, d) => if le c a && le b d then none else some (a, b)
    | bounds, _ => bounds
  of bounds (range.nan && !other.nan)

def mapBounds (f : α → α) (range : FloatRange α) : FloatRange α :=
  of (range.bounds?.map fun bounds => (f bounds.1, f bounds.2)) range.nan

def holdsInfinity (range : FloatRange α) : Bool :=
  range.contains infinity || range.contains negInfinity

/-- The range of computed corners; a corner that is NaN sets the flag and no bound. -/
def corners (values : List α) (nan : Bool) : FloatRange α :=
  let numbers := values.filter fun value => !isNaN value
  of (some (numbers.foldl lower infinity, numbers.foldl upper negInfinity))
    (nan || values.any isNaN)

/-- A remainder has the sign of the dividend and is no larger than the dividend or the divisor. -/
def remainder (a b c d : α) (nan : Bool) : FloatRange α :=
  if same c zero && same d zero then ⟨none, true⟩
  else
    let largest := upper (magnitude c) (magnitude d)
    of (some (if lt a zero then upper a (neg largest) else zero,
      if lt zero b then lower b largest else zero)) nan

def arithmetic (op : ArithmeticOp) (left right : FloatRange α) : FloatRange α :=
  if left.isEmpty || right.isEmpty then empty
  else
    let nan := left.nan || right.nan
    match left.bounds?, right.bounds? with
    | some (a, b), some (c, d) =>
      match op with
      | .add => corners [add a c, add a d, add b c, add b d] nan
      | .sub => corners [sub a c, sub a d, sub b c, sub b d] nan
      | .mul =>
        corners [mul a c, mul a d, mul b c, mul b d]
          (nan || (left.contains zero && right.holdsInfinity) ||
            (right.contains zero && left.holdsInfinity))
      | .div =>
        let nan := nan || (left.holdsInfinity && right.holdsInfinity)
        if right.contains zero then of (some (negInfinity, infinity)) (nan || left.contains zero)
        else corners [div a c, div a d, div b c, div b d] nan
      | _ => remainder a b c d (nan || right.contains zero || left.holdsInfinity)
    | _, _ => ⟨none, nan⟩

def negate (range : FloatRange α) : FloatRange α :=
  of (range.bounds?.map fun bounds => (neg bounds.2, neg bounds.1)) range.nan

def compare (left right : FloatRange α) (onNaN : Option Int) : IntRange :=
  if left.isEmpty || right.isEmpty then .empty
  else
    let orderings : Orderings := match left.bounds?, right.bounds? with
      | some (a, b), some (c, d) => ⟨lt a d, le a d && le c b, lt c b⟩
      | _, _ => ⟨false, false, false⟩
    orderings.signs (if left.nan || right.nan then onNaN else none)

/-- The relation holds between every member of the first range and every member of the second;
NaN stands in no relation. -/
def allRelated (relation : α → α → Bool) (left right : FloatRange α) : Bool :=
  if left.isEmpty || right.isEmpty then true
  else if left.nan || right.nan then false
  else
    match left.bounds?, right.bounds? with
    | some (_, high), some (low, _) => relation high low
    | _, _ => true

def beq (left right : FloatRange α) : Bool :=
  let bounds := match left.bounds?, right.bounds? with
    | none, none => true
    | some (a, b), some (c, d) => same a c && same b d
    | _, _ => false
  bounds && left.nan == right.nan

instance : BEq (FloatRange α) := ⟨beq⟩

end FloatRange

/-- Place of a number in the order of its format; both zeros have the same place. -/
def floatRank (value : Float) : Int :=
  let bits : Int := value.toBits.toNat
  if bits < 9223372036854775808 then bits else 9223372036854775808 - bits

instance : FloatFormat Float where
  le x y := !x.isNaN && !y.isNaN && floatRank x ≤ floatRank y
  zero := Float.ofBits 0
  infinity := Float.ofBits 0x7ff0000000000000
  neg x := -x
  add x y := x + y
  sub x y := x - y
  mul x y := x * y
  div x y := x / y

def FloatRange.toSingle (range : FloatRange Float) : FloatRange Float :=
  range.mapBounds fun bound => bound.toFloat32.toFloat

end MethodFlow
