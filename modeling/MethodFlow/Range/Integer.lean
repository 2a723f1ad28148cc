import MethodFlow.Kind

/-! Closed integer ranges and the operations of integer instructions on them. Bounds are computed
without overflow; a result that may leave the instruction's width is widened to the full range. -/
namespace MethodFlow

inductive IntRange
  | empty
  | span (low high : Int) (ordered : low ≤ high)
  deriving DecidableEq

def signedWord (value : Int) : Int := value.bmod 18446744073709551616

namespace IntRange

/-- The range between two bounds; bounds in the wrong order leave it empty. -/
def between (low high : Int) : IntRange :=
  if ordered : low ≤ high then span low high ordered else empty

def singleton (value : Int) : IntRange := span value value (Int.le_refl value)

def signed (bits : Nat) : IntRange :=
  between (-(Nat.pow 2 (bits - 1) : Int)) ((Nat.pow 2 (bits - 1) : Int) - 1)

def isEmpty : IntRange → Bool
  | empty => true
  | span .. => false

def bounds? : IntRange → Option (Int × Int)
  | empty => none
  | span low high _ => some (low, high)

def single? : IntRange → Option Int
  | empty => none
  | span low high _ => if low = high then some low else none

def contains (value : Int) : IntRange → Bool
  | empty => false
  | span low high _ => low ≤ value && value ≤ high

def covers : IntRange → IntRange → Bool
  | _, empty => true
  | empty, span .. => false
  | span a b _, span c d _ => a ≤ c && d ≤ b

def hull : IntRange → IntRange → IntRange
  | empty, other => other
  | range, empty => range
  | span a b _, span c d _ => between (min a c) (max b d)

def meet : IntRange → IntRange → IntRange
  | span a b _, span c d _ => between (max a c) (min b d)
  | _, _ => empty

/-- The first range without the second, trimmed only where the second covers an end of it. New
bounds are put through `word`. -/
def trim (word : Int → Int) : IntRange → IntRange → IntRange
  | empty, _ => empty
  | range, empty => range
  | range@(span a b _), span c d _ =>
    if d < a || b < c then range
    else if c ≤ a then (if b ≤ d then empty else between (word (d + 1)) b)
    else if b ≤ d then between a (word (c - 1))
    else range

def without : IntRange → IntRange → IntRange := trim signedWord

/-- The range between computed bounds, or the full range if a bound leaves it on its side. -/
def clamped (low high : Int) : IntRange → IntRange
  | empty => empty
  | full@(span least greatest _) =>
    if low < least || greatest < high then full
    else between (signedWord low) (signedWord high)

def corners (p q r s : Int) (full : IntRange) : IntRange :=
  clamped (min (min p q) (min r s)) (max (max p q) (max r s)) full

def nonzeroParts (low high : Int) : List (Int × Int) :=
  (if low ≤ -1 then [(low, min high (-1))] else []) ++
    (if 1 ≤ high then [(max low 1, high)] else [])

/-- The smallest number of the form `2 ^ k - 1` that is not below the value. -/
def allOnes (value : Int) : Int :=
  if value ≤ 0 then 0 else (Nat.pow 2 (value.toNat.log2 + 1) : Int) - 1

/-- A shift of one word by one distance, of which only the low bits count. -/
def shiftWord (op : ArithmeticOp) (bits : Nat) (value distance : Int) : Int :=
  let word := BitVec.ofInt bits value
  let places := (distance % bits).toNat
  match op with
  | .shl => (word <<< places).toInt
  | .shr => (word.sshiftRight places).toInt
  | _ => (word >>> places).toInt

def shift (op : ArithmeticOp) (bits : Nat) (left right : IntRange) : IntRange :=
  match left.single?, right.single? with
  | some value, some distance => singleton (shiftWord op bits value distance)
  | _, _ =>
    match op, left with
    | .shr, span low high _ => between (min low 0) (max high 0)
    | .ushr, span low high _ => if 0 ≤ low then between 0 high else signed bits
    | _, _ => signed bits

def bitwiseWord (op : ArithmeticOp) (x y : Int) : Int :=
  let left := BitVec.ofInt 64 x
  let right := BitVec.ofInt 64 y
  match op with
  | .and => (left &&& right).toInt
  | .or => (left ||| right).toInt
  | _ => (left ^^^ right).toInt

def bitwise (op : ArithmeticOp) (bits : Nat) (left right : IntRange) : IntRange :=
  match left.single?, right.single? with
  | some x, some y => singleton (bitwiseWord op x y)
  | _, _ =>
    match left, right with
    | span a b _, span c d _ =>
      match op with
      | .and =>
        if 0 ≤ a && 0 ≤ c then between 0 (min b d)
        else if 0 ≤ c then between 0 d
        else if 0 ≤ a then between 0 b
        else signed bits
      | _ => if 0 ≤ a && 0 ≤ c then between 0 (allOnes (max b d)) else signed bits
    | _, _ => empty

/-- Remainder of truncating division: it has the sign of the dividend and is smaller than the
divisor. -/
def remainder (a b c d : Int) (full : IntRange) : IntRange :=
  if (nonzeroParts c d).isEmpty then empty
  else if a = b && c = d then clamped (a.tmod c) (a.tmod c) full
  else
    let magnitude : Int := max c.natAbs d.natAbs - 1
    clamped (if 0 ≤ a then 0 else max a (-magnitude)) (if b ≤ 0 then 0 else min b magnitude) full

def quotient (a b c d : Int) (full : IntRange) : IntRange :=
  (nonzeroParts c d).foldl
    (fun range part => range.hull
      (corners (a.tdiv part.1) (a.tdiv part.2) (b.tdiv part.1) (b.tdiv part.2) full))
    empty

def arithmetic (op : ArithmeticOp) (bits : Nat) : IntRange → IntRange → IntRange
  | left@(span a b _), right@(span c d _) =>
    let full := signed bits
    match op with
    | .add => clamped (a + c) (b + d) full
    | .sub => clamped (a - d) (b - c) full
    | .mul => corners (a * c) (a * d) (b * c) (b * d) full
    | .div => quotient a b c d full
    | .rem => remainder a b c d full
    | .shl | .shr | .ushr => shift op bits left right
    | .and | .or | .xor => bitwise op bits left right
  | _, _ => empty

def negate (range full : IntRange) : IntRange :=
  match range with
  | empty => empty
  | span low high _ => clamped (-high) (-low) full

end IntRange

def IntKind.fullRange : IntKind → IntRange
  | .int => .signed 32
  | .long => .signed 64
  | .short => .signed 16
  | .byte => .signed 8
  | .char => .between 0 65535
  | .boolean => .between 0 1

/-- Which of `<`, `=` and `>` may hold between members of two ranges. -/
structure Orderings where
  below : Bool
  same : Bool
  above : Bool

def Orderings.signs (orderings : Orderings) (extra : Option Int) : IntRange :=
  let below := if orderings.below then IntRange.singleton (-1) else .empty
  let same := if orderings.same then below.hull (.singleton 0) else below
  let above := if orderings.above then same.hull (.singleton 1) else same
  match extra with
  | some value => above.hull (.singleton value)
  | none => above

namespace IntRange

def compare : IntRange → IntRange → IntRange
  | span a b _, span c d _ => Orderings.signs ⟨a < d, a ≤ d && c ≤ b, c < b⟩ none
  | _, _ => empty

def below : IntRange → IntRange → Bool
  | span _ high _, span low _ _ => high < low
  | _, _ => true

def notAbove : IntRange → IntRange → Bool
  | span _ high _, span low _ _ => high ≤ low
  | _, _ => true

end IntRange

end MethodFlow
