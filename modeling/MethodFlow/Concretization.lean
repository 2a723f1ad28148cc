import MethodFlow.Range.Float
import MethodFlow.Sorted.Set

/-! The runtime values an abstract value denotes. Integer ranges are kept as their bounds, and sets
that cannot be listed are unbounded. -/
namespace MethodFlow

inductive ConcreteValue
  | int (value : Int)
  | float (value : Float)
  | null
  | returnAddress (target : Nat)

namespace ConcreteValue

/-- Place of a value in the order integers, floats, null, return addresses. Both zeros share one
place, and NaN comes after every other float. -/
def rank : ConcreteValue → Int × Int
  | int value => (0, value)
  | float value => (1, if value.isNaN then 18446744073709551616 else floatRank value)
  | null => (2, 0)
  | returnAddress target => (3, target)

instance : Ord ConcreteValue :=
  ⟨compareLex (compareOn fun value => value.rank.1) (compareOn fun value => value.rank.2)⟩

instance : Std.TransOrd ConcreteValue :=
  inferInstanceAs (Std.TransCmp (compareLex
    (compareOn fun value : ConcreteValue => value.rank.1) (compareOn fun value => value.rank.2)))

instance : BEq ConcreteValue := ⟨fun a b => compare a b == .eq⟩

end ConcreteValue

inductive Concretization
  | values (set : SortedSet ConcreteValue)
  | integers (low high : Int)
  | unbounded

namespace Concretization

def empty : Concretization := values .empty

def single (value : ConcreteValue) : Concretization := values (.singleton value)

def isEmpty : Concretization → Bool
  | values set => set.isEmpty
  | integers low high => high < low
  | unbounded => false

def size? : Concretization → Option Nat
  | values set => some set.size
  | integers low high => some (high - low + 1).toNat
  | unbounded => none

def contains (value : ConcreteValue) : Concretization → Bool
  | values set => set.contains value
  | integers low high =>
    match value with
    | .int n => low ≤ n && n ≤ high
    | _ => false
  | unbounded => true

def single? : Concretization → Option ConcreteValue
  | values set =>
    match set.toList with
    | [value] => some value
    | _ => none
  | integers low high => if low = high then some (.int low) else none
  | unbounded => none

def ascendingFrom (first : Int) : Nat → List Int
  | 0 => []
  | count + 1 => first :: ascendingFrom (first + 1) count

/-- Every denoted integer in ascending order, if nothing else is denoted and there are no more
than the limit. -/
def integers? (limit : Nat) : Concretization → Option (List Int)
  | values set =>
    if limit < set.size then none
    else set.toList.mapM fun value =>
      match value with
      | .int n => some n
      | _ => none
  | integers low high =>
    let count := (high - low + 1).toNat
    if count ≤ limit then some (ascendingFrom low count) else none
  | unbounded => none

end Concretization

end MethodFlow
