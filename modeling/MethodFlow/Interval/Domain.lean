import MethodFlow.Interval.Arithmetic
import MethodFlow.Interval.Text
import MethodFlow.Sorted.Map

/-! Interval values as an abstract domain, and the factory that starts a method from seeds. -/
namespace MethodFlow

instance : AbstractValue Interval where
  kind := Interval.kind
  subsumes := Interval.subsumes
  union := Interval.union
  intersection := Interval.intersection
  minus := Interval.minus
  isTop := Interval.isTop
  isBottom := Interval.isBottom
  lowerThan := Interval.lowerThan
  lowerOrEqual := Interval.lowerOrEqual
  concretize := Interval.concretize
  lowest := Interval.lowest
  highest := Interval.highest
  arithmetic := Interval.arithmetic
  negate := Interval.negate
  convert := Interval.convert
  compare := Interval.compare
  loadFromArray := Interval.loadFromArray
  storeInArray := Interval.storeInArray
  describe := Interval.describe

namespace Interval

def factory : ValueFactory Interval where
  null := null
  int := int
  long := long
  float := float
  double := double
  short := short
  string _ := nonNull
  returnAddress := address
  unconstrained := top

end Interval

structure Seeds where
  locals : SortedMap Nat Interval
  statics : SortedMap String Interval

namespace Seeds

def empty : Seeds := ⟨.empty, .empty⟩

/-- A seed stands for its slot only where the slot is read as a compatible kind. -/
def value (seed : Option Interval) (kind : Kind) : Interval :=
  match seed with
  | some value => if value.kind.compatible kind then value else .top kind
  | none => .top kind

def factory (seeds : Seeds) : ValueFactory Interval :=
  { Interval.factory with
    localValue := fun index kind => value (seeds.locals.get? index) kind
    staticValue := fun key kind => value (seeds.statics.get? key) kind }

end Seeds

end MethodFlow
