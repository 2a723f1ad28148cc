import MethodFlow.Concretization

/-! What a machine needs of an abstract domain: operations on values, and the values it starts
from. Operations may fail; an error says which operation refused which kinds. -/
namespace MethodFlow

inductive ValueError
  | incompatibleKind (operation : String) (kind : Kind)
  | kindMismatch (operation : String) (left right : Kind)
  | malformedConstant (operation constant : String)
  | emptyValue (operation : String)
  deriving DecidableEq

namespace ValueError

def message : ValueError → String
  | incompatibleKind operation kind => s!"`{operation}` is not defined for {kind.name} values"
  | kindMismatch operation left right =>
    s!"`{operation}` cannot combine {left.name} with {right.name}"
  | malformedConstant operation constant => s!"`{operation}` cannot load a {constant} constant"
  | emptyValue operation => s!"`{operation}` has no answer for an empty value"

end ValueError

/-- Values of an abstract domain. The second argument of a binary operation is the operand on top
of the stack, and array operations take the array first. -/
class AbstractValue (V : Type) extends HasKind V, BEq V where
  subsumes : V → V → Except ValueError Bool
  union : V → V → Except ValueError V
  intersection : V → V → Except ValueError V
  minus : V → V → Except ValueError V
  isTop : V → Bool
  isBottom : V → Bool
  /-- Every denoted value is below every value of the other. -/
  lowerThan : V → V → Except ValueError Bool
  /-- No denoted value is above any value of the other. -/
  lowerOrEqual : V → V → Except ValueError Bool
  concretize : V → Concretization
  lowest : V → Except ValueError Int
  highest : V → Except ValueError Int
  arithmetic : ArithmeticOp → NumericKind → V → V → Except ValueError V
  negate : NumericKind → V → Except ValueError V
  convert : Conversion → V → Except ValueError V
  compare : Comparison → V → V → Except ValueError V
  loadFromArray : V → V → Kind → Except ValueError V
  storeInArray : V → V → V → Except ValueError Unit
  describe : V → String

namespace AbstractValue

variable {V : Type} [AbstractValue V]

def greaterThan (a b : V) : Except ValueError Bool := lowerThan b a

def greaterOrEqual (a b : V) : Except ValueError Bool := lowerOrEqual b a

end AbstractValue

/-- The values a machine makes on its own: constants, and what a slot holds before it is written. -/
structure ValueFactory (V : Type) where
  null : V
  int : Int32 → V
  long : Int64 → V
  float : Float32 → V
  double : Float → V
  short : Int16 → V
  string : String → V
  returnAddress : Nat → V
  unconstrained : Kind → V
  /-- What a local holds when it is first read as the given kind. -/
  localValue : Nat → Kind → V := fun _ kind => unconstrained kind
  staticValue : String → Kind → V := fun _ kind => unconstrained kind

end MethodFlow
