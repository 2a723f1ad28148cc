import MethodFlow.Frame.Basic

/-! Which outcomes of a test are possible for given operands. Order tests compare bounds; tests for
sameness look at the common part of the operands and at what is left of them. -/
namespace MethodFlow.Feasibility

open AbstractValue

variable {V : Type} [AbstractValue V]

def bounds (value : V) : Except ValueError (Int × Int) := do
  let low ← lowest value
  let high ← highest value
  return (low, high)

def sameness (expected mayEqual mayDiffer : Bool) : BranchFlags :=
  if expected then ⟨mayEqual, mayDiffer⟩ else ⟨mayDiffer, mayEqual⟩

def ordered (order : Order) (left right : Int × Int) : BranchFlags :=
  match order with
  | .lt => ⟨left.1 < right.2, right.1 ≤ left.2⟩
  | .ge => ⟨right.1 ≤ left.2, left.1 < right.2⟩
  | .gt => ⟨right.1 < left.2, left.1 ≤ right.2⟩
  | .le => ⟨left.1 ≤ right.2, right.1 < left.2⟩

/-- Two operands may be the same if they have a common part, and may differ unless each of them
denotes one value and it is the same one. -/
def compareSame (expected : Bool) (left right : V) : Except ValueError BranchFlags := do
  let common ← intersection left right
  let mayDiffer := match (concretize left).single?, (concretize right).single? with
    | some a, some b => !(a == b)
    | _, _ => true
  return sameness expected (!isBottom common) mayDiffer

def againstValue (expected : Bool) (value single : V) : Except ValueError BranchFlags := do
  let common ← intersection value single
  let left ← minus value single
  return sameness expected (!isBottom common) (!isBottom left)

/-- One int against zero. An order test, too, asks that the operand can be set against zero. -/
def againstZero (zero : V) (condition : Condition) (value : V) : Except ValueError BranchFlags := do
  if isBottom value then return .none
  match condition with
  | .same expected => againstValue expected value zero
  | .order order =>
    let _ ← againstValue true value zero
    return ordered order (← bounds value) (0, 0)

def betweenInts (condition : Condition) (left right : V) : Except ValueError BranchFlags := do
  if isBottom left || isBottom right then return .none
  match condition with
  | .same expected => compareSame expected left right
  | .order order => return ordered order (← bounds left) (← bounds right)

end MethodFlow.Feasibility
