import MethodFlow.Sorted.Set

/-! The return addresses a value may hold: a finite set of offsets, or any offset. -/
namespace MethodFlow

inductive Addresses
  | known (targets : SortedSet Nat)
  | any
  deriving DecidableEq

namespace Addresses

def none : Addresses := known .empty

def covers : Addresses → Addresses → Bool
  | any, _ => true
  | known _, any => false
  | known a, known b => b.subset a

def join : Addresses → Addresses → Addresses
  | known a, known b => known (a.union b)
  | _, _ => any

def meet : Addresses → Addresses → Addresses
  | any, other => other
  | other, any => other
  | known a, known b => known (a.inter b)

/-- The first set without the second; offsets taken from any offset leave any offset. -/
def without : Addresses → Addresses → Addresses
  | _, any => none
  | any, known _ => any
  | known a, known b => known (a.diff b)

end Addresses

end MethodFlow
