/-! Which of the null reference and references to objects a value may be. -/
namespace MethodFlow

inductive Nullness
  | bottom
  | null
  | nonNull
  | maybeNull
  deriving DecidableEq

namespace Nullness

def name : Nullness → String
  | bottom => "Bottom"
  | null => "Null"
  | nonNull => "NonNull"
  | maybeNull => "MaybeNull"

def of (null object : Bool) : Nullness :=
  match null, object with
  | false, false => bottom
  | true, false => .null
  | false, true => nonNull
  | true, true => maybeNull

def mayBeNull : Nullness → Bool
  | null | maybeNull => true
  | _ => false

def mayBeObject : Nullness → Bool
  | nonNull | maybeNull => true
  | _ => false

def covers (a b : Nullness) : Bool :=
  (a.mayBeNull || !b.mayBeNull) && (a.mayBeObject || !b.mayBeObject)

def join (a b : Nullness) : Nullness :=
  of (a.mayBeNull || b.mayBeNull) (a.mayBeObject || b.mayBeObject)

def meet (a b : Nullness) : Nullness :=
  of (a.mayBeNull && b.mayBeNull) (a.mayBeObject && b.mayBeObject)

/-- Null is one value and can be taken away; an object part stands for many and never is. -/
def without (a b : Nullness) : Nullness :=
  of (a.mayBeNull && !b.mayBeNull) a.mayBeObject

end Nullness

end MethodFlow
