/-! The number of forks that are open at once, counted and, if asked for, limited. -/
namespace MethodFlow

/-- Open forks allowed at once; without a number there is no limit. -/
structure Limits where
  maxForkDepth : Option Nat
  deriving DecidableEq

structure ForkMetrics where
  forks : Nat
  maxForkDepth : Nat
  deriving DecidableEq

inductive LimitError
  | forkDepth (limit : Nat)
  deriving DecidableEq

def LimitError.message : LimitError → String
  | forkDepth limit => s!"fork depth limit exceeded (limit {limit})"

structure ForkGuard where
  limits : Limits
  depth : Nat
  metrics : ForkMetrics
  deriving DecidableEq

namespace ForkGuard

def new (limits : Limits) : ForkGuard := ⟨limits, 0, ⟨0, 0⟩⟩

/-- The limit, if the next fork would go beyond it. -/
def exhausted (guard : ForkGuard) : Option Nat :=
  guard.limits.maxForkDepth.filter fun limit => limit ≤ guard.depth

def enter (guard : ForkGuard) : Except LimitError ForkGuard :=
  match guard.exhausted with
  | some limit => .error (.forkDepth limit)
  | none =>
    let depth := guard.depth + 1
    .ok { guard with
      depth := depth
      metrics := ⟨guard.metrics.forks + 1, max guard.metrics.maxForkDepth depth⟩ }

def exit (guard : ForkGuard) : ForkGuard := { guard with depth := guard.depth - 1 }

end ForkGuard

end MethodFlow
