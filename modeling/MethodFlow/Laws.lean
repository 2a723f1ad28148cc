import MethodFlow.Domain

/-! Checks of the lattice laws on given values of a domain. A check that fails says why. -/
namespace MethodFlow

inductive Verdict
  | passed
  | failed (reason : String)
  deriving DecidableEq

namespace Law

open AbstractValue

variable {V : Type} [AbstractValue V]

def settle (check : Except ValueError Verdict) : Verdict :=
  match check with
  | .ok verdict => verdict
  | .error error => .failed ("domain operation failed: " ++ error.message)

/-- Both of two tests that may fail hold; the second is not tried if the first does not hold. -/
def both (first second : Except ValueError Bool) : Except ValueError Bool := do
  if ← first then second else return false

def unionIsUpperBound (a b : V) : Verdict := settle do
  let joined ← union a b
  if ← both (subsumes joined a) (subsumes joined b) then return .passed
  return .failed s!"union {describe joined} of {describe a} and {describe b} does not cover both"

def intersectionIsLowerBound (a b : V) : Verdict := settle do
  let met ← intersection a b
  if ← both (subsumes a met) (subsumes b met) then return .passed
  return .failed s!"intersection {describe met} of {describe a} and {describe b} escapes an operand"

def unionIsIdempotent (a : V) : Verdict := settle do
  let joined ← union a a
  if joined == a then return .passed
  return .failed s!"{describe a} joined with itself became {describe joined}"

def unionIsCommutative (a b : V) : Verdict := settle do
  let left ← union a b
  let right ← union b a
  if left == right then return .passed
  return .failed s!"a ∪ b = {describe left} but b ∪ a = {describe right}"

def bottomIffEmpty (a : V) : Verdict :=
  let bottom := isBottom a
  let empty := (concretize a).isEmpty
  if bottom == empty then .passed
  else .failed s!"{describe a}: is_bottom = {bottom}, concretization empty = {empty}"

def join : List V → Except ValueError (Option V)
  | [] => .ok none
  | first :: rest => some <$> rest.foldlM union first

def shown (value : Option V) : String :=
  match value with
  | none => "None"
  | some value => "Some(" ++ describe value ++ ")"

/-- Compares the join of each further list with the expected one; the lists are counted on. -/
def sameJoin (expected : Option V) : Nat → List (List V) → Except ValueError Verdict
  | _, [] => .ok .passed
  | index, order :: rest => do
    let received ← join order
    if received == expected then
      sameJoin expected (index + 1) rest
    else
      let change := s!"expected {shown expected}, received {shown received}"
      return .failed s!"order {index} changed the join: {change}"

def joinOrderInvariance (values : List V) (orders : List (List V)) : Verdict := settle do
  sameJoin (← join values) 0 orders

end Law

end MethodFlow
