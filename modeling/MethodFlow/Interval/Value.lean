import MethodFlow.Addresses
import MethodFlow.Domain
import MethodFlow.Nullness

/-! Interval values: ranges for numbers, nullness for references and sets of return addresses. -/
namespace MethodFlow

inductive Interval
  | integral (kind : IntKind) (range : IntRange)
  | floating (kind : FloatKind) (range : FloatRange Float)
  | reference (nullness : Nullness)
  | returnAddress (addresses : Addresses)

namespace Interval

def kind : Interval → Kind
  | integral kind _ => .integral kind
  | floating kind _ => .floating kind
  | reference _ => .reference
  | returnAddress _ => .returnAddress

def int (value : Int32) : Interval := integral .int (.singleton value.toInt)

def long (value : Int64) : Interval := integral .long (.singleton value.toInt)

def short (value : Int16) : Interval := integral .short (.singleton value.toInt)

def float (value : Float32) : Interval := floating .float (.singleton value.toFloat)

def double (value : Float) : Interval := floating .double (.singleton value)

def null : Interval := reference .null

def nonNull : Interval := reference .nonNull

def address (target : Nat) : Interval := returnAddress (.known (.singleton target))

def top : Kind → Interval
  | .integral kind => integral kind kind.fullRange
  | .floating kind => floating kind .full
  | .reference => reference .maybeNull
  | .returnAddress => returnAddress .any

def bottom : Kind → Interval
  | .integral kind => integral kind .empty
  | .floating kind => floating kind .empty
  | .reference => reference .bottom
  | .returnAddress => returnAddress .none

/-- Equality of values, for which both floating-point zeros are the same. -/
def beq : Interval → Interval → Bool
  | integral k r, integral l s => k == l && r == s
  | floating k r, floating l s => k == l && r == s
  | reference a, reference b => a == b
  | returnAddress a, returnAddress b => a == b
  | _, _ => false

instance : BEq Interval := ⟨beq⟩

def isTop : Interval → Bool
  | integral kind range => range == kind.fullRange
  | floating _ range => range == .full
  | reference nullness => nullness == .maybeNull
  | returnAddress addresses => addresses == .any

def isBottom : Interval → Bool
  | integral _ range => range.isEmpty
  | floating _ range => range.isEmpty
  | reference nullness => nullness == .bottom
  | returnAddress (.known targets) => targets.isEmpty
  | returnAddress .any => false

/-- Two values of one join class, with the kind their join has. -/
inductive Pair
  | integral (kind : IntKind) (left right : IntRange)
  | floating (kind : FloatKind) (left right : FloatRange Float)
  | references (left right : Nullness)
  | addresses (left right : Addresses)

/-- Integral values go together if they take equally many slots; different kinds join to int. -/
def pair (operation : String) : Interval → Interval → Except ValueError Pair
  | integral k r, integral l s =>
    if k.category = l.category then .ok (.integral (if k = l then k else .int) r s)
    else .error (.kindMismatch operation (.integral k) (.integral l))
  | floating k r, floating l s =>
    if k = l then .ok (.floating k r s)
    else .error (.kindMismatch operation (.floating k) (.floating l))
  | reference a, reference b => .ok (.references a b)
  | returnAddress a, returnAddress b => .ok (.addresses a b)
  | a, b => .error (.kindMismatch operation a.kind b.kind)

def subsumes (a b : Interval) : Except ValueError Bool := do
  match ← pair "subsumes" a b with
  | .integral _ r s => return r.covers s
  | .floating _ r s => return r.covers s
  | .references m n => return m.covers n
  | .addresses m n => return m.covers n

def union (a b : Interval) : Except ValueError Interval := do
  match ← pair "union" a b with
  | .integral kind r s => return integral kind (r.hull s)
  | .floating kind r s => return floating kind (r.hull s)
  | .references m n => return reference (m.join n)
  | .addresses m n => return returnAddress (m.join n)

def intersection (a b : Interval) : Except ValueError Interval := do
  match ← pair "intersection" a b with
  | .integral kind r s => return integral kind (r.meet s)
  | .floating kind r s => return floating kind (r.meet s)
  | .references m n => return reference (m.meet n)
  | .addresses m n => return returnAddress (m.meet n)

/-- The values of the first that are not of the second, or somewhat more; the kind stays. -/
def minus (a b : Interval) : Except ValueError Interval := do
  match a, ← pair "minus" a b with
  | integral kind _, .integral _ r s => return integral kind (r.without s)
  | _, .integral kind r s => return integral kind (r.without s)
  | _, .floating kind r s => return floating kind (r.without s)
  | _, .references m n => return reference (m.without n)
  | _, .addresses m n => return returnAddress (m.without n)

def lowerThan (a b : Interval) : Except ValueError Bool := do
  match ← pair "is_value_lower_than" a b with
  | .integral _ r s => return r.below s
  | .floating _ r s => return r.allRelated FloatFormat.lt s
  | _ => throw (.incompatibleKind "is_value_lower_than" a.kind)

def lowerOrEqual (a b : Interval) : Except ValueError Bool := do
  match ← pair "is_value_lower_or_equal_to" a b with
  | .integral _ r s => return r.notAbove s
  | .floating _ r s => return r.allRelated FloatFormat.le s
  | _ => throw (.incompatibleKind "is_value_lower_or_equal_to" a.kind)

/-- A floating-point range of more than one number is not listed. -/
def concretize : Interval → Concretization
  | integral _ (.span low high _) => .integers low high
  | integral _ .empty => .empty
  | floating _ range =>
    let withNaN (set : SortedSet ConcreteValue) : Concretization :=
      .values (if range.nan then set.insert (.float (0.0 / 0.0)) else set)
    match range.bounds? with
    | none => withNaN .empty
    | some (low, high) =>
      if FloatFormat.same low high then withNaN (.singleton (.float low)) else .unbounded
  | reference .bottom => .empty
  | reference .null => .single .null
  | reference _ => .unbounded
  | returnAddress (.known targets) => .values (.ofList (targets.toList.map .returnAddress))
  | returnAddress .any => .unbounded

def bounds (operation : String) : Interval → Except ValueError (Int × Int)
  | integral _ (.span low high _) => .ok (low, high)
  | integral _ .empty => .error (.emptyValue operation)
  | other => .error (.incompatibleKind operation other.kind)

def lowest (a : Interval) : Except ValueError Int :=
  (·.1) <$> a.bounds "lowest_possible_integer"

def highest (a : Interval) : Except ValueError Int :=
  (·.2) <$> a.bounds "highest_possible_integer"

end Interval

end MethodFlow
