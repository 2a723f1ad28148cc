import MethodFlow.Document.Bits
import MethodFlow.Interval.Value

/-! Interval values, their ranges and their concretizations as documents. -/
namespace MethodFlow

open Document (count optional pairOf? tagged)

def Kind.names : List (String × Kind) := Kind.all.map fun kind => (kind.name, kind)

def Kind.ofDocument? : Document → Option Kind := Document.named? Kind.names

def Kind.toDocument (kind : Kind) : Document := .text kind.name

def Nullness.names : List (String × Nullness) :=
  [Nullness.bottom, .null, .nonNull, .maybeNull].map fun nullness => (nullness.name, nullness)

namespace IntRange

def ofDocument? (document : Document) : Option IntRange := do
  match ← document.optional? (pairOf? Document.int? Document.int?) with
  | some (low, high) => return between low high
  | none => return empty

def toDocument (range : IntRange) : Document :=
  optional (fun bounds => .list [.integer bounds.1, .integer bounds.2]) range.bounds?

end IntRange

namespace FloatRange

def boundsDocument (range : FloatRange Float) : Document :=
  optional (fun bounds => .list [.quantity bounds.1, .quantity bounds.2]) range.bounds?

def toFields (range : FloatRange Float) : List (String × Document) :=
  [("range", range.boundsDocument), ("nan", .bool range.nan)]

def toDocument (range : FloatRange Float) : Document := .record range.toFields

def ofDocument? (document : Document) : Option (FloatRange Float) := do
  let bounds ← (document.get "range").optional? (pairOf? Document.double? Document.double?)
  return of bounds (← (document.get "nan").flag?)

end FloatRange

namespace Addresses

def ofDocument? : Document → Option Addresses
  | .text "Any" => some any
  | document => (known ∘ .ofList) <$> document.listOf? Document.nat?

def toDocument : Addresses → Document
  | any => .text "Any"
  | known targets => .list (targets.toList.map count)

end Addresses

namespace Interval

def ofDocument? (document : Document) : Option Interval := do
  match ← Kind.ofDocument? (document.get "kind") with
  | .integral kind => return integral kind (← IntRange.ofDocument? (document.get "range"))
  | .floating kind => return floating kind (← FloatRange.ofDocument? document)
  | .reference => return reference (← (document.get "nullness").named? Nullness.names)
  | .returnAddress => return returnAddress (← Addresses.ofDocument? (document.get "addresses"))

def toDocument (value : Interval) : Document :=
  let fields :=
    match value with
    | integral _ range => [("range", range.toDocument)]
    | floating _ range => range.toFields
    | reference nullness => [("nullness", .text nullness.name)]
    | returnAddress addresses => [("addresses", addresses.toDocument)]
  .record (("kind", value.kind.toDocument) :: fields)

end Interval

namespace ConcreteValue

def ofDocument? (document : Document) : Option ConcreteValue := do
  match ← document.variant? with
  | ("Int", value) => return int (← value.int?)
  | ("Float", value) => return float (← value.double?)
  | ("Null", _) => return null
  | ("ReturnAddress", value) => return returnAddress (← value.nat?)
  | _ => none

def toDocument : ConcreteValue → Document
  | int value => tagged "Int" (.integer value)
  | float value => tagged "Float" (.quantity value)
  | null => .text "Null"
  | returnAddress target => tagged "ReturnAddress" (count target)

end ConcreteValue

namespace Concretization

def ofDocument? (document : Document) : Option Concretization := do
  match ← document.variant? with
  | ("Values", members) => return values (.ofList (← members.listOf? ConcreteValue.ofDocument?))
  | ("Integers", bounds) =>
    let (low, high) ← bounds.pairOf? Document.int? Document.int?
    return integers low high
  | ("Unbounded", _) => return unbounded
  | _ => none

def toDocument : Concretization → Document
  | values set => tagged "Values" (.list (set.toList.map ConcreteValue.toDocument))
  | integers low high => tagged "Integers" (.list [.integer low, .integer high])
  | unbounded => .text "Unbounded"

end Concretization

end MethodFlow
