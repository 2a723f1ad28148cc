import MethodFlow.Decimal.Shortest
import MethodFlow.Interval.Value

/-! Interval values as diagnostics show them. -/
namespace MethodFlow.Interval

/-- Bounds are written positionally from 0.0001 up to sixteen whole digits. -/
def boundFormat : DecimalFormat := ⟨-4, 15, "e"⟩

def boundText (bound : Float) : String :=
  let bits := bound.toBits.toNat
  let sign := if bits < 9223372036854775808 then "" else "-"
  let unsigned := bits % 9223372036854775808
  if bound.isNaN then "NaN"
  else if unsigned = 0x7ff0000000000000 then sign ++ "inf"
  else if unsigned = 0 then sign ++ "0.0"
  else sign ++ boundFormat.render (BinaryFraction.ofBits unsigned).shortest

def recordText (name : String) (fields : List (String × String)) : String :=
  let shown := fields.map fun (field, text) => field ++ ": " ++ text
  name ++ " \x7b " ++ ", ".intercalate shown ++ " \x7d"

def optionText : Option String → String
  | none => "None"
  | some text => "Some(" ++ text ++ ")"

def pairText (low high : String) : String := "(" ++ low ++ ", " ++ high ++ ")"

def rangeText (range : IntRange) : String :=
  let bounds := range.bounds?.map fun (low, high) => pairText (toString low) (toString high)
  recordText "IntRange" [("bounds", optionText bounds)]

def floatRangeText (range : FloatRange Float) : String :=
  let bounds := range.bounds?.map fun (low, high) => pairText (boundText low) (boundText high)
  recordText "FloatRange" [("bounds", optionText bounds), ("nan", toString range.nan)]

def addressesText : Addresses → String
  | .known targets => "Known(\x7b" ++ ", ".intercalate (targets.toList.map toString) ++ "\x7d)"
  | .any => "Any"

def describe : Interval → String
  | integral kind range =>
    recordText "Integral" [("kind", (Kind.integral kind).name), ("range", rangeText range)]
  | floating kind range =>
    recordText "Floating" [("kind", (Kind.floating kind).name), ("range", floatRangeText range)]
  | reference nullness => "Reference(" ++ nullness.name ++ ")"
  | returnAddress addresses => "ReturnAddress(" ++ addressesText addresses ++ ")"

end MethodFlow.Interval
