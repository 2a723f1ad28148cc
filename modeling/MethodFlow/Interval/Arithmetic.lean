import MethodFlow.Interval.Value

/-! Arithmetic, conversions and comparisons of interval values. An instruction reads its operands
as a kind; an integral operand may be of any kind that takes as many slots. -/
namespace MethodFlow.Interval

def integralOperand (operation : String) (expected : IntKind) :
    Interval → Except ValueError IntRange
  | integral kind range =>
    if kind.category = expected.category then .ok range
    else .error (.kindMismatch operation (.integral expected) (.integral kind))
  | other => .error (.kindMismatch operation (.integral expected) other.kind)

def floatingOperand (operation : String) (expected : FloatKind) :
    Interval → Except ValueError (FloatRange Float)
  | floating kind range =>
    if kind = expected then .ok range
    else .error (.kindMismatch operation (.floating expected) (.floating kind))
  | other => .error (.kindMismatch operation (.floating expected) other.kind)

def nullnessOperand (operation : String) : Interval → Except ValueError Nullness
  | reference nullness => .ok nullness
  | other => .error (.incompatibleKind operation other.kind)

def rounded (kind : FloatKind) (range : FloatRange Float) : Interval :=
  match kind with
  | .float => floating .float range.toSingle
  | .double => floating .double range

def arithmetic (op : ArithmeticOp) (kind : NumericKind) (left right : Interval) :
    Except ValueError Interval := do
  match kind with
  | .integral width =>
    let l ← left.integralOperand "arithmetic" width.kind
    let r ← right.integralOperand "arithmetic" (if op.isShift then .int else width.kind)
    return integral width.kind (l.arithmetic op width.bits r)
  | .floating precision =>
    match op with
    | .add | .sub | .mul | .div | .rem =>
      let l ← left.floatingOperand "arithmetic" precision
      let r ← right.floatingOperand "arithmetic" precision
      return rounded precision (l.arithmetic op r)
    | _ => throw (.incompatibleKind "arithmetic" (.floating precision))

def negate (kind : NumericKind) (value : Interval) : Except ValueError Interval := do
  match kind with
  | .integral width =>
    let range ← value.integralOperand "negate" width.kind
    return integral width.kind (range.negate width.kind.fullRange)
  | .floating precision =>
    let range ← value.floatingOperand "negate" precision
    return rounded precision range.negate

def convertIntegers (conversion : Conversion) (low high : Int) : Interval :=
  let narrowed (kind : IntKind) := integral kind (.clamped low high kind.fullRange)
  match conversion with
  | .l2i => narrowed .int
  | .i2b => narrowed .byte
  | .i2c => narrowed .char
  | .i2s => narrowed .short
  | .i2f | .l2f =>
    let single (bound : Int) := (Int64.ofInt bound).toFloat32.toFloat
    rounded .float (.of (some (single low, single high)) false)
  | .i2d | .l2d =>
    let double (bound : Int) := (Int64.ofInt bound).toFloat
    rounded .double (.of (some (double low, double high)) false)
  | _ => integral .long (.between low high)

/-- Conversion of a floating-point range to integers: values out of range go to the nearest end,
and NaN goes to zero. -/
def truncated (width : Width) (range : FloatRange Float) : IntRange :=
  let cut (bound : Float) : Int :=
    match width with
    | .int => bound.toInt32.toInt
    | .long => bound.toInt64.toInt
  let numbers := match range.bounds? with
    | some (low, high) => IntRange.between (cut low) (cut high)
    | none => .empty
  if range.nan then numbers.hull (.singleton 0) else numbers

def convert (conversion : Conversion) (value : Interval) : Except ValueError Interval := do
  match conversion.source with
  | .integral width =>
    match ← value.integralOperand "convert" width.kind with
    | .empty => return bottom conversion.target.kind
    | .span low high _ => return convertIntegers conversion low high
  | .floating precision =>
    let range ← value.floatingOperand "convert" precision
    match conversion.target with
    | .integral width => return integral width.kind (truncated width range)
    | .floating target => return rounded target range

def compare (comparison : Comparison) (left right : Interval) : Except ValueError Interval := do
  match comparison.operandKind with
  | .integral width =>
    let l ← left.integralOperand "compare" width.kind
    let r ← right.integralOperand "compare" width.kind
    return integral .int (l.compare r)
  | .floating precision =>
    let l ← left.floatingOperand "compare" precision
    let r ← right.floatingOperand "compare" precision
    return integral .int (l.compare r comparison.nanResult)

/-- Nothing is loaded from null or below index zero; otherwise any element may be. -/
def loadFromArray (array index : Interval) (element : Kind) : Except ValueError Interval := do
  let nullness ← array.nullnessOperand "load_from_array"
  let positions ← index.integralOperand "load_from_array" .int
  let inBounds := match positions with
    | .span _ high _ => 0 ≤ high
    | .empty => false
  return if nullness.mayBeObject && inBounds then top element else bottom element

/-- Contents of arrays are not tracked, so a store only checks its operands. -/
def storeInArray (array index _value : Interval) : Except ValueError Unit := do
  let _ ← array.nullnessOperand "store_in_array"
  let _ ← index.integralOperand "store_in_array" .int
  return ()

end MethodFlow.Interval
