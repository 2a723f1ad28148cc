import MethodFlow.Frame.Feasibility

/-! The transitions of a frame. Operands are popped before they are looked at, so a transition that
fails may leave fewer operands than it found. -/
namespace MethodFlow.Frame

open AbstractValue

variable {V : Type} [AbstractValue V]

def compute {α : Type} (result : Except ValueError α) : Transition (Frame V) α :=
  match result with
  | .ok value => pure value
  | .error error => throw (.value error)

def onStack {α : Type} (action : StackAction V α) : Transition (Frame V) α := do
  let frame ← get
  match action.run frame.stack with
  | .ok value stack =>
    set { frame with stack := stack }
    return value
  | .error error stack =>
    set { frame with stack := stack }
    throw (.stack error)

omit [AbstractValue V] in
theorem run_onStack {α : Type} (action : StackAction V α) (frame : Frame V) :
    (onStack action).run frame =
      match action.run frame.stack with
      | .ok value stack => .ok value { frame with stack := stack }
      | .error error stack => .error (.stack error) { frame with stack := stack } := by
  unfold onStack
  rw [EStateM.run_bind, EStateM.run_get]
  dsimp only
  cases action.run frame.stack <;> rfl

def push (value : V) : Transition (Frame V) Unit := onStack (OperandStack.push value)

def pop : Transition (Frame V) V := onStack OperandStack.pop

def checkCategory (operation : String) (expected : Kind) (value : V) : Transition (Frame V) Unit :=
  if HasKind.category value = expected.category then pure ()
  else throw (.value (.kindMismatch operation expected (HasKind.kind value)))

/-- A local that was never written gets its value from the factory and keeps it. -/
def readLocal (index : Nat) (kind : Kind) : Transition (Frame V) V := do
  let frame ← get
  match frame.locals.get? index with
  | some value =>
    checkCategory "load" kind value
    return value
  | none =>
    let value := frame.factory.localValue index kind
    set (frame.setLocal index value)
    return value

/-- Locals after a write: a two-slot value covers the next local, and a two-slot value whose second
slot is written is lost. -/
def writeLocals (index : Nat) (value : V) (locals : SortedMap Nat V) : SortedMap Nat V :=
  let next := if HasKind.category value = Category.two then locals.erase (index + 1) else locals
  let previous := match index with
    | 0 => next
    | before + 1 =>
      match next.get? before with
      | some covering =>
        if HasKind.category covering = Category.two then next.erase before else next
      | none => next
  previous.insert index value

def writeLocal (index : Nat) (value : V) : Transition (Frame V) Unit :=
  modify fun frame => { frame with locals := writeLocals index value frame.locals }

/-- The value of a constant; a load of one width refuses constants of the other. -/
def literalValue (factory : ValueFactory V) : Literal → Except ValueError V
  | .null => .ok factory.null
  | .int value => .ok (factory.int value)
  | .short value => .ok (factory.short value)
  | .long value => .ok (factory.long value)
  | .float value => .ok (factory.float value)
  | .double value => .ok (factory.double value)
  | .pooled constant false =>
    match constant with
    | .integer value => .ok (factory.int value)
    | .float value => .ok (factory.float value)
    | .string text => .ok (factory.string text)
    | .classRef _ => .ok (factory.unconstrained .reference)
    | other => .error (.malformedConstant "ldc" other.tag)
  | .pooled constant true =>
    match constant with
    | .long value => .ok (factory.long value)
    | .double value => .ok (factory.double value)
    | other => .error (.malformedConstant "ldc2_w" other.tag)

/-- Pops arguments, the last one first. -/
def popArguments : List Kind → Transition (Frame V) Unit
  | [] => pure ()
  | kind :: rest => do
    let value ← pop
    checkCategory "invoke" kind value
    popArguments rest

def readStatic (access : FieldAccess) : Transition (Frame V) V := do
  let frame ← get
  let key := access.field.identity
  match frame.statics.get? key with
  | some value => return value
  | none =>
    let value := frame.factory.staticValue key access.kind
    set { frame with statics := frame.statics.insert key value }
    return value

/-- Fields are told apart by their identity and not by the object they belong to. -/
def readField (access : FieldAccess) : Transition (Frame V) V := do
  let frame ← get
  let key := access.field.identity
  match frame.fields.get? key with
  | some value => return value
  | none =>
    let value := frame.factory.unconstrained access.kind
    set { frame with fields := frame.fields.insert key value }
    return value

def pushUnconstrained (kind : Kind) : Transition (Frame V) Unit := do
  push ((← get).factory.unconstrained kind)

def allocationCounts : Allocation → Nat
  | .object _ => 0
  | .array _ => 1
  | .referenceArray _ => 1
  | .multiArray _ dimensions => dimensions

def allocate (allocation : Allocation) : Transition (Frame V) Unit := do
  let _ ← onStack (OperandStack.popMany "allocate" (allocationCounts allocation))
  pushUnconstrained .reference

def shuffle (op : StackOp) : Transition (Frame V) Unit := onStack (OperandStack.apply op)

def perform : Effect → Transition (Frame V) Unit
  | .push literal => do
    push (← compute (literalValue (← get).factory literal))
  | .load kind index => do
    push (← readLocal index kind)
  | .store kind index => do
    let value ← pop
    checkCategory "store" kind value
    writeLocal index value
  | .increment index delta => do
    let current ← readLocal index .int
    let step := (← get).factory.int delta
    writeLocal index (← compute (arithmetic .add .int current step))
  | .loadArray element => do
    let index ← pop
    let array ← pop
    push (← compute (loadFromArray array index element))
  | .storeArray _ => do
    let value ← pop
    let index ← pop
    let array ← pop
    compute (storeInArray array index value)
  | .shuffle op => shuffle op
  | .arithmetic op kind => do
    let right ← pop
    let left ← pop
    push (← compute (arithmetic op kind left right))
  | .negate kind => do
    let value ← pop
    push (← compute (negate kind value))
  | .convert conversion => do
    let value ← pop
    push (← compute (convert conversion value))
  | .compare comparison => do
    let right ← pop
    let left ← pop
    push (← compute (compare comparison left right))
  | .getStatic access => do
    push (← readStatic access)
  | .putStatic access => do
    let value ← pop
    modify fun frame =>
      { frame with statics := frame.statics.insert access.field.identity value }
  | .getField access => do
    let _ ← pop
    push (← readField access)
  | .putField access => do
    let value ← pop
    let _ ← pop
    modify fun frame =>
      { frame with fields := frame.fields.insert access.field.identity value }
  | .invoke kind _ descriptor => do
    popArguments descriptor.parameters.reverse
    if kind.hasReceiver then
      let _ ← pop
    match descriptor.returns with
    | some result => pushUnconstrained result
    | none => pure ()
  | .allocate allocation => allocate allocation
  | .arrayLength => do
    let _ ← pop
    pushUnconstrained .int
  | .typeCheck (.cast _) => do
    push (← pop)
  | .typeCheck (.instanceOf _) => do
    let _ ← pop
    let factory := (← get).factory
    push (← compute (union (factory.int 0) (factory.int 1)))
  | .monitor _ => do
    let _ ← pop

def setFlags (flags : BranchFlags) : Transition (Frame V) Unit :=
  modify fun frame => { frame with flags := flags }

def evaluateBranch : BranchTest → Transition (Frame V) Unit
  | .zero condition => do
    let value ← pop
    setFlags (← compute (Feasibility.againstZero ((← get).factory.int 0) condition value))
  | .intCompare condition => do
    let right ← pop
    let left ← pop
    setFlags (← compute (Feasibility.betweenInts condition left right))
  | .refCompare equal => do
    let right ← pop
    let left ← pop
    setFlags (← compute (Feasibility.compareSame equal left right))
  | .null isNull => do
    let value ← pop
    setFlags (← compute (Feasibility.againstValue isNull value (← get).factory.null))

def maxCandidates : Nat := 1024

/-- A selector with few enough values decides which cases are explored; otherwise all are. -/
def evaluateSwitch : Transition (Frame V) Unit := do
  let selector ← pop
  match (concretize selector).integers? maxCandidates with
  | some candidates =>
    modify fun frame => { frame with candidates := candidates, flags := ⟨true, false⟩ }
  | none => modify fun frame => { frame with candidates := [], flags := ⟨true, true⟩ }

def enterSubroutine (returnTo : Nat) : Transition (Frame V) Unit := do
  push ((← get).factory.returnAddress returnTo)

/-- A local that was written must hold a return address. -/
def exitSubroutine (index : Nat) : Transition (Frame V) Unit := do
  match (← get).locals.get? index with
  | some value =>
    if HasKind.kind value = .returnAddress then pure ()
    else throw (.value (.incompatibleKind "ret" (HasKind.kind value)))
  | none => pure ()

def clearStack : Transition (Frame V) Unit := modify fun frame => { frame with stack := [] }

def terminate : Terminal → Transition (Frame V) Unit
  | .value kind => do
    let value ← pop
    checkCategory "return" kind value
    modify fun frame => { frame with returnValue := some value }
    clearStack
  | .void => clearStack
  | .throw => do
    let value ← pop
    modify fun frame => { frame with thrown := some value }
    clearStack

end MethodFlow.Frame
