import MethodFlow.Kind

/-! The operand stack, top first, with one entry for each value whatever its width. The category of
the entries decides what the stack instructions may take together, and an instruction that would
split a two-slot value is refused. -/
namespace MethodFlow

inductive StackOp
  | pop
  | pop2
  | dup
  | dupX1
  | dupX2
  | dup2
  | dup2X1
  | dup2X2
  | swap
  deriving DecidableEq

inductive StackError
  | underflow (operation : String) (needed available : Nat)
  | category (operation : String) (depth : Nat)
  deriving DecidableEq

namespace StackError

def message : StackError → String
  | underflow operation needed available =>
    s!"{operation} needs {needed} value(s) but the stack holds {available}"
  | category operation depth => s!"{operation} expects a category-1 value at depth {depth}"

end StackError

abbrev OperandStack (V : Type) := List V

/-- A computation that changes the stack in place. One that fails leaves a stack, too: the one that
it had got to. -/
abbrev StackAction (V α : Type) := EStateM StackError (OperandStack V) α

namespace OperandStack

variable {V α : Type}

def ask (question : OperandStack V → Except StackError α) : StackAction V α := do
  match question (← get) with
  | .ok answer => return answer
  | .error error => throw error

theorem run_ask (question : OperandStack V → Except StackError α) (stack : OperandStack V) :
    (ask question).run stack =
      match question stack with
      | .ok answer => .ok answer stack
      | .error error => .error error stack := by
  unfold ask
  rw [EStateM.run_bind, EStateM.run_get]
  dsimp only
  cases question stack <;> rfl

def push (value : V) : StackAction V Unit := modify (value :: ·)

def pop : StackAction V V := do
  match ← get with
  | [] => throw (.underflow "pop" 1 0)
  | value :: rest =>
    set rest
    return value

def require (operation : String) (needed : Nat) (stack : OperandStack V) : Except StackError Unit :=
  if stack.length < needed then .error (.underflow operation needed stack.length) else .ok ()

/-- Removes the top values and gives them bottom first. -/
def popMany (operation : String) (count : Nat) : StackAction V (List V) := do
  ask (require operation count)
  modifyGet fun stack => ((stack.take count).reverse, stack.drop count)

/-- Puts values, top first, below the top `depth` values. -/
def insertBelow (operation : String) (depth : Nat) (group : List V) : StackAction V Unit := do
  ask (require operation depth)
  modify fun stack => stack.take depth ++ group ++ stack.drop depth

variable [HasKind V]

def categoryAt (operation : String) (depth : Nat) (stack : OperandStack V) :
    Except StackError Category :=
  match stack[depth]? with
  | some value => .ok (HasKind.category value)
  | none => .error (.underflow operation (depth + 1) stack.length)

def expectSingle (operation : String) (depth : Nat) (stack : OperandStack V) :
    Except StackError Unit := do
  match ← stack.categoryAt operation depth with
  | .one => return ()
  | .two => throw (.category operation depth)

/-- How many values fill two slots from a depth on: one of two slots, or two of one slot. -/
def groupAt (operation : String) (depth : Nat) (stack : OperandStack V) :
    Except StackError Nat := do
  match ← stack.categoryAt operation depth with
  | .two => return 1
  | .one =>
    stack.require operation (depth + 2)
    stack.expectSingle operation (depth + 1)
    return 2

def topGroup (operation : String) (stack : OperandStack V) : Except StackError (List V) := do
  return stack.take (← stack.groupAt operation 0)

def popSingle : StackAction V V := do
  ask (require "pop" 1)
  ask (expectSingle "pop" 0)
  pop

def apply : StackOp → StackAction V Unit
  | .pop => do
    let _ ← popSingle
  | .pop2 => do
    match ← ask (categoryAt "pop2" 0) with
    | .two =>
      let _ ← pop
    | .one =>
      ask (require "pop2" 2)
      ask (expectSingle "pop2" 1)
      modify (List.drop 2)
  | .dup => do
    ask (require "dup" 1)
    ask (expectSingle "dup" 0)
    modify fun stack => stack.take 1 ++ stack
  | .dupX1 => do
    ask (require "dup_x1" 2)
    ask (expectSingle "dup_x1" 0)
    ask (expectSingle "dup_x1" 1)
    insertBelow "dup_x1" 2 ((← get).take 1)
  | .dupX2 => do
    ask (require "dup_x2" 2)
    ask (expectSingle "dup_x2" 0)
    let top := (← get).take 1
    insertBelow "dup_x2" (1 + (← ask (groupAt "dup_x2" 1))) top
  | .dup2 => do
    let group ← ask (topGroup "dup2")
    modify (group ++ ·)
  | .dup2X1 => do
    let group ← ask (topGroup "dup2_x1")
    ask (require "dup2_x1" (group.length + 1))
    ask (expectSingle "dup2_x1" group.length)
    insertBelow "dup2_x1" (group.length + 1) group
  | .dup2X2 => do
    let group ← ask (topGroup "dup2_x2")
    let below ← ask (groupAt "dup2_x2" group.length)
    insertBelow "dup2_x2" (group.length + below) group
  | .swap => do
    ask (require "swap" 2)
    ask (expectSingle "swap" 0)
    ask (expectSingle "swap" 1)
    modify fun stack => (stack.take 2).reverse ++ stack.drop 2

end OperandStack

end MethodFlow
