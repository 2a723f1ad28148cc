import MethodFlow.Code.Decode
import MethodFlow.Proofs.Word

/-! The concrete machine for the integer instructions. Its state is a stack of words and the locals
that may be read; an instruction outside the fragment, a division by zero and a read of a lost local
have no successor. A run is listed visit by visit up to the instruction that returns. -/
namespace MethodFlow

structure Word where
  width : Width
  value : Int
  fits : width.Fits value
  deriving DecidableEq

namespace Word

def wrap (width : Width) (value : Int) : Word := ⟨width, width.wrap value, width.wrap_fits value⟩

@[simp] theorem wrap_value (width : Width) (value : Int) :
    (wrap width value).value = width.wrap value := rfl

def kind (word : Word) : Kind := .integral word.width.kind

instance : HasKind Word := ⟨kind⟩

def ofInt32 (value : Int32) : Word :=
  ⟨.int, value.toInt, Width.fits_int.mpr ⟨value.le_toInt, value.toInt_lt⟩⟩

def ofInt64 (value : Int64) : Word :=
  ⟨.long, value.toInt, Width.fits_long.mpr ⟨value.le_toInt, value.toInt_lt⟩⟩

def ofLiteral : Literal → Option Word
  | .int value => some (ofInt32 value)
  | .short value => some (ofInt32 value.toInt32)
  | .long value => some (ofInt64 value)
  | .pooled (.integer value) false => some (ofInt32 value)
  | .pooled (.long value) true => some (ofInt64 value)
  | _ => none

def arithmetic (op : ArithmeticOp) (width : Width) (left right : Word) : Option Word :=
  if left.width = width ∧ right.width = (if op.isShift then .int else width) then
    (width.result op left.value right.value).map (wrap width)
  else none

def negate (width : Width) (word : Word) : Option Word :=
  if word.width = width then some (wrap width (-word.value)) else none

def converted : Conversion → Int → Int
  | .i2b, value => value.bmod 256
  | .i2c, value => value % 65536
  | .i2s, value => value.bmod 65536
  | _, value => value

/-- A conversion between integers; those from or to other numbers are not made here. -/
def convert (conversion : Conversion) (word : Word) : Option Word :=
  match conversion.source, conversion.target with
  | .integral source, .integral target =>
    if word.width = source then some (wrap target (converted conversion word.value)) else none
  | _, _ => none

def compare (left right : Word) : Option Word :=
  if left.width = .long ∧ right.width = .long then
    some (wrap .int (left.value - right.value).sign)
  else none

def shuffle : StackOp → List Word → Option (List Word)
  | .pop, ⟨.int, _, _⟩ :: rest => some rest
  | .pop2, ⟨.long, _, _⟩ :: rest => some rest
  | .pop2, ⟨.int, _, _⟩ :: ⟨.int, _, _⟩ :: rest => some rest
  | .dup, a@⟨.int, _, _⟩ :: rest => some (a :: a :: rest)
  | .dupX1, a@⟨.int, _, _⟩ :: b@⟨.int, _, _⟩ :: rest => some (a :: b :: a :: rest)
  | .dupX2, a@⟨.int, _, _⟩ :: b@⟨.long, _, _⟩ :: rest => some (a :: b :: a :: rest)
  | .dupX2, a@⟨.int, _, _⟩ :: b@⟨.int, _, _⟩ :: c@⟨.int, _, _⟩ :: rest =>
    some (a :: b :: c :: a :: rest)
  | .dup2, a@⟨.long, _, _⟩ :: rest => some (a :: a :: rest)
  | .dup2, a@⟨.int, _, _⟩ :: b@⟨.int, _, _⟩ :: rest => some (a :: b :: a :: b :: rest)
  | .dup2X1, a@⟨.long, _, _⟩ :: b@⟨.int, _, _⟩ :: rest => some (a :: b :: a :: rest)
  | .dup2X1, a@⟨.int, _, _⟩ :: b@⟨.int, _, _⟩ :: c@⟨.int, _, _⟩ :: rest =>
    some (a :: b :: c :: a :: b :: rest)
  | .dup2X2, a@⟨.long, _, _⟩ :: b@⟨.long, _, _⟩ :: rest => some (a :: b :: a :: rest)
  | .dup2X2, a@⟨.long, _, _⟩ :: b@⟨.int, _, _⟩ :: c@⟨.int, _, _⟩ :: rest =>
    some (a :: b :: c :: a :: rest)
  | .dup2X2, a@⟨.int, _, _⟩ :: b@⟨.int, _, _⟩ :: c@⟨.long, _, _⟩ :: rest =>
    some (a :: b :: c :: a :: b :: rest)
  | .dup2X2, a@⟨.int, _, _⟩ :: b@⟨.int, _, _⟩ :: c@⟨.int, _, _⟩ :: d@⟨.int, _, _⟩ :: rest =>
    some (a :: b :: c :: d :: a :: b :: rest)
  | .swap, a@⟨.int, _, _⟩ :: b@⟨.int, _, _⟩ :: rest => some (b :: a :: rest)
  | _, _ => none

end Word

def Condition.holds : Condition → Int → Int → Bool
  | .same expected, x, y => (x == y) == expected
  | .lt, x, y => x < y
  | .ge, x, y => y ≤ x
  | .gt, x, y => y < x
  | .le, x, y => x ≤ y

/-- The locals are those that may be read: a slot that was lost, or never set, has no word. -/
structure Machine where
  stack : List Word
  locals : Nat → Option Word

namespace Machine

def push (machine : Machine) (word : Word) : Machine :=
  { machine with stack := word :: machine.stack }

/-- A long takes the next slot as well, and a long whose second slot is written is lost. -/
def write (index : Nat) (word : Word) (locals : Nat → Option Word) :
    Nat → Option Word := fun slot =>
  if slot = index then some word
  else if slot = index + 1 ∧ word.width = .long then none
  else if slot + 1 = index ∧ (locals slot).any (·.width = .long) then none
  else locals slot

def read (machine : Machine) (kind : Kind) (index : Nat) : Option Word :=
  (machine.locals index).filter (kind = ·.kind)

def perform (machine : Machine) : Effect → Option Machine
  | .push literal => (Word.ofLiteral literal).map machine.push
  | .load kind index => (machine.read kind index).map machine.push
  | .store kind index =>
    match machine.stack with
    | word :: rest =>
      if kind = word.kind then some ⟨rest, write index word machine.locals⟩ else none
    | [] => none
  | .increment index delta => do
    let current ← machine.read .int index
    let sum ← current.arithmetic .add .int (.ofInt32 delta)
    return { machine with locals := write index sum machine.locals }
  | .shuffle op => (Word.shuffle op machine.stack).map fun stack => { machine with stack := stack }
  | .arithmetic op (.integral width) =>
    match machine.stack with
    | right :: left :: rest =>
      (left.arithmetic op width right).map fun word => { machine with stack := word :: rest }
    | _ => none
  | .negate (.integral width) =>
    match machine.stack with
    | word :: rest => (word.negate width).map fun word => { machine with stack := word :: rest }
    | [] => none
  | .convert conversion =>
    match machine.stack with
    | word :: rest =>
      (word.convert conversion).map fun word => { machine with stack := word :: rest }
    | [] => none
  | .compare .lcmp =>
    match machine.stack with
    | right :: left :: rest =>
      (left.compare right).map fun word => { machine with stack := word :: rest }
    | _ => none
  | _ => none

def test (machine : Machine) : BranchTest → Option (Bool × Machine)
  | .zero condition =>
    match machine.stack with
    | ⟨.int, value, _⟩ :: rest => some (condition.holds value 0, { machine with stack := rest })
    | _ => none
  | .intCompare condition =>
    match machine.stack with
    | ⟨.int, right, _⟩ :: ⟨.int, left, _⟩ :: rest =>
      some (condition.holds left right, { machine with stack := rest })
    | _ => none
  | _ => none

def advance (machine : Machine) (instruction : Instruction) : Option (Int × Machine) :=
  let offset : Int := instruction.offset
  let next := offset + instruction.length
  match instruction.operation with
  | .nop => some (next, machine)
  | .effect effect => (machine.perform effect).map fun after => (next, after)
  | .goto relative => some (offset + relative, machine)
  | .branch test relative =>
    (machine.test test).map fun (holds, after) => (if holds then offset + relative else next, after)
  | .switch table =>
    match machine.stack with
    | ⟨.int, value, _⟩ :: rest =>
      some (offset + (table.cases.lookup value).getD table.default, { machine with stack := rest })
    | _ => none
  | _ => none

/-- The word an instruction returns, if it is a return of the top word's kind. -/
def returned (machine : Machine) (instruction : Instruction) : Option Word :=
  match instruction.operation with
  | .terminate (.value kind) => machine.stack.head?.filter (kind = ·.kind)
  | _ => none

/-- An effect leaves the mathematical result: a sum, difference, product, quotient or negation is
not cut to its width, and a conversion keeps the number. -/
def uncut (machine : Machine) : Effect → Bool
  | .increment index delta =>
    (machine.locals index).all fun word => Width.int.Fits (word.value + delta.toInt)
  | .arithmetic op (.integral width) =>
    match machine.stack with
    | right :: left :: _ =>
      !op.mayOverflow || (width.result op left.value right.value).all fun value => width.Fits value
    | _ => true
  | .negate (.integral width) => machine.stack.head?.all fun word => width.Fits (-word.value)
  | .convert conversion =>
    machine.stack.head?.all fun word => (word.convert conversion).all (·.value = word.value)
  | _ => true

end Machine

structure Visit where
  instruction : Instruction
  machine : Machine

/-- The machine goes from an offset and a state through the listed visits and returns the word. -/
inductive Run (body : MethodBody) : Nat → Machine → List Visit → Word → Prop
  | ends {offset machine instruction word}
      (decoded : body.decode offset = .ok instruction)
      (returned : machine.returned instruction = some word) :
      Run body offset machine [⟨instruction, machine⟩] word
  | moves {offset machine instruction} {target : Nat} {after visits word}
      (decoded : body.decode offset = .ok instruction)
      (advanced : machine.advance instruction = some (↑target, after))
      (rest : Run body target after visits word) :
      Run body offset machine (⟨instruction, machine⟩ :: visits) word

def execute (body : MethodBody) : Nat → Nat → Machine → Option (List Visit × Word)
  | 0, _, _ => none
  | fuel + 1, offset, machine =>
    match body.decode offset with
    | .error _ => none
    | .ok instruction =>
      match machine.returned instruction, machine.advance instruction with
      | some word, _ => some ([⟨instruction, machine⟩], word)
      | none, some (.ofNat target, after) =>
        (execute body fuel target after).map fun (visits, word) =>
          (⟨instruction, machine⟩ :: visits, word)
      | _, _ => none

theorem Run.of_execute {body : MethodBody} {fuel offset : Nat} {machine : Machine}
    {visits : List Visit} {word : Word}
    (executed : execute body fuel offset machine = some (visits, word)) :
    Run body offset machine visits word := by
  induction fuel generalizing offset machine visits with
  | zero => cases executed
  | succ fuel ih =>
    unfold execute at executed
    split at executed
    · cases executed
    · rename_i instruction decoded
      split at executed
      · rename_i returned
        cases executed
        exact .ends decoded returned
      · rename_i advanced
        obtain ⟨⟨visits, word⟩, rest, same⟩ := Option.map_eq_some_iff.mp executed
        cases same
        exact .moves decoded advanced (ih rest)
      · cases executed

namespace Visit

/-- The visit is no conditional branch to its own offset or below. -/
def forward (visit : Visit) : Bool :=
  match visit.instruction.operation with
  | .branch _ relative => 0 < relative
  | _ => true

/-- The visit computes without cutting, and the target of its branch lies in the code. -/
def exact (body : MethodBody) (visit : Visit) : Bool :=
  match visit.instruction.operation with
  | .effect effect => visit.machine.uncut effect
  | .branch _ relative =>
    let target := visit.instruction.offset + relative
    0 ≤ target && target < body.size
  | _ => true

def loops (visit : Visit) : Bool :=
  match visit.instruction.operation with
  | .branch test relative =>
    relative ≤ 0 && (visit.machine.test test).any fun outcome => outcome.1
  | _ => false

def switches (visit : Visit) : Bool :=
  match visit.instruction.operation with
  | .switch _ => true
  | _ => false

end Visit

end MethodFlow
