import MethodFlow.Code.Decode
import MethodFlow.Exploration.Trace
import MethodFlow.World

/-! One step of a path: an instruction is decoded and handed to the machine state, and control moves
on, forks or ends. The return addresses of open subroutines are given to the step and handed back by
it; who keeps them between steps is not decided here. -/
namespace MethodFlow

inductive EngineError
  | world (error : WorldError)
  | decode (error : DecodeError)
  | limit (error : LimitError)
  | retWithoutJsr (offset : Nat)
  deriving DecidableEq

namespace EngineError

def message : EngineError → String
  | world error => error.message
  | decode error => error.message
  | limit error => error.message
  | retWithoutJsr offset => s!"ret at offset {offset} has no pending jsr"

def isStackError : EngineError → Bool
  | world (.stack _) | world (.stackShape _ _) | retWithoutJsr _ => true
  | _ => false

def isValueError : EngineError → Bool
  | world (.value _) => true
  | _ => false

end EngineError

inductive PathEnd
  | terminal
  /-- A switch handed every continuation to paths of their own. -/
  | switched
  | unsupported
  | fellOffEnd
  deriving DecidableEq

structure UnsupportedInstruction where
  offset : Nat
  byte : UInt8
  mnemonic : String
  deriving DecidableEq

structure Findings (W : Type) where
  terminals : Array W
  unsupported : Array UnsupportedInstruction
  forks : ForkGuard
  recorder : Recorder

namespace Findings

variable {W : Type}

def new (limits : Limits) (recordSteps : Bool) : Findings W :=
  ⟨#[], #[], .new limits, .new recordSteps⟩

def visited (findings : Findings W) (offset : Nat) (opcode : Opcode) (stackDepth : Nat) :
    Findings W :=
  { findings with
    recorder := findings.recorder.instruction ⟨offset, opcode, stackDepth, findings.forks.depth⟩ }

def followed (findings : Findings W) : Findings W :=
  { findings with recorder := findings.recorder.backEdge }

def switched (findings : Findings W) : Findings W :=
  { findings with recorder := findings.recorder.switchCase }

def collected (findings : Findings W) (world : W) : Findings W :=
  { findings with
    terminals := findings.terminals.push world
    recorder := findings.recorder.terminal }

def abandoned (findings : Findings W) (instruction : Instruction) : Findings W :=
  { findings with
    unsupported := findings.unsupported.push
      ⟨instruction.offset, instruction.byte, instruction.mnemonic⟩
    recorder := findings.recorder.unsupported }

def ranOff (findings : Findings W) : Findings W :=
  { findings with recorder := findings.recorder.deadPath }

end Findings

inductive Move (W : Type)
  /-- On to an offset, with the return addresses of the open subroutines, innermost first. -/
  | jump (world : W) (offset : Nat) (returns : List Nat)
  | loop (world : W) (offset : Nat)
  | fork (world : W) (target next : Nat)
  | fanOut (world : W) (targets : List Nat)
  | finish (world : W)
  | abandon

def jumpTarget (body : MethodBody) (offset : Nat) (relative : Int) : Except EngineError Nat :=
  let target := offset + relative
  if 0 ≤ target && target < body.size then .ok target.toNat
  else .error (.decode (.branchTarget offset target))

def after {W : Type} (transition : Transition W Unit) (world : W) : Except EngineError W :=
  match transition.run world with
  | .ok _ world => .ok world
  | .error error _ => .error (.world error)

variable {W : Type} [World W]

/-- A backward branch is followed if falling through is impossible, or if both outcomes are
possible and looping is allowed. -/
def loopEdge (world : W) (target next : Nat) (returns : List Nat) : Move W :=
  if World.takenFeasible world && (!World.passedFeasible world || World.loopingValid world) then
    .loop world target
  else .jump world next returns

/-- A forward branch forks if every outcome has to be explored. -/
def forwardBranch (world : W) (target next : Nat) (returns : List Nat) : Move W :=
  if World.allBranches world then .fork world target next
  else .jump world (if World.shouldTake world then target else next) returns

/-- The targets of a switch in ascending order: all of them, or those of the candidates. -/
def switchTargets (body : MethodBody) (offset : Nat) (table : SwitchTable) (world : W) :
    Except EngineError (List Nat) := do
  let relatives :=
    if World.allBranches world then table.cases.map Prod.snd ++ [table.default]
    else (World.switchCandidates world).map table.offsetFor
  let targets ← relatives.mapM (jumpTarget body offset)
  return (SortedSet.ofList targets).toList

def step (body : MethodBody) (instruction : Instruction) (world : W) (returns : List Nat) :
    Except EngineError (Move W) := do
  let offset := instruction.offset
  let next := offset + instruction.length
  match instruction.operation with
  | .nop => return .jump world next returns
  | .effect effect => return .jump (← after (World.perform effect) world) next returns
  | .goto relative => return .jump world (← jumpTarget body offset relative) returns
  | .jsr relative =>
    let entry ← jumpTarget body offset relative
    let world ← after (World.enterSubroutine next) world
    return .jump world entry (next :: returns)
  | .ret index =>
    let world ← after (World.exitSubroutine index) world
    match returns with
    | [] => throw (.retWithoutJsr offset)
    | back :: rest => return .jump world back rest
  | .branch test relative =>
    let target ← jumpTarget body offset relative
    let world ← after (World.evaluateBranch test) world
    if relative ≤ 0 then return loopEdge world target next returns
    else return forwardBranch world target next returns
  | .switch table =>
    let world ← after World.evaluateSwitch world
    return .fanOut world (← switchTargets body offset table world)
  | .terminate terminal => return .finish (← after (World.terminate terminal) world)
  | .unsupported => return .abandon

end MethodFlow
