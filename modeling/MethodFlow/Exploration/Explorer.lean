import MethodFlow.Exploration.Step

/-! Exploration of a method body. A branch that needs both outcomes explores the taken one on a path
of its own and then carries on with the other; every path that returns or throws adds its state to
a common list, and the states of that list are joined at the end. All paths share one stack of
return addresses. Paths need not end, so an exploration is given fuel, a bound on the number of
instructions of one path, and running out of it is an outcome of its own. -/
namespace MethodFlow

structure Config where
  limits : Limits
  recordSteps : Bool
  deriving DecidableEq

def Config.default : Config := ⟨⟨none⟩, false⟩

inductive Outcome (ε α : Type)
  | finished (value : α)
  | failed (error : ε)
  | outOfFuel

/-- The state shared by all paths of an exploration; return addresses are innermost first. -/
structure Explorer (W : Type) where
  returns : List Nat
  findings : Findings W

namespace Explorer

variable {W : Type}

def new (config : Config) : Explorer W := ⟨[], .new config.limits config.recordSteps⟩

def update (explorer : Explorer W) (f : Findings W → Findings W) : Explorer W :=
  { explorer with findings := f explorer.findings }

def setForks (explorer : Explorer W) (forks : ForkGuard) : Explorer W :=
  explorer.update fun findings => { findings with forks := forks }

abbrev Run (W : Type) := W → Nat → Explorer W → Outcome EngineError PathEnd × Explorer W

/-- Explores a path under the guard of the fork depth. -/
def forked (run : Run W) : Run W := fun world target explorer =>
  match explorer.findings.forks.enter with
  | .error error => (.failed (.limit error), explorer)
  | .ok forks =>
    let (outcome, explorer) := run world target (explorer.setForks forks)
    (outcome, explorer.setForks explorer.findings.forks.exit)

def fanOut (run : Run W) (world : W) :
    List Nat → Explorer W → Outcome EngineError PathEnd × Explorer W
  | [], explorer => (.finished .switched, explorer)
  | target :: rest, explorer =>
    match forked run world target (explorer.update .switched) with
    | (.finished _, explorer) => fanOut run world rest explorer
    | stopped => stopped

variable [World W]

/-- Explores a path with at most as many instructions as there is fuel. -/
def explore (body : MethodBody) : Nat → Run W
  | 0, _, _, explorer => (.outOfFuel, explorer)
  | fuel + 1, world, offset, explorer =>
    if body.size ≤ offset then (.finished .fellOffEnd, explorer.update .ranOff)
    else
      match body.decode offset with
      | .error error => (.failed (.decode error), explorer)
      | .ok instruction =>
        match instruction.opcode with
        | none => (.finished .unsupported, explorer.update (·.abandoned instruction))
        | some opcode =>
          let explorer := explorer.update (·.visited offset opcode (World.stackDepth world))
          match step body instruction world explorer.returns with
          | .error error => (.failed error, explorer)
          | .ok (.jump world offset returns) =>
            explore body fuel world offset { explorer with returns := returns }
          | .ok (.loop world offset) => explore body fuel world offset (explorer.update .followed)
          | .ok (.fork world target next) =>
            match forked (explore body fuel) world target explorer with
            | (.finished _, explorer) => explore body fuel world next explorer
            | stopped => stopped
          | .ok (.fanOut world targets) => fanOut (explore body fuel) world targets explorer
          | .ok (.finish world) => (.finished .terminal, explorer.update (·.collected world))
          | .ok .abandon => (.finished .unsupported, explorer.update (·.abandoned instruction))

end Explorer

structure Exploration (W : Type) where
  world : Option W
  terminalStates : Nat
  unsupported : List UnsupportedInstruction
  trace : Trace

variable {W : Type} [World W]

def joinTerminals : List W → Except WorldError (Option W)
  | [] => .ok none
  | first :: rest => some <$> rest.foldlM World.combine first

def Explorer.interpret (explorer : Explorer W) (body : MethodBody) (fuel : Nat) (world : W) :
    Outcome EngineError (Exploration W) :=
  match explore body fuel world 0 explorer with
  | (.outOfFuel, _) => .outOfFuel
  | (.failed error, _) => .failed error
  | (.finished _, explorer) =>
    let findings := explorer.findings
    match joinTerminals findings.terminals.toList with
    | .error error => .failed (.world error)
    | .ok joined =>
      .finished
        { world := joined
          terminalStates := findings.terminals.size
          unsupported := findings.unsupported.toList
          trace := findings.recorder.finish findings.forks.metrics }

def interpret (body : MethodBody) (config : Config) (fuel : Nat) (world : W) :
    Outcome EngineError (Exploration W) :=
  (Explorer.new config).interpret body fuel world

inductive AnalysisError
  | fatal (error : EngineError)
  | unsupported (instruction : UnsupportedInstruction)
  | noTerminalState
  deriving DecidableEq

namespace AnalysisError

def message : AnalysisError → String
  | fatal error => error.message
  | unsupported instruction =>
    s!"unsupported instruction `{instruction.mnemonic}` at offset {instruction.offset}"
  | noTerminalState => "no explored path reached a return or throw"

end AnalysisError

/-- The joined terminal state of a method body. It is refused if a path was abandoned, since the
joined state would leave out what that path does. -/
def analyze (body : MethodBody) (config : Config) (fuel : Nat) (world : W) :
    Outcome AnalysisError W :=
  match interpret body config fuel world with
  | .outOfFuel => .outOfFuel
  | .failed error => .failed (.fatal error)
  | .finished exploration =>
    match exploration.unsupported, exploration.world with
    | first :: _, _ => .failed (.unsupported first)
    | [], none => .failed .noTerminalState
    | [], some world => .finished world

end MethodFlow
