import MethodFlow.Code.Document
import MethodFlow.Exploration.Explorer

/-! Limits, configurations, traces and results of explorations as documents. -/
namespace MethodFlow

open Document (count count? fields? listOf? optional)

namespace Limits

def ofDocument? (document : Document) : Option Limits := do
  let fields ← fields? ["max_fork_depth"] document
  return ⟨← (fields.get "max_fork_depth").optional? count?⟩

def toDocument (limits : Limits) : Document :=
  .record [("max_fork_depth", optional count limits.maxForkDepth)]

end Limits

namespace Config

def ofDocument? (document : Document) : Option Config := do
  let fields ← fields? ["limits", "record_steps"] document
  return {
    limits := ← Limits.ofDocument? (fields.get "limits")
    recordSteps := ← (fields.get "record_steps").bool? }

def toDocument (config : Config) : Document :=
  .record [
    ("limits", config.limits.toDocument),
    ("record_steps", .bool config.recordSteps)]

end Config

namespace ForkMetrics

def ofDocument? (document : Document) : Option ForkMetrics := do
  let fields ← fields? ["forks", "max_fork_depth"] document
  return {
    forks := ← (fields.get "forks").count?
    maxForkDepth := ← (fields.get "max_fork_depth").count? }

def toDocument (metrics : ForkMetrics) : Document :=
  .record [
    ("forks", count metrics.forks),
    ("max_fork_depth", count metrics.maxForkDepth)]

end ForkMetrics

namespace TraceStep

def ofDocument? (document : Document) : Option TraceStep := do
  let fields ← fields? ["offset", "opcode", "stack_depth", "fork_depth"] document
  return {
    offset := ← (fields.get "offset").count?
    opcode := ← Opcode.ofDocument? (fields.get "opcode")
    stackDepth := ← (fields.get "stack_depth").count?
    forkDepth := ← (fields.get "fork_depth").count? }

def toDocument (step : TraceStep) : Document :=
  .record [
    ("offset", count step.offset),
    ("opcode", step.opcode.toDocument),
    ("stack_depth", count step.stackDepth),
    ("fork_depth", count step.forkDepth)]

end TraceStep

namespace TraceMetrics

def fieldNames : List String :=
  ["instructions", "unique_opcodes", "back_edges", "switch_cases", "terminal_states",
    "unsupported_paths", "dead_paths", "forks"]

def ofDocument? (document : Document) : Option TraceMetrics := do
  let fields ← fields? fieldNames document
  return {
    instructions := ← (fields.get "instructions").count?
    uniqueOpcodes := ← (fields.get "unique_opcodes").listOf? Opcode.ofDocument?
    backEdges := ← (fields.get "back_edges").count?
    switchCases := ← (fields.get "switch_cases").count?
    terminalStates := ← (fields.get "terminal_states").count?
    unsupportedPaths := ← (fields.get "unsupported_paths").count?
    deadPaths := ← (fields.get "dead_paths").count?
    forks := ← ForkMetrics.ofDocument? (fields.get "forks") }

def toDocument (metrics : TraceMetrics) : Document :=
  .record [
    ("instructions", count metrics.instructions),
    ("unique_opcodes", .list (metrics.uniqueOpcodes.map Opcode.toDocument)),
    ("back_edges", count metrics.backEdges),
    ("switch_cases", count metrics.switchCases),
    ("terminal_states", count metrics.terminalStates),
    ("unsupported_paths", count metrics.unsupportedPaths),
    ("dead_paths", count metrics.deadPaths),
    ("forks", metrics.forks.toDocument)]

end TraceMetrics

namespace Trace

def ofDocument? (document : Document) : Option Trace := do
  let fields ← fields? ["steps", "coverage", "metrics"] document
  return {
    steps := ← (fields.get "steps").listOf? TraceStep.ofDocument?
    coverage := ← (fields.get "coverage").listOf? count?
    metrics := ← TraceMetrics.ofDocument? (fields.get "metrics") }

def toDocument (trace : Trace) : Document :=
  .record [
    ("steps", .list (trace.steps.map TraceStep.toDocument)),
    ("coverage", .list (trace.coverage.map count)),
    ("metrics", trace.metrics.toDocument)]

end Trace

def UnsupportedInstruction.toDocument (instruction : UnsupportedInstruction) : Document :=
  .record [
    ("byte", count instruction.byte.toNat),
    ("mnemonic", .text instruction.mnemonic),
    ("offset", count instruction.offset)]

def PathEnd.name : PathEnd → String
  | terminal => "Terminal"
  | switched => "Switched"
  | unsupported => "Unsupported"
  | fellOffEnd => "FellOffEnd"

def Exploration.toDocument {W : Type} (world : W → Document) (exploration : Exploration W) :
    Document :=
  .record [
    ("world", optional world exploration.world),
    ("terminal_states", count exploration.terminalStates),
    ("unsupported", .list (exploration.unsupported.map UnsupportedInstruction.toDocument)),
    ("trace", exploration.trace.toDocument)]

end MethodFlow
