import MethodFlow.Kind
import MethodFlow.Sorted.Set
import MethodFlow.Sorted.Map
import MethodFlow.Range.Integer
import MethodFlow.Range.Float
import MethodFlow.Nullness
import MethodFlow.Addresses
import MethodFlow.Concretization
import MethodFlow.Domain
import MethodFlow.Interval.Value
import MethodFlow.Interval.Arithmetic
import MethodFlow.Decimal.Shortest
import MethodFlow.Interval.Text
import MethodFlow.Interval.Domain
import MethodFlow.Laws
import MethodFlow.OperandStack
import MethodFlow.Code.Opcode
import MethodFlow.Code.Error
import MethodFlow.Code.Pool
import MethodFlow.Code.Descriptor
import MethodFlow.Code.Instruction
import MethodFlow.Code.Layout
import MethodFlow.Code.Body
import MethodFlow.Code.Decode
import MethodFlow.Assembly
import MethodFlow.World
import MethodFlow.Frame.Basic
import MethodFlow.Frame.Feasibility
import MethodFlow.Frame.Transition
import MethodFlow.Frame.Join
import MethodFlow.Exploration.ForkGuard
import MethodFlow.Exploration.Trace
import MethodFlow.Exploration.Step
import MethodFlow.Exploration.Explorer
import MethodFlow.Document
import MethodFlow.Document.Bits
import MethodFlow.Interval.Document
import MethodFlow.Code.Names
import MethodFlow.Code.Document
import MethodFlow.Frame.Document
import MethodFlow.Exploration.Document
import MethodFlow.Proofs.Word
import MethodFlow.Proofs.RangeMembers
import MethodFlow.Proofs.RangeArithmetic
import MethodFlow.Proofs.Machine
import MethodFlow.Proofs.Denotation
import MethodFlow.Proofs.DenotedValues
import MethodFlow.Proofs.Outcomes
import MethodFlow.Proofs.SortedContainers
import MethodFlow.Proofs.Simulation
import MethodFlow.Proofs.StackShuffles
import MethodFlow.Proofs.Soundness
import MethodFlow.Proofs.Exactness
import MethodFlow.Proofs.CodeBytes
import MethodFlow.Proofs.JumpFilling
import MethodFlow.Proofs.PoolEntries
import MethodFlow.Proofs.Emission
import MethodFlow.Proofs.Encoding
import MethodFlow.Proofs.Directives
import MethodFlow.Proofs.RoundTrip
import MethodFlow.Proofs.StackSlots
import MethodFlow.Proofs.IntervalOrder
import MethodFlow.Proofs.FrameJoin
import MethodFlow.Proofs.Lockstep
import MethodFlow.Proofs.Reachability
import MethodFlow.Proofs.KindRanges
import MethodFlow.Proofs.JoinCovers
import MethodFlow.Proofs.JoinGrouping
import MethodFlow.Proofs.TerminalJoin
import MethodFlow.Proofs.ValueLattice
import MethodFlow.Proofs.FrameInvariants
import MethodFlow.Proofs.JoinSymmetry
import MethodFlow.Proofs.MethodEntry
import MethodFlow.Proofs.SlotOwnership
import MethodFlow.Proofs.Pruning
import MethodFlow.Proofs.Configuration
import MethodFlow.Proofs.Decoding
import MethodFlow.Proofs.Accounting
import MethodFlow.Proofs.ControlFlow
import MethodFlow.Proofs.SeparateReturns
import MethodFlow.Proofs.RangeMonotone
import MethodFlow.Proofs.BranchOutcomes
import MethodFlow.Proofs.TerminalFailure
import MethodFlow.Proofs.FieldWidths
import MethodFlow.Proofs.TightRanges
import MethodFlow.Proofs.ExtendedCorners
import MethodFlow.Proofs.FloatCorners
import MethodFlow.Proofs.FloatRounding
import MethodFlow.Proofs.FloatEncoding
import MethodFlow.Proofs.DoublePrecision
import MethodFlow.Proofs.DescriptorGrammar
import MethodFlow.Proofs.TableSwitches
import MethodFlow.Proofs.InstructionExtent
import MethodFlow.Proofs.DecodeLocality
import MethodFlow.Proofs.EmptyOperands
import MethodFlow.Proofs.WordConversions
import MethodFlow.Proofs.SetOperations
import MethodFlow.Proofs.PoolSharing
import MethodFlow.Proofs.ForwardCode
import MethodFlow.Proofs.SwitchDispatch
import MethodFlow.Proofs.FirstProblem
