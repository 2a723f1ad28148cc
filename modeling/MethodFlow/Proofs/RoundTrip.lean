import Mathlib.Algebra.GroupWithZero.Nat
import MethodFlow.Proofs.Directives

/-! Decoding an assembled body gives back, in order, the operations that its directives stand for.
The induction is on the directives: what one of them lays down is decoded as it was meant, and the
next instruction starts where that code ends. -/
namespace MethodFlow

namespace Assembly

variable {assembly : Assembly} {directive : Directive}

theorem emit_silent (silent : directive.emits = false) (encodable : directive.Encodable) :
    Lays assembly (assembly.emit directive) [] := by
  cases directive with
  | label => exact .nothing rfl rfl rfl
  | bind label =>
    simp only [emit]
    split
    · exact .nothing rfl rfl rfl
    · exact .nothing rfl rfl rfl
  | intern => cases encodable
  | _ => cases silent

/-- The directives that stand for an instruction, each with the offset at which it is given. -/
def emissions (assembly : Assembly) : List Directive → List (Nat × Directive)
  | [] => []
  | directive :: rest =>
    if directive.emits then
      (assembly.code.size, directive) :: (assembly.emit directive).emissions rest
    else (assembly.emit directive).emissions rest

end Assembly

/-- The instruction starts where the directive was given, and does what it stands for. -/
def Carries (directives : List Directive) (emission : Nat × Directive)
    (instruction : Instruction) : Prop :=
  instruction.offset = emission.1 ∧
    emission.2.Means directives emission.1 instruction.operation

/-- The code from an offset to its end, listed as instructions that carry the given emissions. -/
def Lists (directives : List Directive) (body : MethodBody) (offset : Nat)
    (emissions : List (Nat × Directive)) : Prop :=
  ∀ fuel, body.size ≤ offset + fuel →
    ∃ instructions, body.listingFrom offset fuel = instructions.map .ok ∧
      offset + (instructions.map Instruction.length).sum = body.size ∧
      List.Forall₂ (Carries directives) emissions instructions

theorem Lists.nil {directives : List Directive} {body : MethodBody} :
    Lists directives body body.size [] := by
  intro fuel _
  refine ⟨[], ?_, by simp, .nil⟩
  cases fuel with
  | zero => rfl
  | succ fuel => simp [MethodBody.listingFrom]

theorem Lists.cons {directives : List Directive} {body : MethodBody} {offset : Nat}
    {instruction : Instruction} {emission : Nat × Directive} {emissions : List (Nat × Directive)}
    (decoded : body.decode offset = .ok instruction)
    (carries : Carries directives emission instruction) (positive : 0 < instruction.length)
    (inside : offset < body.size)
    (others : Lists directives body (offset + instruction.length) emissions) :
    Lists directives body offset (emission :: emissions) := by
  intro fuel enough
  obtain ⟨fuel, rfl⟩ : ∃ less, fuel = less + 1 := ⟨fuel - 1, by omega⟩
  obtain ⟨instructions, listed, total, carried⟩ := others fuel (by omega)
  refine ⟨instruction :: instructions, ?_, ?_, .cons carries carried⟩
  · rw [MethodBody.listingFrom, if_neg (by omega), decoded]
    simp only [listed, List.map_cons]
  · rw [List.map_cons, List.sum_cons, ← total]
    omega

/-- What the directives lay down is listed as the instructions that they stand for, if all distances
fit in 32 bits. -/
theorem lays_lists (all : List Directive) {directives : List Directive} {assembly : Assembly}
    (encodable : ∀ directive ∈ directives, directive.Encodable)
    (accepted : (directives.foldl Assembly.emit assembly).error = none) :
    ∃ pieces, Lays assembly (directives.foldl Assembly.emit assembly) pieces ∧
      ∀ (body : MethodBody) (bytes : List UInt8), Fills all pieces bytes →
        body.Holds assembly.code.size bytes → body.size = assembly.code.size + bytes.length →
        (∀ origin ≤ body.size,
          Readable all origin (directives.foldl Assembly.emit assembly).pool body) →
        Lists all body assembly.code.size (assembly.emissions directives) := by
  induction directives generalizing assembly with
  | nil =>
    refine ⟨[], .nothing rfl rfl rfl, ?_⟩
    intro body bytes filled _ size _
    cases filled
    rw [List.length_nil, Nat.add_zero] at size
    rw [← size]
    exact Lists.nil
  | cons directive rest ih =>
    rw [List.forall_mem_cons] at encodable
    have valid : (assembly.emit directive).error = none :=
      @Assembly.error_of_foldl _ rest accepted
    obtain ⟨pieces, laid, listed⟩ := ih encodable.2 accepted
    cases emitting : directive.emits with
    | false =>
      have silent : Lays assembly (assembly.emit directive) [] :=
        Assembly.emit_silent emitting encodable.1
      refine ⟨pieces, silent.trans laid, ?_⟩
      have same : (assembly.emit directive).code.size = assembly.code.size := silent.size
      simpa [Assembly.emissions, emitting, same] using listed
    | true =>
      obtain ⟨opcode, operands, emitted, read⟩ := encoded_emit all emitting encodable.1 valid
      refine ⟨_, emitted.toLays.trans laid, ?_⟩
      intro body bytes filled held size readable
      -- The first instruction is decoded from its own bytes, and the rest starts behind them.
      obtain ⟨first, others, rfl, filledFirst, filledOthers⟩ := Fills.append filled
      have moved : (assembly.emit directive).code.size = assembly.code.size + first.length := by
        rw [filledFirst.length]
        exact emitted.size
      obtain ⟨heldFirst, heldOthers⟩ := MethodBody.holds_append.mp held
      rw [← moved] at heldOthers
      cases filledFirst with
      | byte filledOperands =>
        rw [List.length_append, List.length_cons] at size
        have inside : assembly.code.size < body.size := by omega
        have here := readable assembly.code.size (Nat.le_of_lt inside)
        obtain ⟨operation, decoded, meant⟩ :=
          read body _ filledOperands heldFirst.2 { here with pool := laid.pool.trans here.pool }
        have remaining : body.size = (assembly.emit directive).code.size + others.length := by
          rw [moved, List.length_cons]
          omega
        have further := listed body others filledOthers heldOthers remaining readable
        rw [moved] at further
        rw [Assembly.emissions, if_pos emitting]
        exact Lists.cons (heldFirst.decode decoded) ⟨rfl, meant⟩ (Nat.succ_pos _) inside further

/-- Decoding an assembled body that is shorter than 2^31 bytes gives back what was assembled. Each
directive that stands for an instruction has one, at the offset at which the directive was given,
and the instructions take up the code from its start to its end. -/
theorem listing_assemble {directives : List Directive} {body : MethodBody}
    (assembled : assemble directives = .ok body)
    (encodable : ∀ directive ∈ directives, directive.Encodable)
    (small : body.pool.size ≤ 65535) (short : body.size < 2147483648) :
    ∃ instructions, body.listing = instructions.map .ok ∧
      (instructions.map Instruction.length).sum = body.size ∧
      List.Forall₂ (Carries directives) (Assembly.empty.emissions directives) instructions := by
  have accepted := error_of_assemble assembled
  obtain ⟨pieces, laid, listed⟩ := lays_lists directives encodable accepted
  obtain ⟨pool, bytes, filled, code⟩ := finish_fills assembled laid
  have alone : body.code.toList = [] ++ bytes ++ [] := by simpa using code
  have held : body.Holds 0 bytes := MethodBody.holds_of_eq_append alone
  have size : body.size = 0 + bytes.length := by
    rw [Nat.zero_add, ← code]
    rfl
  have whole : (Assembly.run directives).code.size = body.size := by
    rw [size, filled.length]
    exact laid.size
  have readable : ∀ origin ≤ body.size,
      Readable directives origin (Assembly.run directives).pool body := by
    intro origin inside
    refine ⟨pool ▸ .refl _, small, short, fun label target bound => ?_⟩
    have limit := bound.target_le
    omega
  obtain ⟨instructions, listing, total, carried⟩ :=
    listed body bytes filled held size readable body.size (Nat.le_add_left ..)
  exact ⟨instructions, listing, (Nat.zero_add _).symm.trans total, carried⟩

/-- A loop that is left through a switch on a local, with cases out of order and a key given twice,
and ends in a call of an interface. -/
def dispatchDirectives : List Directive :=
  [.label, .label, .bind 0, .localAccess .iload 300, .lookupswitch 1 [(7, 1), (-2, 0), (7, 0)],
    .bind 1, .ldc (.long 5), .invoke .invokeinterface ⟨"Clock", "at", "(J)I"⟩, .op .ireturn]

def dispatchBody : MethodBody where
  code := #[196, 21, 1, 44, 171, 0, 0, 0, 0, 0, 0, 36, 0, 0, 0, 3, 255, 255, 255, 254, 255, 255,
    255, 252, 0, 0, 0, 7, 0, 0, 0, 36, 0, 0, 0, 7, 255, 255, 255, 252, 20, 0, 1, 185, 0, 3, 3, 0,
    172]
  pool := ⟨#[.constant (.long 5), .unusable, .interfaceMethodRef ⟨"Clock", "at", "(J)I"⟩]⟩

theorem sorted_dispatch : ([(7, 1), (-2, 0), (7, 0)] : List (Int × Nat)).mergeSort
    (fun left right => left.1 ≤ right.1) = [(-2, 0), (7, 1), (7, 0)] := by
  simp [List.mergeSort, List.MergeSort.Internal.splitInTwo]

theorem assemble_dispatch : assemble dispatchDirectives = .ok dispatchBody := by
  have keys : [((7 : Int32), 1), (-2, 0), (7, 0)].map (fun case => (case.1.toInt, case.2)) =
      [(7, 1), (-2, 0), (7, 0)] := rfl
  simp only [assemble, dispatchDirectives, Assembly.run, List.foldl, Assembly.emit,
    Assembly.lookupswitch]
  rw [keys, sorted_dispatch]
  with_unfolding_all rfl

theorem encodable_dispatch : ∀ directive ∈ dispatchDirectives, directive.Encodable := by
  have parsed : MethodDescriptor.parse "(J)I" = .ok ⟨[.long], some .int⟩ := by
    with_unfolding_all rfl
  have returns : Opcode.ireturn.layout = .plain (.terminate (.value .int)) := rfl
  simp [dispatchDirectives, Directive.Encodable, returns, parsed]

theorem listing_assemble_dispatch :
    assemble dispatchDirectives = .ok dispatchBody ∧
      (∀ directive ∈ dispatchDirectives, directive.Encodable) ∧ dispatchBody.pool.size ≤ 65535 ∧
      dispatchBody.size < 2147483648 ∧
      ∃ instructions, dispatchBody.listing = instructions.map .ok ∧
        (instructions.map Instruction.length).sum = dispatchBody.size ∧
        List.Forall₂ (Carries dispatchDirectives) (Assembly.empty.emissions dispatchDirectives)
          instructions :=
  ⟨assemble_dispatch, encodable_dispatch, by decide, by decide,
    listing_assemble assemble_dispatch encodable_dispatch (by decide) (by decide)⟩

/-- A wide jump over so many instructions that do nothing. -/
def leap (count : Nat) : List Directive :=
  .label :: .branch .gotoW 0 :: (List.replicate count (.op .nop) ++ [.bind 0])

theorem foldl_nops (assembly : Assembly) (count : Nat) :
    (List.replicate count (Directive.op .nop)).foldl Assembly.emit assembly =
      assembly.append (List.replicate count 0) := by
  induction count generalizing assembly with
  | zero => simp [Assembly.append]
  | succ count ih =>
    have first : assembly.emit (.op .nop) = assembly.append [0] := rfl
    rw [List.replicate_succ, List.foldl_cons, first, ih]
    simp [Assembly.append, List.replicate_succ]

def leapCode (operand : List UInt8) (count : Nat) : List UInt8 :=
  [Opcode.gotoW.byte] ++ operand ++ List.replicate count 0

theorem run_leap (count : Nat) :
    Assembly.run (leap count) =
      ⟨(leapCode [0, 0, 0, 0] count).toArray, .empty, #[some (count + 5)], #[⟨0, 1, 0, true⟩],
        none⟩ := by
  have start : Assembly.run [.label, .branch .gotoW 0] =
      ⟨#[200, 0, 0, 0, 0], .empty, #[none], #[⟨0, 1, 0, true⟩], none⟩ := rfl
  have split : leap count =
      [.label, .branch .gotoW 0] ++ (List.replicate count (.op .nop) ++ [.bind 0]) := rfl
  rw [split, Assembly.run, List.foldl_append, List.foldl_append, foldl_nops]
  change ((Assembly.run [.label, .branch .gotoW 0]).append _).emit (.bind 0) = _
  rw [start]
  have byte : Opcode.gotoW.byte = 200 := rfl
  have size : count + 1 + 1 + 1 + 1 + 1 = count + 5 := by omega
  simp [Assembly.append, Assembly.emit, leapCode, byte, size]

theorem assemble_leap (count : Nat) :
    assemble (leap count) = .ok ⟨(leapCode (bytes32 (count + 5 : Nat)) count).toArray, .empty⟩ := by
  have filled : Assembly.overwrite (leapCode [0, 0, 0, 0] count).toArray 1
      (bytes32 (count + 5 : Nat)) = (leapCode (bytes32 (count + 5 : Nat)) count).toArray :=
    Assembly.overwrite_blank [Opcode.gotoW.byte] [0, 0, 0, 0] _ _ rfl
  have resolved : Assembly.resolve #[some (count + 5)] (leapCode [0, 0, 0, 0] count).toArray
      ⟨0, 1, 0, true⟩ = .ok (leapCode (bytes32 (count + 5 : Nat)) count).toArray := by
    rw [← filled]
    simp [Assembly.resolve]
  simp only [assemble, run_leap, Assembly.finish, List.foldlM_toArray, List.foldlM_cons,
    List.foldlM_nil, resolved]
  rfl

theorem decode_leap (count : Nat) :
    MethodBody.decode ⟨(leapCode (bytes32 (count + 5 : Nat)) count).toArray, .empty⟩ 0 =
      .ok ⟨0, 200, some .gotoW, 5, .goto (Int.bmod (count + 5 : Nat) 4294967296)⟩ := by
  let body : MethodBody := ⟨(leapCode (bytes32 (count + 5 : Nat)) count).toArray, .empty⟩
  have code : body.code.toList = [] ++ leapCode (bytes32 (count + 5 : Nat)) count ++ [] := by
    simp [body]
  have held : body.Holds 0 (Opcode.gotoW.byte ::
      (bytes32 (count + 5 : Nat) ++ List.replicate count 0)) := MethodBody.holds_of_eq_append code
  have operand : body.i32At 1 = _ := MethodBody.Holds.i32At held.2
  have layout : Opcode.gotoW.layout = .gotoWide := rfl
  refine held.decode ?_
  simp only [layout, MethodBody.operationAt, Nat.zero_add, operand]
  rfl

theorem encodable_leap (count : Nat) : ∀ directive ∈ leap count, directive.Encodable := by
  intro directive given
  simp only [leap, List.mem_cons, List.mem_append, List.mem_replicate, List.not_mem_nil,
    or_false] at given
  rcases given with rfl | rfl | ⟨_, rfl⟩ | rfl <;> trivial

/-- A jump over 2^31 instructions is cut to 32 bits without a complaint. Nor is there one if a table
without keys starts at the least int, and then it is read past its end. -/
theorem assembled_misread :
    (∃ body, assemble (leap 2147483648) = .ok body ∧
      (∀ directive ∈ leap 2147483648, directive.Encodable) ∧ body.pool.size ≤ 65535 ∧
      BoundAt (leap 2147483648) 0 2147483653 ∧
      body.decode 0 = .ok ⟨0, 200, some .gotoW, 5, .goto (-2147483643)⟩) ∧
    ∃ body, body.decode 0 = .error (.truncated 17) ∧
      assemble [.label, .bind 0, .tableswitch (-2147483648) 0 [], .op .returnVoid] = .ok body := by
  constructor
  · have bound : BoundAt (leap 2147483648) 0 (2147483648 + 5) := by
      apply Assembly.boundAt_of_labels
      rw [run_leap]
      rfl
    exact ⟨_, assemble_leap _, encodable_leap _, Nat.zero_le _, bound, decode_leap _⟩
  · refine ⟨_, ?_, rfl⟩
    rfl

end MethodFlow
