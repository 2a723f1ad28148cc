import MethodFlow.Proofs.Encoding

/-! What a directive can do to an assembly, said once: it makes a label, binds one, fails, or lays
down pieces of code and leaves labels and failures alone. Whatever the directives are, a finished
body is the row of their pieces with the holes filled in. -/
namespace MethodFlow

def tablePieces (origin : Nat) (low : Int) (default : Nat) (targets : List Nat) : List Piece :=
  .byte Opcode.tableswitch.byte ::
    ((List.replicate (switchOperandsStart origin - (origin + 1)) 0).map .byte ++
      .hole origin default true ::
        ((bytes32 low ++ bytes32 (Assembly.tableHigh low targets.length)).map .byte ++
          targets.flatMap fun goal => [.hole origin goal true]))

def lookupPieces (origin default : Nat) (cases : List (Int × Nat)) : List Piece :=
  .byte Opcode.lookupswitch.byte ::
    ((List.replicate (switchOperandsStart origin - (origin + 1)) 0).map .byte ++
      .hole origin default true ::
        ((bytes32 cases.length).map .byte ++
          cases.flatMap fun case => (bytes32 case.1).map .byte ++ [.hole origin case.2 true]))

namespace Emits

theorem tableswitch (assembly : Assembly) (low : Int) (default : Nat) (targets : List Nat) :
    Emits assembly (assembly.tableswitch low default targets)
      (tablePieces assembly.code.size low default targets) := by
  have head := ((append assembly _).trans (jump _ assembly.code.size default true)).trans
    (append ((assembly.openSwitch .tableswitch).jump assembly.code.size default true)
      (bytes32 low ++ bytes32 (Assembly.tableHigh low targets.length)))
  have whole := head.trans
    (foldl (fun current goal => jump current assembly.code.size goal true) _ targets)
  rw [List.append_assoc, List.append_assoc] at whole
  exact whole

theorem lookupswitch (assembly : Assembly) (default : Nat) (cases : List (Int × Nat)) :
    Emits assembly (assembly.lookupswitch default cases)
      (lookupPieces assembly.code.size default (cases.mergeSort fun a b => a.1 ≤ b.1)) := by
  have head := ((append assembly _).trans (jump _ assembly.code.size default true)).trans
    (append ((assembly.openSwitch .lookupswitch).jump assembly.code.size default true)
      (bytes32 (cases.mergeSort fun a b => a.1 ≤ b.1).length))
  have each (current : Assembly) (case : Int × Nat) :=
    (append current (bytes32 case.1)).trans (jump _ assembly.code.size case.2 true)
  have whole := head.trans (foldl each _ (cases.mergeSort fun a b => a.1 ≤ b.1))
  rw [List.append_assoc, List.append_assoc] at whole
  exact whole

end Emits

/-! ## Refused directives -/

namespace Opcode

def localAccesses : List Opcode :=
  [iload, lload, fload, dload, aload, istore, lstore, fstore, dstore, astore, ret]

def narrowJumps : List Opcode :=
  [ifeq, ifne, iflt, ifge, ifgt, ifle, ifIcmpeq, ifIcmpne, ifIcmplt, ifIcmpge, ifIcmpgt, ifIcmple,
    ifAcmpeq, ifAcmpne, goto, jsr, ifnull, ifnonnull]

def wideJumps : List Opcode := [gotoW, jsrW]

def fieldAccesses : List Opcode := [getstatic, putstatic, getfield, putfield]

def calls : List Opcode := [invokevirtual, invokespecial, invokestatic, invokeinterface]

def classOperations : List Opcode := [new, anewarray, checkcast, instanceof]

end Opcode

def elementKinds : List Kind := [.boolean, .char, .float, .double, .byte, .short, .int, .long]

/-- The directive is refused with the error, if the given labels are bound already. -/
inductive Directive.Refused (bound : Nat → Prop) : Directive → AssembleError → Prop
  | bind {label : Nat} (again : bound label) : Refused bound (.bind label) (.rebound label)
  | localAccess {opcode : Opcode} {index : UInt16} (other : opcode ∉ Opcode.localAccesses) :
      Refused bound (.localAccess opcode index) (.wrongEmitter opcode "local")
  | branch {opcode : Opcode} {label : Nat}
      (other : opcode ∉ Opcode.narrowJumps ++ Opcode.wideJumps) :
      Refused bound (.branch opcode label) (.wrongEmitter opcode "branch")
  | field {opcode : Opcode} {member : MemberRef} (other : opcode ∉ Opcode.fieldAccesses) :
      Refused bound (.field opcode member) (.wrongEmitter opcode "field")
  | invoke {opcode : Opcode} {member : MemberRef} (other : opcode ∉ Opcode.calls) :
      Refused bound (.invoke opcode member) (.wrongEmitter opcode "invoke")
  | descriptor {member : MemberRef} {error : DecodeError}
      (malformed : MethodDescriptor.parse member.descriptor = .error error) :
      Refused bound (.invoke .invokeinterface member) (.descriptor error)
  | classOp {opcode : Opcode} {className : String} (other : opcode ∉ Opcode.classOperations) :
      Refused bound (.classOp opcode className) (.wrongEmitter opcode "class_op")
  | newarray {element : Kind} (uncoded : element ∉ elementKinds) :
      Refused bound (.newarray element) (.arrayKind element)

namespace Directive

variable {bound : Nat → Prop} {opcode : Opcode} {error : AssembleError}

theorem refused_localAccess_iff {index : UInt16} :
    (localAccess opcode index).Refused bound error ↔
      opcode ∉ Opcode.localAccesses ∧ error = .wrongEmitter opcode "local" := by
  constructor
  · intro refused
    cases refused with
    | localAccess other => exact ⟨other, rfl⟩
  · rintro ⟨other, rfl⟩
    exact .localAccess other

theorem refused_field_iff {member : MemberRef} :
    (field opcode member).Refused bound error ↔
      opcode ∉ Opcode.fieldAccesses ∧ error = .wrongEmitter opcode "field" := by
  constructor
  · intro refused
    cases refused with
    | field other => exact ⟨other, rfl⟩
  · rintro ⟨other, rfl⟩
    exact .field other

theorem refused_classOp_iff {className : String} :
    (classOp opcode className).Refused bound error ↔
      opcode ∉ Opcode.classOperations ∧ error = .wrongEmitter opcode "class_op" := by
  constructor
  · intro refused
    cases refused with
    | classOp other => exact ⟨other, rfl⟩
  · rintro ⟨other, rfl⟩
    exact .classOp other

theorem refused_invoke_iff {member : MemberRef} (other : opcode ≠ .invokeinterface) :
    (invoke opcode member).Refused bound error ↔
      opcode ∉ Opcode.calls ∧ error = .wrongEmitter opcode "invoke" := by
  constructor
  · intro refused
    cases refused with
    | invoke untaken => exact ⟨untaken, rfl⟩
    | descriptor => exact absurd rfl other
  · rintro ⟨untaken, rfl⟩
    exact .invoke untaken

end Directive

/-! ## Open jumps -/

structure OpenJump where
  origin : Nat
  label : Nat
  wide : Bool

def Fixup.openJump (fixup : Fixup) : OpenJump := ⟨fixup.origin, fixup.label, fixup.wide⟩

namespace Piece

def openJump? : Piece → Option OpenJump
  | byte _ => none
  | hole origin label wide => some ⟨origin, label, wide⟩

@[simp] theorem openJump?_bytes (bytes : List UInt8) :
    (bytes.map byte).filterMap openJump? = [] := by
  simp [openJump?]

theorem openJump_fixups (site : Nat) (pieces : List Piece) :
    (fixups site pieces).map Fixup.openJump = pieces.filterMap openJump? := by
  induction pieces generalizing site with
  | nil => rfl
  | cons piece rest ih =>
    cases piece with
    | byte value => exact ih (site + 1)
    | hole origin label wide => exact congrArg _ (ih _)

end Piece

/-- The jumps that a directive leaves open if it is given at the origin, in the order of their
operands. The cases of a lookup switch stand in the order of their keys. -/
def Directive.openJumps (origin : Nat) : Directive → List OpenJump
  | .branch opcode goal =>
    if opcode ∈ Opcode.narrowJumps then [⟨origin, goal, false⟩]
    else if opcode ∈ Opcode.wideJumps then [⟨origin, goal, true⟩]
    else []
  | .tableswitch _ default targets => (default :: targets).map fun goal => ⟨origin, goal, true⟩
  | .lookupswitch default cases =>
    (default :: (cases.mergeSort fun left right => left.1.toInt ≤ right.1.toInt).map Prod.snd).map
      fun goal => ⟨origin, goal, true⟩
  | _ => []

theorem openJumps_tablePieces (origin : Nat) (low : Int) (default : Nat) (targets : List Nat) :
    (tablePieces origin low default targets).filterMap Piece.openJump? =
      (default :: targets).map fun goal => ⟨origin, goal, true⟩ := by
  have holes : (targets.flatMap fun goal => [Piece.hole origin goal true]).filterMap
      Piece.openJump? = targets.map fun goal => ⟨origin, goal, true⟩ := by
    induction targets with
    | nil => rfl
    | cons goal rest ih => exact congrArg _ ih
  simp only [tablePieces, List.filterMap_cons, List.filterMap_append, Piece.openJump?_bytes,
    Piece.openJump?, holes, List.nil_append, List.map_cons]

theorem openJumps_lookupPieces (origin default : Nat) (cases : List (Int × Nat)) :
    (lookupPieces origin default cases).filterMap Piece.openJump? =
      (default :: cases.map Prod.snd).map fun goal => ⟨origin, goal, true⟩ := by
  have holes : (cases.flatMap fun case =>
      (bytes32 case.1).map Piece.byte ++ [.hole origin case.2 true]).filterMap Piece.openJump? =
        (cases.map Prod.snd).map fun goal => ⟨origin, goal, true⟩ := by
    induction cases with
    | nil => rfl
    | cons case rest ih =>
      rw [List.flatMap_cons, List.filterMap_append, List.filterMap_append,
        Piece.openJump?_bytes, ih]
      rfl
  simp only [lookupPieces, List.filterMap_cons, List.filterMap_append, Piece.openJump?_bytes,
    Piece.openJump?, holes, List.nil_append, List.map_cons]

/-! ## What a directive does -/

namespace Assembly

variable {assembly : Assembly} {directive : Directive}

def Known (assembly : Assembly) (label : Nat) : Prop :=
  ∃ target, assembly.labels[label]? = some (some target)

/-- The assembly after a directive, by what the directive did. -/
inductive Emitted (assembly : Assembly) (directive : Directive) : Assembly → Prop
  | label (made : directive = .label) :
      Emitted assembly directive { assembly with labels := assembly.labels.push none }
  | bind {label : Nat} (bound : directive = .bind label) (free : ¬assembly.Known label) :
      Emitted assembly directive
        { assembly with labels := assembly.labels.setIfInBounds label (some assembly.code.size) }
  | fail {error : AssembleError} (refused : directive.Refused assembly.Known error)
      (none : directive.openJumps assembly.code.size = []) :
      Emitted assembly directive (assembly.fail error)
  | lay {after : Assembly} {pieces : List Piece} (emitted : Emits assembly after pieces)
      (accepted : ∀ error, ¬directive.Refused assembly.Known error)
      (holes : pieces.filterMap Piece.openJump? = directive.openJumps assembly.code.size) :
      Emitted assembly directive after

theorem Emitted.bytes {after : Assembly} {bytes : List UInt8}
    (emitted : Emits assembly after (bytes.map .byte))
    (accepted : ∀ error, ¬directive.Refused assembly.Known error)
    (none : directive.openJumps assembly.code.size = []) : Emitted assembly directive after :=
  .lay emitted accepted ((Piece.openJump?_bytes bytes).trans none.symm)

/-! Emitters ask for the layout of the opcode. The layouts they take are those of a few opcodes. -/

theorem emit_localAccess (assembly : Assembly) (opcode : Opcode) (index : UInt16) :
    assembly.emit (.localAccess opcode index) =
      if opcode ∈ Opcode.localAccesses then assembly.localAccess opcode index.toNat
      else assembly.fail (.wrongEmitter opcode "local") := by
  cases opcode <;> rfl

theorem emit_branch (assembly : Assembly) (opcode : Opcode) (label : Nat) :
    assembly.emit (.branch opcode label) =
      if opcode ∈ Opcode.narrowJumps then
        (assembly.append [opcode.byte]).jump assembly.code.size label false
      else if opcode ∈ Opcode.wideJumps then
        (assembly.append [opcode.byte]).jump assembly.code.size label true
      else assembly.fail (.wrongEmitter opcode "branch") := by
  cases opcode <;> rfl

theorem emit_field (assembly : Assembly) (opcode : Opcode) (member : MemberRef) :
    assembly.emit (.field opcode member) =
      if opcode ∈ Opcode.fieldAccesses then assembly.indexed opcode (.fieldRef member)
      else assembly.fail (.wrongEmitter opcode "field") := by
  cases opcode <;> rfl

theorem emit_invoke (assembly : Assembly) (opcode : Opcode) (member : MemberRef) :
    assembly.emit (.invoke opcode member) =
      if opcode = .invokeinterface then
        match MethodDescriptor.parse member.descriptor with
        | .error error => assembly.fail (.descriptor error)
        | .ok descriptor =>
          (assembly.indexed opcode (.interfaceMethodRef member)).append
            [UInt8.ofNat (descriptor.parameterSlots + 1), 0]
      else if opcode ∈ Opcode.calls then assembly.indexed opcode (.methodRef member)
      else assembly.fail (.wrongEmitter opcode "invoke") := by
  cases opcode <;> rfl

theorem emit_classOp (assembly : Assembly) (opcode : Opcode) (className : String) :
    assembly.emit (.classOp opcode className) =
      if opcode ∈ Opcode.classOperations then
        assembly.indexed opcode (.constant (.classRef className))
      else assembly.fail (.wrongEmitter opcode "class_op") := by
  cases opcode <;> rfl

theorem elementCode?_eq_none_iff (element : Kind) :
    elementCode? element = none ↔ element ∉ elementKinds := by
  cases element with
  | integral kind => cases kind <;> decide
  | floating kind => cases kind <;> decide
  | reference | returnAddress => decide

/-! The emitters that can refuse. One that does so for its opcode alone is guarded. -/

/-- A guarded directive lays down bytes or fails, and it is refused in no other way. -/
theorem Emitted.guarded {taken : Prop} [Decidable taken] {laid : Assembly} {bytes : List UInt8}
    {error : AssembleError} (emitted : Emits assembly laid (bytes.map .byte))
    (refused_iff : ∀ other, directive.Refused assembly.Known other ↔ ¬taken ∧ other = error)
    (none : directive.openJumps assembly.code.size = []) :
    Emitted assembly directive (if taken then laid else assembly.fail error) := by
  split
  · rename_i holds
    exact .bytes emitted (fun other refused => ((refused_iff other).mp refused).1 holds) none
  · rename_i fails
    exact .fail ((refused_iff error).mpr ⟨fails, rfl⟩) none

theorem emitted_bind (assembly : Assembly) (label : Nat) :
    Emitted assembly (.bind label) (assembly.emit (.bind label)) := by
  simp only [emit]
  split
  · rename_i target known
    exact .fail (.bind ⟨target, known⟩) rfl
  · rename_i free
    refine .bind rfl ?_
    rintro ⟨target, known⟩
    exact free target known

theorem emitted_int (assembly : Assembly) (value : Int32) :
    Emitted assembly (.int value) (assembly.emit (.int value)) := by
  simp only [emit, int]
  split
  · exact .bytes (Emits.append ..) (by rintro _ ⟨⟩) rfl
  split
  · exact .bytes (Emits.append ..) (by rintro _ ⟨⟩) rfl
  split
  · exact .bytes (Emits.append ..) (by rintro _ ⟨⟩) rfl
  · rw [ldc_eq]
    exact .bytes (Emits.interned ..) (by rintro _ ⟨⟩) rfl

theorem emits_localAccess (assembly : Assembly) (opcode : Opcode) (index : Nat) :
    ∃ bytes : List UInt8, Emits assembly (assembly.localAccess opcode index) (bytes.map .byte) := by
  rw [localAccess]
  split
  · exact ⟨_, Emits.append ..⟩
  · exact ⟨_, Emits.append ..⟩

theorem emitted_branch (assembly : Assembly) (opcode : Opcode) (label : Nat) :
    Emitted assembly (.branch opcode label) (assembly.emit (.branch opcode label)) := by
  have accepted (taken : opcode ∈ Opcode.narrowJumps ++ Opcode.wideJumps) :
      ∀ error, ¬(Directive.branch opcode label).Refused assembly.Known error := by
    intro error refused
    cases refused with
    | branch other => exact other taken
  rw [emit_branch]
  split
  · rename_i narrow
    refine .lay ((Emits.append ..).trans (Emits.jump ..))
      (accepted (List.mem_append_left _ narrow)) ?_
    rw [Directive.openJumps, if_pos narrow]
    rfl
  split
  · rename_i other wide
    refine .lay ((Emits.append ..).trans (Emits.jump ..))
      (accepted (List.mem_append_right _ wide)) ?_
    rw [Directive.openJumps, if_neg other, if_pos wide]
    rfl
  · rename_i notNarrow notWide
    refine .fail (.branch (by simp [notNarrow, notWide])) ?_
    rw [Directive.openJumps, if_neg notNarrow, if_neg notWide]

theorem emitted_interface (assembly : Assembly) (member : MemberRef) :
    Emitted assembly (.invoke .invokeinterface member)
      (assembly.emit (.invoke .invokeinterface member)) := by
  rw [emit_invoke, if_pos rfl]
  split
  · rename_i malformed
    exact .fail (.descriptor malformed) rfl
  · rename_i parsed
    refine .bytes (Emits.indexed ..) ?_ rfl
    intro error refused
    cases refused with
    | invoke other => exact other (by decide)
    | descriptor malformed => cases malformed.symm.trans parsed

theorem emitted_newarray (assembly : Assembly) (element : Kind) :
    Emitted assembly (.newarray element) (assembly.emit (.newarray element)) := by
  simp only [emit]
  split
  · rename_i code coded
    refine .bytes (Emits.append ..) ?_ rfl
    intro error refused
    cases refused with
    | newarray uncoded => cases coded.symm.trans ((elementCode?_eq_none_iff element).mpr uncoded)
  · rename_i uncoded
    exact .fail (.newarray ((elementCode?_eq_none_iff element).mp uncoded)) rfl

theorem emit_emitted (assembly : Assembly) (directive : Directive) :
    Emitted assembly directive (assembly.emit directive) := by
  cases directive with
  | label => exact .label rfl
  | bind label => exact emitted_bind assembly label
  | op | raw | bipush | sipush => exact .bytes (Emits.append ..) (by rintro _ ⟨⟩) rfl
  | int value => exact emitted_int assembly value
  | ldc constant =>
    simp only [emit, ldc_eq]
    exact .bytes (Emits.interned ..) (by rintro _ ⟨⟩) rfl
  | localAccess opcode index =>
    obtain ⟨bytes, emitted⟩ := emits_localAccess assembly opcode index.toNat
    rw [emit_localAccess]
    exact .guarded emitted (fun _ => Directive.refused_localAccess_iff) rfl
  | iinc index delta =>
    simp only [emit, iinc]
    split <;> exact .bytes (Emits.append ..) (by rintro _ ⟨⟩) rfl
  | branch opcode label => exact emitted_branch assembly opcode label
  | tableswitch low default targets =>
    exact .lay (Emits.tableswitch ..) (by rintro _ ⟨⟩) (openJumps_tablePieces ..)
  | lookupswitch default cases =>
    refine .lay (Emits.lookupswitch ..) (by rintro _ ⟨⟩) ?_
    rw [openJumps_lookupPieces, mergeSort_toInt, List.map_map]
    rfl
  | field opcode member =>
    rw [emit_field]
    exact .guarded (Emits.interned ..) (fun _ => Directive.refused_field_iff) rfl
  | invoke opcode member =>
    by_cases interface : opcode = .invokeinterface
    · subst interface
      exact emitted_interface assembly member
    · rw [emit_invoke, if_neg interface]
      exact .guarded (Emits.interned ..) (fun _ => Directive.refused_invoke_iff interface) rfl
  | classOp opcode className =>
    rw [emit_classOp]
    exact .guarded (Emits.interned ..) (fun _ => Directive.refused_classOp_iff) rfl
  | newarray element => exact emitted_newarray assembly element
  | multianewarray className dimensions => exact .bytes (Emits.indexed ..) (by rintro _ ⟨⟩) rfl
  | intern entry =>
    have emitted := Emits.interned assembly entry []
    simp only [append] at emitted
    exact .bytes emitted (by rintro _ ⟨⟩) rfl

namespace Emitted

variable {after : Assembly} (emitted : Emitted assembly directive after)

include emitted

theorem lays : ∃ pieces, Lays assembly after pieces := by
  cases emitted with
  | label => exact ⟨[], .nothing rfl rfl rfl⟩
  | bind => exact ⟨[], .nothing rfl rfl rfl⟩
  | fail => exact ⟨[], .nothing rfl rfl rfl⟩
  | lay emits => exact ⟨_, emits.toLays⟩

theorem error_none (accepted : after.error = none) : assembly.error = none := by
  cases emitted with
  | label => exact accepted
  | bind => exact accepted
  | fail => exact absurd accepted (assembly.fail_error _)
  | lay emits => exact emits.error.symm.trans accepted

theorem labels {label target : Nat} (known : after.labels[label]? = some (some target)) :
    assembly.labels[label]? = some (some target) ∨
      directive = .bind label ∧ label < assembly.labels.size ∧ assembly.code.size = target := by
  cases emitted with
  | label made =>
    rw [Array.getElem?_push] at known
    split at known
    · cases known
    · exact .inl known
  | bind bound =>
    rw [Array.getElem?_setIfInBounds] at known
    split at known
    · rename_i same
      subst same
      split at known
      · rename_i inside
        cases known
        exact .inr ⟨bound, inside, rfl⟩
      · cases known
    · exact .inl known
  | fail => exact .inl known
  | lay emits => exact .inl (emits.labels ▸ known)

end Emitted

theorem foldl_lays (assembly : Assembly) (directives : List Directive) :
    ∃ pieces, Lays assembly (directives.foldl emit assembly) pieces := by
  induction directives generalizing assembly with
  | nil => exact ⟨[], .nothing rfl rfl rfl⟩
  | cons directive rest ih =>
    obtain ⟨early, first⟩ := (emit_emitted assembly directive).lays
    obtain ⟨late, others⟩ := ih (assembly.emit directive)
    exact ⟨early ++ late, first.trans others⟩

theorem error_of_foldl {directives : List Directive}
    (accepted : (directives.foldl emit assembly).error = none) : assembly.error = none := by
  induction directives generalizing assembly with
  | nil => exact accepted
  | cons directive rest ih => exact (emit_emitted assembly directive).error_none (ih accepted)

theorem run_concat (before : List Directive) (directive : Directive) :
    run (before ++ [directive]) = (run before).emit directive := by
  simp [run]

theorem boundAt_of_foldl {before after : List Directive} {label target : Nat}
    (known : (after.foldl emit (run before)).labels[label]? = some (some target)) :
    (run before).labels[label]? = some (some target) ∨ BoundAt (before ++ after) label target := by
  induction after generalizing before with
  | nil => exact .inl known
  | cons directive rest ih =>
    rw [List.foldl_cons, ← run_concat] at known
    -- The label is bound after this directive, by it, or before it.
    rcases ih known with early | bound
    · rw [run_concat] at early
      rcases (emit_emitted _ _).labels early with former | ⟨rfl, made, here⟩
      · exact .inl former
      · exact .inr ⟨before, rest, rfl, made, here⟩
    · exact .inr (by simpa using bound)

theorem boundAt_of_labels {directives : List Directive} {label target : Nat}
    (known : (run directives).labels[label]? = some (some target)) :
    BoundAt directives label target := by
  have start : run directives = directives.foldl emit (run []) := rfl
  rw [start] at known
  rcases boundAt_of_foldl known with none | bound
  · cases none
  · exact bound

end Assembly

theorem BoundAt.target_le {directives : List Directive} {label target : Nat}
    (bound : BoundAt directives label target) : target ≤ (Assembly.run directives).code.size := by
  obtain ⟨before, after, rfl, _, rfl⟩ := bound
  obtain ⟨pieces, laid⟩ := Assembly.foldl_lays (Assembly.run before) (.bind label :: after)
  have whole : (Assembly.run (before ++ .bind label :: after)).code.size =
      (Assembly.run before).code.size + (pieces.flatMap Piece.blank).length := by
    rw [Assembly.run, List.foldl_append]
    exact laid.size
  omega

theorem error_of_assemble {directives : List Directive} {body : MethodBody}
    (assembled : assemble directives = .ok body) : (Assembly.run directives).error = none := by
  unfold assemble Assembly.finish at assembled
  split at assembled
  · cases assembled
  · assumption

theorem finish_fills {directives : List Directive} {body : MethodBody} {pieces : List Piece}
    (assembled : assemble directives = .ok body)
    (laid : Lays .empty (Assembly.run directives) pieces) :
    body.pool = (Assembly.run directives).pool ∧
      ∃ bytes, Fills directives pieces bytes ∧ body.code.toList = bytes := by
  unfold assemble Assembly.finish at assembled
  split at assembled
  · cases assembled
  · obtain ⟨code, resolved, built⟩ := bind_eq_ok.mp assembled
    cases built
    have blank : (Assembly.run directives).code = ([] ++ pieces.flatMap Piece.blank).toArray :=
      Array.toList_inj.mp laid.code
    have holes : (Assembly.run directives).fixups.toList = Piece.fixups [].length pieces :=
      laid.fixups
    rw [← Array.foldlM_toList, holes, blank] at resolved
    exact ⟨rfl, Assembly.resolve_pieces (fun _ _ => Assembly.boundAt_of_labels) resolved⟩

/-- What a directive lays down stands in the finished body where the directive was given. -/
theorem holds_emitted {before after : List Directive} {directive : Directive} {body : MethodBody}
    {pieces : List Piece} (assembled : assemble (before ++ directive :: after) = .ok body)
    (laid : Lays (Assembly.run before) ((Assembly.run before).emit directive) pieces) :
    ∃ bytes, Fills (before ++ directive :: after) pieces bytes ∧
      body.Holds (Assembly.run before).code.size bytes ∧
      (Assembly.run (before ++ [directive])).code.size =
        (Assembly.run before).code.size + bytes.length := by
  obtain ⟨early, laidBefore⟩ := Assembly.foldl_lays .empty before
  obtain ⟨late, laidAfter⟩ := Assembly.foldl_lays ((Assembly.run before).emit directive) after
  have whole : Lays .empty (Assembly.run (before ++ directive :: after))
      (early ++ (pieces ++ late)) := by
    rw [Assembly.run, List.foldl_append, List.foldl_cons]
    exact laidBefore.trans (laid.trans laidAfter)
  obtain ⟨_, bytes, filled, code⟩ := finish_fills assembled whole
  obtain ⟨front, rest, rfl, filledFront, filledRest⟩ := filled.append
  obtain ⟨own, back, rfl, filledOwn, _⟩ := filledRest.append
  have start : (Assembly.run before).code.size = front.length := by
    rw [filledFront.length]
    exact laidBefore.size.trans (Nat.zero_add _)
  refine ⟨own, filledOwn, ?_, ?_⟩
  · rw [start]
    rw [← List.append_assoc] at code
    exact MethodBody.holds_of_eq_append code
  · rw [Assembly.run_concat, laid.size, filledOwn.length]

end MethodFlow
