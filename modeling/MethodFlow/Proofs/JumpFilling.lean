import MethodFlow.Proofs.CodeBytes
import MethodFlow.Proofs.Exploration

/-! How the open jump operands of an assembly are filled in. The code is a row of pieces, bytes and
holes; each hole has its fixup, and finishing the assembly replaces every hole by the distance to
its label and leaves the bytes as they are. -/
namespace MethodFlow

/-- A byte of code, or a jump operand that is still open. -/
inductive Piece
  | byte (value : UInt8)
  | hole (origin label : Nat) (wide : Bool)

def operandBytes (wide : Bool) (relative : Int) : List UInt8 :=
  if wide then bytes32 relative else bytes16 relative

theorem length_operandBytes (wide : Bool) (relative : Int) :
    (operandBytes wide relative).length = if wide then 4 else 2 := by
  cases wide <;> rfl

namespace Piece

def blank : Piece → List UInt8
  | byte value => [value]
  | hole _ _ wide => List.replicate (if wide then 4 else 2) 0

def fixups (site : Nat) : List Piece → List Fixup
  | [] => []
  | byte _ :: rest => fixups (site + 1) rest
  | hole origin label wide :: rest =>
    ⟨origin, site, label, wide⟩ :: fixups (site + if wide then 4 else 2) rest

theorem fixups_append (site : Nat) (first second : List Piece) :
    fixups site (first ++ second) =
      fixups site first ++ fixups (site + (first.flatMap blank).length) second := by
  induction first generalizing site with
  | nil => rfl
  | cons piece rest ih =>
    cases piece with
    | byte value =>
      have shifted : site + (((byte value :: rest).flatMap blank).length) =
          site + 1 + (rest.flatMap blank).length := by
        simp only [List.flatMap_cons, blank, List.length_append, List.length_cons, List.length_nil]
        omega
      rw [shifted]
      exact ih (site + 1)
    | hole origin label wide =>
      have shifted : site + (((hole origin label wide :: rest).flatMap blank).length) =
          site + (if wide then 4 else 2) + (rest.flatMap blank).length := by
        simp only [List.flatMap_cons, blank, List.length_append, List.length_replicate]
        omega
      rw [shifted]
      exact congrArg _ (ih _)

@[simp] theorem blank_bytes (bytes : List UInt8) : (bytes.map byte).flatMap blank = bytes := by
  induction bytes with
  | nil => rfl
  | cons value rest ih => simpa [blank] using ih

@[simp] theorem fixups_bytes (site : Nat) (bytes : List UInt8) :
    fixups site (bytes.map byte) = [] := by
  induction bytes generalizing site with
  | nil => rfl
  | cons value rest ih => exact ih (site + 1)

end Piece

/-- The label is bound at the given offset: it was made before, and that much code stood there. -/
def BoundAt (directives : List Directive) (label target : Nat) : Prop :=
  ∃ before after, directives = before ++ .bind label :: after ∧
    label < (Assembly.run before).labels.size ∧ (Assembly.run before).code.size = target

/-- The bytes are the pieces with every hole filled in: by the distance from its instruction to
where its label is bound, which fits in the hole unless the hole is wide. -/
inductive Fills (directives : List Directive) : List Piece → List UInt8 → Prop
  | nil : Fills directives [] []
  | byte {value : UInt8} {rest : List Piece} {bytes : List UInt8}
      (others : Fills directives rest bytes) :
      Fills directives (.byte value :: rest) (value :: bytes)
  | hole {origin label target : Nat} {wide : Bool} {rest : List Piece} {bytes : List UInt8}
      (bound : BoundAt directives label target)
      (fits : wide = false → -32768 ≤ (target : Int) - origin ∧ (target : Int) - origin ≤ 32767)
      (others : Fills directives rest bytes) :
      Fills directives (.hole origin label wide :: rest)
        (operandBytes wide (target - origin) ++ bytes)

namespace Fills

variable {directives : List Directive}

theorem length {pieces : List Piece} {bytes : List UInt8} (filled : Fills directives pieces bytes) :
    bytes.length = (pieces.flatMap Piece.blank).length := by
  induction filled with
  | nil => rfl
  | byte others ih => simp [Piece.blank, ih, Nat.add_comm]
  | hole bound fits others ih => simp [Piece.blank, ih, length_operandBytes]

theorem append {first second : List Piece} {bytes : List UInt8}
    (filled : Fills directives (first ++ second) bytes) :
    ∃ left right, bytes = left ++ right ∧ Fills directives first left ∧
      Fills directives second right := by
  induction first generalizing bytes with
  | nil => exact ⟨[], bytes, rfl, .nil, filled⟩
  | cons piece rest ih =>
    cases filled with
    | byte others =>
      obtain ⟨left, right, rfl, early, late⟩ := ih others
      exact ⟨_ :: left, right, rfl, .byte early, late⟩
    | hole bound fits others =>
      obtain ⟨left, right, rfl, early, late⟩ := ih others
      exact ⟨_ ++ left, right, (List.append_assoc ..).symm, .hole bound fits early, late⟩

theorem bytes_append {values : List UInt8} {rest : List Piece} {bytes : List UInt8}
    (filled : Fills directives (values.map .byte ++ rest) bytes) :
    ∃ others, bytes = values ++ others ∧ Fills directives rest others := by
  induction values generalizing bytes with
  | nil => exact ⟨bytes, rfl, filled⟩
  | cons value values ih =>
    cases filled with
    | byte others =>
      obtain ⟨right, rfl, late⟩ := ih others
      exact ⟨right, rfl, late⟩

theorem bytes_eq {values bytes : List UInt8} (filled : Fills directives (values.map .byte) bytes) :
    bytes = values := by
  rw [← List.append_nil (values.map Piece.byte)] at filled
  obtain ⟨others, rfl, none⟩ := filled.bytes_append
  cases none
  exact List.append_nil values

end Fills

namespace Assembly

theorem overwrite_blank (before old after new : List UInt8) (same : new.length = old.length) :
    overwrite (before ++ old ++ after).toArray before.length new =
      (before ++ new ++ after).toArray := by
  induction new generalizing before old with
  | nil =>
    rw [List.eq_nil_of_length_eq_zero same.symm]
    rfl
  | cons byte rest ih =>
    cases old with
    | nil => cases same
    | cons former old =>
      have written : (before ++ former :: old ++ after).toArray.setIfInBounds before.length byte =
          ((before ++ [byte]) ++ old ++ after).toArray := by simp
      have further := ih (before ++ [byte]) old (by simpa using same)
      rw [List.length_append, List.length_singleton] at further
      rw [overwrite, written, further]
      simp

theorem resolve_hole {labels : Array (Option Nat)} {before after : List UInt8} {origin label : Nat}
    {wide : Bool} {code : Array UInt8}
    (resolved : resolve labels
      (before ++ (Piece.hole origin label wide).blank ++ after).toArray
      ⟨origin, before.length, label, wide⟩ = .ok code) :
    ∃ target, labels[label]? = some (some target) ∧
      (wide = false → -32768 ≤ (target : Int) - origin ∧ (target : Int) - origin ≤ 32767) ∧
      code = (before ++ operandBytes wide (target - origin) ++ after).toArray := by
  have filled (target : Nat) := overwrite_blank before (Piece.hole origin label wide).blank after
    (operandBytes wide (target - origin)) (by simp [length_operandBytes, Piece.blank])
  unfold resolve at resolved
  split at resolved
  · rename_i target known
    refine ⟨target, known, ?_⟩
    cases wide with
    | true =>
      rw [if_pos rfl] at resolved
      exact ⟨nofun, (Except.ok.inj resolved).symm.trans (filled target)⟩
    | false =>
      rw [if_neg Bool.false_ne_true] at resolved
      split at resolved
      · rename_i fits
        exact ⟨fun _ => by simpa using fits, (Except.ok.inj resolved).symm.trans (filled target)⟩
      · cases resolved
  · cases resolved

theorem resolve_pieces {directives : List Directive} {labels : Array (Option Nat)}
    (known : ∀ label target, labels[label]? = some (some target) → BoundAt directives label target)
    {pieces : List Piece} {before : List UInt8} {code : Array UInt8}
    (resolved : (Piece.fixups before.length pieces).foldlM (resolve labels)
      (before ++ pieces.flatMap Piece.blank).toArray = .ok code) :
    ∃ bytes, Fills directives pieces bytes ∧ code.toList = before ++ bytes := by
  induction pieces generalizing before with
  | nil =>
    cases resolved
    exact ⟨[], .nil, by simp⟩
  | cons piece rest ih =>
    cases piece with
    | byte value =>
      have shifted : (Piece.fixups (before ++ [value]).length rest).foldlM (resolve labels)
          ((before ++ [value]) ++ rest.flatMap Piece.blank).toArray = .ok code := by
        simpa [Piece.fixups, Piece.blank] using resolved
      obtain ⟨bytes, filled, same⟩ := ih shifted
      exact ⟨value :: bytes, .byte filled, by simpa using same⟩
    | hole origin label wide =>
      rw [Piece.fixups, List.foldlM_cons, List.flatMap_cons, ← List.append_assoc] at resolved
      obtain ⟨partly, first, others⟩ := bind_eq_ok.mp resolved
      obtain ⟨target, bound, fits, rfl⟩ := resolve_hole first
      -- The rest is filled in behind the operand, which is as long as the hole was.
      have length : before.length + (if wide then 4 else 2) =
          (before ++ operandBytes wide (target - origin)).length := by
        rw [List.length_append, length_operandBytes]
      rw [length] at others
      obtain ⟨bytes, filled, same⟩ := ih others
      refine ⟨operandBytes wide (target - origin) ++ bytes,
        .hole (known label target bound) fits filled, ?_⟩
      rw [same, List.append_assoc]

end Assembly

end MethodFlow
