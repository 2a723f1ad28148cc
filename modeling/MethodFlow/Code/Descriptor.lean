import MethodFlow.Code.Error
import MethodFlow.Kind

/-! Field and method descriptors. A field type is a letter for a primitive kind, a class name
between `L` and `;`, or `[` before a field type. -/
namespace MethodFlow

/-- Reads one field type from the front and leaves the rest. -/
def splitType : List Char → Option (Kind × List Char)
  | 'Z' :: rest => some (.boolean, rest)
  | 'B' :: rest => some (.byte, rest)
  | 'C' :: rest => some (.char, rest)
  | 'S' :: rest => some (.short, rest)
  | 'I' :: rest => some (.int, rest)
  | 'J' :: rest => some (.long, rest)
  | 'F' :: rest => some (.float, rest)
  | 'D' :: rest => some (.double, rest)
  | 'L' :: rest =>
    match rest.takeWhile (· != ';'), rest.dropWhile (· != ';') with
    | _ :: _, ';' :: after => some (.reference, after)
    | _, _ => none
  | '[' :: rest =>
    match splitType rest with
    | some (_, after) => some (.reference, after)
    | none => none
  | _ => none

theorem splitType_shorter {chars rest : List Char} {kind : Kind}
    (split : splitType chars = some (kind, rest)) : rest.length < chars.length := by
  fun_induction splitType chars generalizing kind rest with
  | case9 tail name after more dropped =>
    cases split
    have shorter := (List.dropWhile_sublist (· != ';') (l := tail)).length_le
    rw [dropped] at shorter
    simp only [List.length_cons] at *
    omega
  | case11 tail inner after found ih =>
    cases split
    have shorter := ih found
    simp only [List.length_cons]
    omega
  | _ => simp_all

def splitTypes (chars : List Char) : Option (List Kind) :=
  match chars with
  | [] => some []
  | char :: tail =>
    match _split : splitType (char :: tail) with
    | none => none
    | some (kind, rest) =>
      match splitTypes rest with
      | none => none
      | some kinds => some (kind :: kinds)
termination_by chars.length
decreasing_by exact splitType_shorter _split

def wholeType (chars : List Char) : Option Kind :=
  match splitType chars with
  | some (kind, []) => some kind
  | _ => none

def fieldKind (text : String) : Except DecodeError Kind :=
  match wholeType text.toList with
  | some kind => .ok kind
  | none => .error (.descriptor text)

/-- Kinds of the parameters and of the result; a void method has no result. -/
structure MethodDescriptor where
  parameters : List Kind
  returns : Option Kind
  deriving DecidableEq

namespace MethodDescriptor

/-- Reads the type after the parameters, where `V` stands for no result. -/
def resultType (chars : List Char) : Option (Option Kind) :=
  if chars = ['V'] then some none else some <$> wholeType chars

/-- Parameters stand before the first closing parenthesis and the result after it. -/
def ofChars? : List Char → Option MethodDescriptor
  | '(' :: rest =>
    match rest.dropWhile (· != ')') with
    | ')' :: after => do
      let parameters ← splitTypes (rest.takeWhile (· != ')'))
      let returns ← resultType after
      return ⟨parameters, returns⟩
    | _ => none
  | _ => none

def parse (text : String) : Except DecodeError MethodDescriptor :=
  match ofChars? text.toList with
  | some descriptor => .ok descriptor
  | none => .error (.descriptor text)

/-- Slots taken by the parameters, a receiver not counted. -/
def parameterSlots (descriptor : MethodDescriptor) : Nat :=
  descriptor.parameters.foldr (fun kind total => kind.slots + total) 0

end MethodDescriptor

end MethodFlow
