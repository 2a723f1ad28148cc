import Mathlib.Algebra.Order.Ring.Int
import MethodFlow.Code.Instruction

/-! Words of a concrete machine and what the integer instructions compute on them. A result is the
mathematical one, cut to the low bits of the instruction's width; ranges play no part here. -/
namespace MethodFlow

def ArithmeticOp.mayOverflow : ArithmeticOp → Bool
  | add | sub | mul | div => true
  | _ => false

namespace Width

def wrap (width : Width) (value : Int) : Int := value.bmod (2 ^ width.bits)

/-- What a binary instruction computes before its result is cut to the width. Division truncates
and has no result for the divisor zero; of a shift distance only the low bits count. -/
def result (width : Width) (op : ArithmeticOp) (x y : Int) : Option Int :=
  let places := (y % width.bits).toNat
  match op with
  | .add => some (x + y)
  | .sub => some (x - y)
  | .mul => some (x * y)
  | .div => if y = 0 then none else some (x.tdiv y)
  | .rem => if y = 0 then none else some (x.tmod y)
  | .shl => some (x * 2 ^ places)
  | .shr => some (x / 2 ^ places)
  | .ushr => some (x % 2 ^ width.bits / 2 ^ places)
  | .and => some (BitVec.ofInt width.bits x &&& BitVec.ofInt width.bits y).toInt
  | .or => some (BitVec.ofInt width.bits x ||| BitVec.ofInt width.bits y).toInt
  | .xor => some (BitVec.ofInt width.bits x ^^^ BitVec.ofInt width.bits y).toInt

def compute (width : Width) (op : ArithmeticOp) (x y : Int) : Option Int :=
  (width.result op x y).map width.wrap

def rightKind (width : Width) (op : ArithmeticOp) : IntKind :=
  if op.isShift then .int else width.kind

def Fits (width : Width) (value : Int) : Prop :=
  -2 ^ (width.bits - 1) ≤ value ∧ value < 2 ^ (width.bits - 1)

instance (width : Width) (value : Int) : Decidable (width.Fits value) :=
  inferInstanceAs (Decidable (_ ∧ _))

theorem fits_int {value : Int} :
    Width.int.Fits value ↔ -2147483648 ≤ value ∧ value < 2147483648 := by
  simp [Fits, bits]

theorem fits_long {value : Int} :
    Width.long.Fits value ↔ -9223372036854775808 ≤ value ∧ value < 9223372036854775808 := by
  simp [Fits, bits]

theorem wrap_fits (width : Width) (value : Int) : width.Fits (width.wrap value) := by
  cases width with
  | int =>
    rw [fits_int]
    have lower := Int.le_bmod (x := value) (m := 4294967296) (by decide)
    have upper := Int.bmod_lt (x := value) (m := 4294967296) (by decide)
    simp only [wrap, bits, Nat.reducePow]
    omega
  | long =>
    rw [fits_long]
    have lower := Int.le_bmod (x := value) (m := 18446744073709551616) (by decide)
    have upper := Int.bmod_lt (x := value) (m := 18446744073709551616) (by decide)
    simp only [wrap, bits, Nat.reducePow]
    omega

theorem wrap_of_fits {width : Width} {value : Int} (fits : width.Fits value) :
    width.wrap value = value := by
  cases width with
  | int =>
    rw [fits_int] at fits
    exact Int.bmod_eq_of_le (by simp [bits]; omega) (by simp [bits]; omega)
  | long =>
    rw [fits_long] at fits
    exact Int.bmod_eq_of_le (by simp [bits]; omega) (by simp [bits]; omega)

end Width

end MethodFlow
