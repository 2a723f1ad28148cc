/-! Kinds of values a method computes with, and the operators of its instructions.
A kind fixes how many slots a value takes on the operand stack and in the locals. -/
namespace MethodFlow

inductive Category
  | one
  | two
  deriving DecidableEq

namespace Category

def slots : Category → Nat
  | one => 1
  | two => 2

def name : Category → String
  | one => "One"
  | two => "Two"

end Category

inductive IntKind
  | int
  | long
  | short
  | byte
  | char
  | boolean
  deriving DecidableEq

namespace IntKind

def category : IntKind → Category
  | long => .two
  | _ => .one

end IntKind

inductive FloatKind
  | float
  | double
  deriving DecidableEq

namespace FloatKind

def category : FloatKind → Category
  | float => .one
  | double => .two

end FloatKind

inductive Kind
  | integral (kind : IntKind)
  | floating (kind : FloatKind)
  | reference
  | returnAddress
  deriving DecidableEq

namespace Kind

@[match_pattern] abbrev int : Kind := integral .int
@[match_pattern] abbrev long : Kind := integral .long
@[match_pattern] abbrev short : Kind := integral .short
@[match_pattern] abbrev byte : Kind := integral .byte
@[match_pattern] abbrev char : Kind := integral .char
@[match_pattern] abbrev boolean : Kind := integral .boolean
@[match_pattern] abbrev float : Kind := floating .float
@[match_pattern] abbrev double : Kind := floating .double

def all : List Kind :=
  [int, long, float, double, short, byte, char, boolean, reference, returnAddress]

def name : Kind → String
  | int => "Int"
  | long => "Long"
  | short => "Short"
  | byte => "Byte"
  | char => "Char"
  | boolean => "Boolean"
  | float => "Float"
  | double => "Double"
  | reference => "Reference"
  | returnAddress => "ReturnAddress"

def category : Kind → Category
  | integral kind => kind.category
  | floating kind => kind.category
  | reference => .one
  | returnAddress => .one

def slots (kind : Kind) : Nat := kind.category.slots

def isIntegral : Kind → Bool
  | integral _ => true
  | _ => false

def isFloating : Kind → Bool
  | floating _ => true
  | _ => false

/-- A value of one kind may stand where the other is asked for: the kinds are the same, or both
are integral and take the same number of slots. -/
def compatible (a b : Kind) : Bool :=
  a == b || (a.isIntegral && b.isIntegral && a.category == b.category)

end Kind

class HasKind (V : Type) where
  kind : V → Kind

def HasKind.category {V : Type} [HasKind V] (value : V) : Category := (HasKind.kind value).category

inductive Width
  | int
  | long
  deriving DecidableEq

namespace Width

def bits : Width → Nat
  | int => 32
  | long => 64

def kind : Width → IntKind
  | int => .int
  | long => .long

end Width

inductive NumericKind
  | integral (width : Width)
  | floating (kind : FloatKind)
  deriving DecidableEq

namespace NumericKind

@[match_pattern] abbrev int : NumericKind := integral .int
@[match_pattern] abbrev long : NumericKind := integral .long
@[match_pattern] abbrev float : NumericKind := floating .float
@[match_pattern] abbrev double : NumericKind := floating .double

def kind : NumericKind → Kind
  | integral width => .integral width.kind
  | floating kind => .floating kind

end NumericKind

/-- Binary operators. The distance of a shift is an int whatever the shifted kind is. -/
inductive ArithmeticOp
  | add
  | sub
  | mul
  | div
  | rem
  | shl
  | shr
  | ushr
  | and
  | or
  | xor
  deriving DecidableEq

namespace ArithmeticOp

def isShift : ArithmeticOp → Bool
  | shl | shr | ushr => true
  | _ => false

end ArithmeticOp

inductive Conversion
  | i2l
  | i2f
  | i2d
  | l2i
  | l2f
  | l2d
  | f2i
  | f2l
  | f2d
  | d2i
  | d2l
  | d2f
  | i2b
  | i2c
  | i2s
  deriving DecidableEq

namespace Conversion

def source : Conversion → NumericKind
  | i2l | i2f | i2d | i2b | i2c | i2s => .int
  | l2i | l2f | l2d => .long
  | f2i | f2l | f2d => .float
  | d2i | d2l | d2f => .double

def target : Conversion → NumericKind
  | l2i | f2i | d2i | i2b | i2c | i2s => .int
  | i2l | f2l | d2l => .long
  | i2f | l2f | d2f => .float
  | i2d | l2d | f2d => .double

end Conversion

/-- Three-way comparisons, which push -1, 0 or 1. -/
inductive Comparison
  | lcmp
  | fcmpl
  | fcmpg
  | dcmpl
  | dcmpg
  deriving DecidableEq

namespace Comparison

def operandKind : Comparison → NumericKind
  | lcmp => .long
  | fcmpl | fcmpg => .float
  | dcmpl | dcmpg => .double

/-- What is pushed when an operand is not a number. -/
def nanResult : Comparison → Option Int
  | lcmp => none
  | fcmpl | dcmpl => some (-1)
  | fcmpg | dcmpg => some 1

end Comparison

end MethodFlow
