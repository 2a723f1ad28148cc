import MethodFlow.Code.Instruction

/-! The names of the choices that instructions are made of. -/
namespace MethodFlow

def NumericKind.names : List (String × NumericKind) :=
  [("Int", .int), ("Long", .long), ("Float", .float), ("Double", .double)]

def ArithmeticOp.names : List (String × ArithmeticOp) :=
  [("Add", .add), ("Sub", .sub), ("Mul", .mul), ("Div", .div), ("Rem", .rem), ("Shl", .shl),
    ("Shr", .shr), ("Ushr", .ushr), ("And", .and), ("Or", .or), ("Xor", .xor)]

def Conversion.names : List (String × Conversion) :=
  [("I2L", .i2l), ("I2F", .i2f), ("I2D", .i2d), ("L2I", .l2i), ("L2F", .l2f), ("L2D", .l2d),
    ("F2I", .f2i), ("F2L", .f2l), ("F2D", .f2d), ("D2I", .d2i), ("D2L", .d2l), ("D2F", .d2f),
    ("I2B", .i2b), ("I2C", .i2c), ("I2S", .i2s)]

def Comparison.names : List (String × Comparison) :=
  [("Lcmp", .lcmp), ("Fcmpl", .fcmpl), ("Fcmpg", .fcmpg), ("Dcmpl", .dcmpl), ("Dcmpg", .dcmpg)]

def StackOp.names : List (String × StackOp) :=
  [("Pop", .pop), ("Pop2", .pop2), ("Dup", .dup), ("DupX1", .dupX1), ("DupX2", .dupX2),
    ("Dup2", .dup2), ("Dup2X1", .dup2X1), ("Dup2X2", .dup2X2), ("Swap", .swap)]

def Condition.names : List (String × Condition) :=
  [("Eq", .eq), ("Ne", .ne), ("Lt", .lt), ("Ge", .ge), ("Gt", .gt), ("Le", .le)]

def InvokeKind.names : List (String × InvokeKind) :=
  [("Virtual", .virtual), ("Special", .special), ("Static", .static), ("Interface", .interface)]

def MonitorOp.names : List (String × MonitorOp) := [("Enter", .enter), ("Exit", .exit)]

end MethodFlow
