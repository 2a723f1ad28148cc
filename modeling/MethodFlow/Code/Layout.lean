import MethodFlow.Code.Instruction

/-! How the operands of each opcode stand in the code. Opcodes that differ only in a kind, an
implicit operand or a test share one layout. -/
namespace MethodFlow

inductive Layout
  | plain (operation : Operation)
  | byteImmediate
  /-- Two bytes that are pushed as a short. -/
  | shortImmediate
  | shortConstant
  | constant (wide : Bool)
  | loadLocal (kind : Kind)
  | storeLocal (kind : Kind)
  | incrementLocal
  | branch (test : BranchTest)
  | goto
  | gotoWide
  | jsr
  | jsrWide
  | ret
  /-- Aligned default, least and greatest key, and an offset for each key. -/
  | tableSwitch
  /-- Aligned default, number of cases, and a key with its offset for each case. -/
  | lookupSwitch
  | field (effect : FieldAccess → Effect)
  /-- Two bytes, the index of a method; a call of an interface has two more bytes. -/
  | invoke (kind : InvokeKind)
  | classOperand (effect : String → Effect)
  | primitiveArray
  | multiArray
  /-- Another opcode whose operands take twice their usual width. -/
  | widened
  | unsupported (length : Nat)

namespace Opcode

def layout : Opcode → Layout
  | nop => .plain .nop
  | aconstNull => .plain (.effect (.push .null))
  | iconstM1 => .plain (.effect (.push (.int (-1))))
  | iconst0 => .plain (.effect (.push (.int 0)))
  | iconst1 => .plain (.effect (.push (.int 1)))
  | iconst2 => .plain (.effect (.push (.int 2)))
  | iconst3 => .plain (.effect (.push (.int 3)))
  | iconst4 => .plain (.effect (.push (.int 4)))
  | iconst5 => .plain (.effect (.push (.int 5)))
  | lconst0 => .plain (.effect (.push (.long 0)))
  | lconst1 => .plain (.effect (.push (.long 1)))
  | fconst0 => .plain (.effect (.push (.float 0.0)))
  | fconst1 => .plain (.effect (.push (.float 1.0)))
  | fconst2 => .plain (.effect (.push (.float 2.0)))
  | dconst0 => .plain (.effect (.push (.double 0.0)))
  | dconst1 => .plain (.effect (.push (.double 1.0)))
  | bipush => .byteImmediate
  | sipush => .shortImmediate
  | ldc => .shortConstant
  | ldcW => .constant false
  | ldc2W => .constant true
  | iload => .loadLocal .int
  | lload => .loadLocal .long
  | fload => .loadLocal .float
  | dload => .loadLocal .double
  | aload => .loadLocal .reference
  | iload0 => .plain (.effect (.load .int 0))
  | iload1 => .plain (.effect (.load .int 1))
  | iload2 => .plain (.effect (.load .int 2))
  | iload3 => .plain (.effect (.load .int 3))
  | lload0 => .plain (.effect (.load .long 0))
  | lload1 => .plain (.effect (.load .long 1))
  | lload2 => .plain (.effect (.load .long 2))
  | lload3 => .plain (.effect (.load .long 3))
  | fload0 => .plain (.effect (.load .float 0))
  | fload1 => .plain (.effect (.load .float 1))
  | fload2 => .plain (.effect (.load .float 2))
  | fload3 => .plain (.effect (.load .float 3))
  | dload0 => .plain (.effect (.load .double 0))
  | dload1 => .plain (.effect (.load .double 1))
  | dload2 => .plain (.effect (.load .double 2))
  | dload3 => .plain (.effect (.load .double 3))
  | aload0 => .plain (.effect (.load .reference 0))
  | aload1 => .plain (.effect (.load .reference 1))
  | aload2 => .plain (.effect (.load .reference 2))
  | aload3 => .plain (.effect (.load .reference 3))
  | iaload => .plain (.effect (.loadArray .int))
  | laload => .plain (.effect (.loadArray .long))
  | faload => .plain (.effect (.loadArray .float))
  | daload => .plain (.effect (.loadArray .double))
  | aaload => .plain (.effect (.loadArray .reference))
  | baload => .plain (.effect (.loadArray .byte))
  | caload => .plain (.effect (.loadArray .char))
  | saload => .plain (.effect (.loadArray .short))
  | istore => .storeLocal .int
  | lstore => .storeLocal .long
  | fstore => .storeLocal .float
  | dstore => .storeLocal .double
  | astore => .storeLocal .reference
  | istore0 => .plain (.effect (.store .int 0))
  | istore1 => .plain (.effect (.store .int 1))
  | istore2 => .plain (.effect (.store .int 2))
  | istore3 => .plain (.effect (.store .int 3))
  | lstore0 => .plain (.effect (.store .long 0))
  | lstore1 => .plain (.effect (.store .long 1))
  | lstore2 => .plain (.effect (.store .long 2))
  | lstore3 => .plain (.effect (.store .long 3))
  | fstore0 => .plain (.effect (.store .float 0))
  | fstore1 => .plain (.effect (.store .float 1))
  | fstore2 => .plain (.effect (.store .float 2))
  | fstore3 => .plain (.effect (.store .float 3))
  | dstore0 => .plain (.effect (.store .double 0))
  | dstore1 => .plain (.effect (.store .double 1))
  | dstore2 => .plain (.effect (.store .double 2))
  | dstore3 => .plain (.effect (.store .double 3))
  | astore0 => .plain (.effect (.store .reference 0))
  | astore1 => .plain (.effect (.store .reference 1))
  | astore2 => .plain (.effect (.store .reference 2))
  | astore3 => .plain (.effect (.store .reference 3))
  | iastore => .plain (.effect (.storeArray .int))
  | lastore => .plain (.effect (.storeArray .long))
  | fastore => .plain (.effect (.storeArray .float))
  | dastore => .plain (.effect (.storeArray .double))
  | aastore => .plain (.effect (.storeArray .reference))
  | bastore => .plain (.effect (.storeArray .byte))
  | castore => .plain (.effect (.storeArray .char))
  | sastore => .plain (.effect (.storeArray .short))
  | pop => .plain (.effect (.shuffle .pop))
  | pop2 => .plain (.effect (.shuffle .pop2))
  | dup => .plain (.effect (.shuffle .dup))
  | dupX1 => .plain (.effect (.shuffle .dupX1))
  | dupX2 => .plain (.effect (.shuffle .dupX2))
  | dup2 => .plain (.effect (.shuffle .dup2))
  | dup2X1 => .plain (.effect (.shuffle .dup2X1))
  | dup2X2 => .plain (.effect (.shuffle .dup2X2))
  | swap => .plain (.effect (.shuffle .swap))
  | iadd => .plain (.effect (.arithmetic .add .int))
  | ladd => .plain (.effect (.arithmetic .add .long))
  | fadd => .plain (.effect (.arithmetic .add .float))
  | dadd => .plain (.effect (.arithmetic .add .double))
  | isub => .plain (.effect (.arithmetic .sub .int))
  | lsub => .plain (.effect (.arithmetic .sub .long))
  | fsub => .plain (.effect (.arithmetic .sub .float))
  | dsub => .plain (.effect (.arithmetic .sub .double))
  | imul => .plain (.effect (.arithmetic .mul .int))
  | lmul => .plain (.effect (.arithmetic .mul .long))
  | fmul => .plain (.effect (.arithmetic .mul .float))
  | dmul => .plain (.effect (.arithmetic .mul .double))
  | idiv => .plain (.effect (.arithmetic .div .int))
  | ldiv => .plain (.effect (.arithmetic .div .long))
  | fdiv => .plain (.effect (.arithmetic .div .float))
  | ddiv => .plain (.effect (.arithmetic .div .double))
  | irem => .plain (.effect (.arithmetic .rem .int))
  | lrem => .plain (.effect (.arithmetic .rem .long))
  | frem => .plain (.effect (.arithmetic .rem .float))
  | drem => .plain (.effect (.arithmetic .rem .double))
  | ineg => .plain (.effect (.negate .int))
  | lneg => .plain (.effect (.negate .long))
  | fneg => .plain (.effect (.negate .float))
  | dneg => .plain (.effect (.negate .double))
  | ishl => .plain (.effect (.arithmetic .shl .int))
  | lshl => .plain (.effect (.arithmetic .shl .long))
  | ishr => .plain (.effect (.arithmetic .shr .int))
  | lshr => .plain (.effect (.arithmetic .shr .long))
  | iushr => .plain (.effect (.arithmetic .ushr .int))
  | lushr => .plain (.effect (.arithmetic .ushr .long))
  | iand => .plain (.effect (.arithmetic .and .int))
  | land => .plain (.effect (.arithmetic .and .long))
  | ior => .plain (.effect (.arithmetic .or .int))
  | lor => .plain (.effect (.arithmetic .or .long))
  | ixor => .plain (.effect (.arithmetic .xor .int))
  | lxor => .plain (.effect (.arithmetic .xor .long))
  | iinc => .incrementLocal
  | i2l => .plain (.effect (.convert .i2l))
  | i2f => .plain (.effect (.convert .i2f))
  | i2d => .plain (.effect (.convert .i2d))
  | l2i => .plain (.effect (.convert .l2i))
  | l2f => .plain (.effect (.convert .l2f))
  | l2d => .plain (.effect (.convert .l2d))
  | f2i => .plain (.effect (.convert .f2i))
  | f2l => .plain (.effect (.convert .f2l))
  | f2d => .plain (.effect (.convert .f2d))
  | d2i => .plain (.effect (.convert .d2i))
  | d2l => .plain (.effect (.convert .d2l))
  | d2f => .plain (.effect (.convert .d2f))
  | i2b => .plain (.effect (.convert .i2b))
  | i2c => .plain (.effect (.convert .i2c))
  | i2s => .plain (.effect (.convert .i2s))
  | lcmp => .plain (.effect (.compare .lcmp))
  | fcmpl => .plain (.effect (.compare .fcmpl))
  | fcmpg => .plain (.effect (.compare .fcmpg))
  | dcmpl => .plain (.effect (.compare .dcmpl))
  | dcmpg => .plain (.effect (.compare .dcmpg))
  | ifeq => .branch (.zero .eq)
  | ifne => .branch (.zero .ne)
  | iflt => .branch (.zero .lt)
  | ifge => .branch (.zero .ge)
  | ifgt => .branch (.zero .gt)
  | ifle => .branch (.zero .le)
  | ifIcmpeq => .branch (.intCompare .eq)
  | ifIcmpne => .branch (.intCompare .ne)
  | ifIcmplt => .branch (.intCompare .lt)
  | ifIcmpge => .branch (.intCompare .ge)
  | ifIcmpgt => .branch (.intCompare .gt)
  | ifIcmple => .branch (.intCompare .le)
  | ifAcmpeq => .branch (.refCompare true)
  | ifAcmpne => .branch (.refCompare false)
  | goto => .goto
  | jsr => .jsr
  | ret => .ret
  | tableswitch => .tableSwitch
  | lookupswitch => .lookupSwitch
  | ireturn => .plain (.terminate (.value .int))
  | lreturn => .plain (.terminate (.value .long))
  | freturn => .plain (.terminate (.value .float))
  | dreturn => .plain (.terminate (.value .double))
  | areturn => .plain (.terminate (.value .reference))
  | returnVoid => .plain (.terminate .void)
  | getstatic => .field .getStatic
  | putstatic => .field .putStatic
  | getfield => .field .getField
  | putfield => .field .putField
  | invokevirtual => .invoke .virtual
  | invokespecial => .invoke .special
  | invokestatic => .invoke .static
  | invokeinterface => .invoke .interface
  | invokedynamic => .unsupported 5
  | new => .classOperand fun name => .allocate (.object name)
  | newarray => .primitiveArray
  | anewarray => .classOperand fun name => .allocate (.referenceArray name)
  | arraylength => .plain (.effect .arrayLength)
  | athrow => .plain (.terminate .throw)
  | checkcast => .classOperand fun name => .typeCheck (.cast name)
  | instanceof => .classOperand fun name => .typeCheck (.instanceOf name)
  | monitorenter => .plain (.effect (.monitor .enter))
  | monitorexit => .plain (.effect (.monitor .exit))
  | wide => .widened
  | multianewarray => .multiArray
  | ifnull => .branch (.null true)
  | ifnonnull => .branch (.null false)
  | gotoW => .gotoWide
  | jsrW => .jsrWide
  | breakpoint => .unsupported 1
  | impdep1 => .unsupported 1
  | impdep2 => .unsupported 1

end Opcode

/-- The element kind a code of one byte stands for. -/
def elementKind? (code : UInt8) : Option Kind :=
  match code with
  | 4 => some .boolean
  | 5 => some .char
  | 6 => some .float
  | 7 => some .double
  | 8 => some .byte
  | 9 => some .short
  | 10 => some .int
  | 11 => some .long
  | _ => none

def elementCode? : Kind → Option UInt8
  | .boolean => some 4
  | .char => some 5
  | .float => some 6
  | .double => some 7
  | .byte => some 8
  | .short => some 9
  | .int => some 10
  | .long => some 11
  | _ => none

end MethodFlow
