/-! The instruction set: its opcodes with their bytes and mnemonics, reserved ones included. -/
namespace MethodFlow

inductive Opcode
  | nop | aconstNull | iconstM1 | iconst0 | iconst1 | iconst2 | iconst3 | iconst4 | iconst5
  | lconst0 | lconst1 | fconst0 | fconst1 | fconst2 | dconst0 | dconst1 | bipush | sipush | ldc
  | ldcW | ldc2W | iload | lload | fload | dload | aload | iload0 | iload1 | iload2 | iload3
  | lload0 | lload1 | lload2 | lload3 | fload0 | fload1 | fload2 | fload3 | dload0 | dload1
  | dload2 | dload3 | aload0 | aload1 | aload2 | aload3 | iaload | laload | faload | daload
  | aaload | baload | caload | saload | istore | lstore | fstore | dstore | astore | istore0
  | istore1 | istore2 | istore3 | lstore0 | lstore1 | lstore2 | lstore3 | fstore0 | fstore1
  | fstore2 | fstore3 | dstore0 | dstore1 | dstore2 | dstore3 | astore0 | astore1 | astore2
  | astore3 | iastore | lastore | fastore | dastore | aastore | bastore | castore | sastore | pop
  | pop2 | dup | dupX1 | dupX2 | dup2 | dup2X1 | dup2X2 | swap | iadd | ladd | fadd | dadd | isub
  | lsub | fsub | dsub | imul | lmul | fmul | dmul | idiv | ldiv | fdiv | ddiv | irem | lrem
  | frem | drem | ineg | lneg | fneg | dneg | ishl | lshl | ishr | lshr | iushr | lushr | iand
  | land | ior | lor | ixor | lxor | iinc | i2l | i2f | i2d | l2i | l2f | l2d | f2i | f2l | f2d
  | d2i | d2l | d2f | i2b | i2c | i2s | lcmp | fcmpl | fcmpg | dcmpl | dcmpg | ifeq | ifne | iflt
  | ifge | ifgt | ifle | ifIcmpeq | ifIcmpne | ifIcmplt | ifIcmpge | ifIcmpgt | ifIcmple
  | ifAcmpeq | ifAcmpne | goto | jsr | ret | tableswitch | lookupswitch | ireturn | lreturn
  | freturn | dreturn | areturn | returnVoid | getstatic | putstatic | getfield | putfield
  | invokevirtual | invokespecial | invokestatic | invokeinterface | invokedynamic | new
  | newarray | anewarray | arraylength | athrow | checkcast | instanceof | monitorenter
  | monitorexit | wide | multianewarray | ifnull | ifnonnull | gotoW | jsrW | breakpoint
  | impdep1 | impdep2
  deriving DecidableEq

namespace Opcode

/-- The opcodes stand in the order of their bytes, which run without a gap up to `breakpoint`. -/
def byte (opcode : Opcode) : UInt8 :=
  if opcode.ctorIdx ≤ 0xca then opcode.ctorIdx.toUInt8 else (opcode.ctorIdx + 51).toUInt8

def ofByte? (byte : UInt8) : Option Opcode :=
  if byte ≤ 0xca then some (ofNat byte.toNat)
  else if 0xfe ≤ byte then some (ofNat (byte.toNat - 51))
  else none

theorem ofByte?_byte (opcode : Opcode) : ofByte? opcode.byte = some opcode := by
  cases opcode <;> rfl

def all : List Opcode := (List.range 205).map ofNat

def mnemonic : Opcode → String
  | nop => "nop"
  | aconstNull => "aconst_null"
  | iconstM1 => "iconst_m1"
  | iconst0 => "iconst_0"
  | iconst1 => "iconst_1"
  | iconst2 => "iconst_2"
  | iconst3 => "iconst_3"
  | iconst4 => "iconst_4"
  | iconst5 => "iconst_5"
  | lconst0 => "lconst_0"
  | lconst1 => "lconst_1"
  | fconst0 => "fconst_0"
  | fconst1 => "fconst_1"
  | fconst2 => "fconst_2"
  | dconst0 => "dconst_0"
  | dconst1 => "dconst_1"
  | bipush => "bipush"
  | sipush => "sipush"
  | ldc => "ldc"
  | ldcW => "ldc_w"
  | ldc2W => "ldc2_w"
  | iload => "iload"
  | lload => "lload"
  | fload => "fload"
  | dload => "dload"
  | aload => "aload"
  | iload0 => "iload_0"
  | iload1 => "iload_1"
  | iload2 => "iload_2"
  | iload3 => "iload_3"
  | lload0 => "lload_0"
  | lload1 => "lload_1"
  | lload2 => "lload_2"
  | lload3 => "lload_3"
  | fload0 => "fload_0"
  | fload1 => "fload_1"
  | fload2 => "fload_2"
  | fload3 => "fload_3"
  | dload0 => "dload_0"
  | dload1 => "dload_1"
  | dload2 => "dload_2"
  | dload3 => "dload_3"
  | aload0 => "aload_0"
  | aload1 => "aload_1"
  | aload2 => "aload_2"
  | aload3 => "aload_3"
  | iaload => "iaload"
  | laload => "laload"
  | faload => "faload"
  | daload => "daload"
  | aaload => "aaload"
  | baload => "baload"
  | caload => "caload"
  | saload => "saload"
  | istore => "istore"
  | lstore => "lstore"
  | fstore => "fstore"
  | dstore => "dstore"
  | astore => "astore"
  | istore0 => "istore_0"
  | istore1 => "istore_1"
  | istore2 => "istore_2"
  | istore3 => "istore_3"
  | lstore0 => "lstore_0"
  | lstore1 => "lstore_1"
  | lstore2 => "lstore_2"
  | lstore3 => "lstore_3"
  | fstore0 => "fstore_0"
  | fstore1 => "fstore_1"
  | fstore2 => "fstore_2"
  | fstore3 => "fstore_3"
  | dstore0 => "dstore_0"
  | dstore1 => "dstore_1"
  | dstore2 => "dstore_2"
  | dstore3 => "dstore_3"
  | astore0 => "astore_0"
  | astore1 => "astore_1"
  | astore2 => "astore_2"
  | astore3 => "astore_3"
  | iastore => "iastore"
  | lastore => "lastore"
  | fastore => "fastore"
  | dastore => "dastore"
  | aastore => "aastore"
  | bastore => "bastore"
  | castore => "castore"
  | sastore => "sastore"
  | pop => "pop"
  | pop2 => "pop2"
  | dup => "dup"
  | dupX1 => "dup_x1"
  | dupX2 => "dup_x2"
  | dup2 => "dup2"
  | dup2X1 => "dup2_x1"
  | dup2X2 => "dup2_x2"
  | swap => "swap"
  | iadd => "iadd"
  | ladd => "ladd"
  | fadd => "fadd"
  | dadd => "dadd"
  | isub => "isub"
  | lsub => "lsub"
  | fsub => "fsub"
  | dsub => "dsub"
  | imul => "imul"
  | lmul => "lmul"
  | fmul => "fmul"
  | dmul => "dmul"
  | idiv => "idiv"
  | ldiv => "ldiv"
  | fdiv => "fdiv"
  | ddiv => "ddiv"
  | irem => "irem"
  | lrem => "lrem"
  | frem => "frem"
  | drem => "drem"
  | ineg => "ineg"
  | lneg => "lneg"
  | fneg => "fneg"
  | dneg => "dneg"
  | ishl => "ishl"
  | lshl => "lshl"
  | ishr => "ishr"
  | lshr => "lshr"
  | iushr => "iushr"
  | lushr => "lushr"
  | iand => "iand"
  | land => "land"
  | ior => "ior"
  | lor => "lor"
  | ixor => "ixor"
  | lxor => "lxor"
  | iinc => "iinc"
  | i2l => "i2l"
  | i2f => "i2f"
  | i2d => "i2d"
  | l2i => "l2i"
  | l2f => "l2f"
  | l2d => "l2d"
  | f2i => "f2i"
  | f2l => "f2l"
  | f2d => "f2d"
  | d2i => "d2i"
  | d2l => "d2l"
  | d2f => "d2f"
  | i2b => "i2b"
  | i2c => "i2c"
  | i2s => "i2s"
  | lcmp => "lcmp"
  | fcmpl => "fcmpl"
  | fcmpg => "fcmpg"
  | dcmpl => "dcmpl"
  | dcmpg => "dcmpg"
  | ifeq => "ifeq"
  | ifne => "ifne"
  | iflt => "iflt"
  | ifge => "ifge"
  | ifgt => "ifgt"
  | ifle => "ifle"
  | ifIcmpeq => "if_icmpeq"
  | ifIcmpne => "if_icmpne"
  | ifIcmplt => "if_icmplt"
  | ifIcmpge => "if_icmpge"
  | ifIcmpgt => "if_icmpgt"
  | ifIcmple => "if_icmple"
  | ifAcmpeq => "if_acmpeq"
  | ifAcmpne => "if_acmpne"
  | goto => "goto"
  | jsr => "jsr"
  | ret => "ret"
  | tableswitch => "tableswitch"
  | lookupswitch => "lookupswitch"
  | ireturn => "ireturn"
  | lreturn => "lreturn"
  | freturn => "freturn"
  | dreturn => "dreturn"
  | areturn => "areturn"
  | returnVoid => "return"
  | getstatic => "getstatic"
  | putstatic => "putstatic"
  | getfield => "getfield"
  | putfield => "putfield"
  | invokevirtual => "invokevirtual"
  | invokespecial => "invokespecial"
  | invokestatic => "invokestatic"
  | invokeinterface => "invokeinterface"
  | invokedynamic => "invokedynamic"
  | new => "new"
  | newarray => "newarray"
  | anewarray => "anewarray"
  | arraylength => "arraylength"
  | athrow => "athrow"
  | checkcast => "checkcast"
  | instanceof => "instanceof"
  | monitorenter => "monitorenter"
  | monitorexit => "monitorexit"
  | wide => "wide"
  | multianewarray => "multianewarray"
  | ifnull => "ifnull"
  | ifnonnull => "ifnonnull"
  | gotoW => "goto_w"
  | jsrW => "jsr_w"
  | breakpoint => "breakpoint"
  | impdep1 => "impdep1"
  | impdep2 => "impdep2"

instance : Ord Opcode := ⟨compareOn fun opcode => opcode.byte.toNat⟩

instance : Std.TransOrd Opcode :=
  inferInstanceAs (Std.TransCmp (compareOn fun opcode : Opcode => opcode.byte.toNat))

def capitalized (word : List Char) : List Char :=
  match word with
  | [] => []
  | first :: rest => first.toUpper :: rest

/-- A mnemonic without its underscores, each part starting with a capital. -/
def titled (chars : List Char) : List Char :=
  match chars with
  | [] => []
  | '_' :: rest => capitalized (titled rest)
  | char :: rest => char :: titled rest

def name (opcode : Opcode) : String := String.ofList (capitalized (titled opcode.mnemonic.toList))

def ofName? (name : String) : Option Opcode := all.find? fun opcode => opcode.name == name

end Opcode

end MethodFlow
