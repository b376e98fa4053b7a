/-!
# Opcodes

The instruction set of the Java virtual machine as the analysis sees it: every opcode with its mnemonic, its
encoding, the operand form its instruction takes and the way it passes control on. The table gives each opcode
its own row, so no opcode is classified by default.
-/

namespace ProbePoints

/-- The operand form of an instruction. -/
inductive Form where
  | plain | int | var | type | field | method | invokeDynamic | jump | ldc | iinc
  | tableSwitch | lookupSwitch | multiArray
  deriving DecidableEq, Repr

/-- The name of a form in messages and documents. -/
def Form.name : Form → String
  | .plain => "insn"
  | .int => "int"
  | .var => "var"
  | .type => "type"
  | .field => "field"
  | .method => "method"
  | .invokeDynamic => "invokedynamic"
  | .jump => "jump"
  | .ldc => "ldc"
  | .iinc => "iinc"
  | .tableSwitch => "tableswitch"
  | .lookupSwitch => "lookupswitch"
  | .multiArray => "multianewarray"

/-- How an instruction passes control on. -/
inductive Flow where
  | other | call | conditionalJump | unconditionalJump | switch | terminal | subroutine
  deriving DecidableEq, Repr

/-- The name of a kind of flow. -/
def Flow.name : Flow → String
  | .other => "other"
  | .call => "call"
  | .conditionalJump => "conditional-jump"
  | .unconditionalJump => "unconditional-jump"
  | .switch => "switch"
  | .terminal => "terminal"
  | .subroutine => "subroutine"

/-- Control can reach the next instruction after one of this kind. -/
def Flow.continues : Flow → Bool
  | .other | .call | .conditionalJump => true
  | .unconditionalJump | .switch | .terminal | .subroutine => false

/-- An instruction of the virtual machine, by mnemonic. -/
inductive Opcode where
  | nop | aconstNull | iconstM1 | iconst0 | iconst1 | iconst2 | iconst3 | iconst4 | iconst5
  | lconst0 | lconst1 | fconst0 | fconst1 | fconst2 | dconst0 | dconst1 | bipush | sipush | ldc
  | iload | lload | fload | dload | aload | iaload | laload | faload | daload | aaload | baload
  | caload | saload | istore | lstore | fstore | dstore | astore | iastore | lastore | fastore
  | dastore | aastore | bastore | castore | sastore | pop | pop2 | dup | dupX1 | dupX2 | dup2
  | dup2X1 | dup2X2 | swap | iadd | ladd | fadd | dadd | isub | lsub | fsub | dsub | imul | lmul
  | fmul | dmul | idiv | ldiv | fdiv | ddiv | irem | lrem | frem | drem | ineg | lneg | fneg | dneg
  | ishl | lshl | ishr | lshr | iushr | lushr | iand | land | ior | lor | ixor | lxor | iinc | i2l
  | i2f | i2d | l2i | l2f | l2d | f2i | f2l | f2d | d2i | d2l | d2f | i2b | i2c | i2s | lcmp | fcmpl
  | fcmpg | dcmpl | dcmpg | ifeq | ifne | iflt | ifge | ifgt | ifle | ifIcmpeq | ifIcmpne | ifIcmplt
  | ifIcmpge | ifIcmpgt | ifIcmple | ifAcmpeq | ifAcmpne | goto | jsr | ret | tableswitch
  | lookupswitch | ireturn | lreturn | freturn | dreturn | areturn | returnVoid | getstatic
  | putstatic | getfield | putfield | invokevirtual | invokespecial | invokestatic | invokeinterface
  | invokedynamic | newObject | newarray | anewarray | arraylength | athrow | checkcast | instanceof
  | monitorenter | monitorexit | multianewarray | ifnull | ifnonnull | gotoW | jsrW
  deriving DecidableEq, Repr

namespace Opcode

/-- What the instruction set says of one opcode. -/
structure Info where
  /-- The mnemonic. -/
  name : String
  /-- The encoding. -/
  code : UInt8
  /-- The operand form. -/
  form : Form
  /-- The kind of flow. -/
  flow : Flow

/-- The instruction table. -/
def info : Opcode → Info
  | .nop => ⟨"NOP", 0x00, .plain, .other⟩
  | .aconstNull => ⟨"ACONST_NULL", 0x01, .plain, .other⟩
  | .iconstM1 => ⟨"ICONST_M1", 0x02, .plain, .other⟩
  | .iconst0 => ⟨"ICONST_0", 0x03, .plain, .other⟩
  | .iconst1 => ⟨"ICONST_1", 0x04, .plain, .other⟩
  | .iconst2 => ⟨"ICONST_2", 0x05, .plain, .other⟩
  | .iconst3 => ⟨"ICONST_3", 0x06, .plain, .other⟩
  | .iconst4 => ⟨"ICONST_4", 0x07, .plain, .other⟩
  | .iconst5 => ⟨"ICONST_5", 0x08, .plain, .other⟩
  | .lconst0 => ⟨"LCONST_0", 0x09, .plain, .other⟩
  | .lconst1 => ⟨"LCONST_1", 0x0a, .plain, .other⟩
  | .fconst0 => ⟨"FCONST_0", 0x0b, .plain, .other⟩
  | .fconst1 => ⟨"FCONST_1", 0x0c, .plain, .other⟩
  | .fconst2 => ⟨"FCONST_2", 0x0d, .plain, .other⟩
  | .dconst0 => ⟨"DCONST_0", 0x0e, .plain, .other⟩
  | .dconst1 => ⟨"DCONST_1", 0x0f, .plain, .other⟩
  | .bipush => ⟨"BIPUSH", 0x10, .int, .other⟩
  | .sipush => ⟨"SIPUSH", 0x11, .int, .other⟩
  | .ldc => ⟨"LDC", 0x12, .ldc, .other⟩
  | .iload => ⟨"ILOAD", 0x15, .var, .other⟩
  | .lload => ⟨"LLOAD", 0x16, .var, .other⟩
  | .fload => ⟨"FLOAD", 0x17, .var, .other⟩
  | .dload => ⟨"DLOAD", 0x18, .var, .other⟩
  | .aload => ⟨"ALOAD", 0x19, .var, .other⟩
  | .iaload => ⟨"IALOAD", 0x2e, .plain, .other⟩
  | .laload => ⟨"LALOAD", 0x2f, .plain, .other⟩
  | .faload => ⟨"FALOAD", 0x30, .plain, .other⟩
  | .daload => ⟨"DALOAD", 0x31, .plain, .other⟩
  | .aaload => ⟨"AALOAD", 0x32, .plain, .other⟩
  | .baload => ⟨"BALOAD", 0x33, .plain, .other⟩
  | .caload => ⟨"CALOAD", 0x34, .plain, .other⟩
  | .saload => ⟨"SALOAD", 0x35, .plain, .other⟩
  | .istore => ⟨"ISTORE", 0x36, .var, .other⟩
  | .lstore => ⟨"LSTORE", 0x37, .var, .other⟩
  | .fstore => ⟨"FSTORE", 0x38, .var, .other⟩
  | .dstore => ⟨"DSTORE", 0x39, .var, .other⟩
  | .astore => ⟨"ASTORE", 0x3a, .var, .other⟩
  | .iastore => ⟨"IASTORE", 0x4f, .plain, .other⟩
  | .lastore => ⟨"LASTORE", 0x50, .plain, .other⟩
  | .fastore => ⟨"FASTORE", 0x51, .plain, .other⟩
  | .dastore => ⟨"DASTORE", 0x52, .plain, .other⟩
  | .aastore => ⟨"AASTORE", 0x53, .plain, .other⟩
  | .bastore => ⟨"BASTORE", 0x54, .plain, .other⟩
  | .castore => ⟨"CASTORE", 0x55, .plain, .other⟩
  | .sastore => ⟨"SASTORE", 0x56, .plain, .other⟩
  | .pop => ⟨"POP", 0x57, .plain, .other⟩
  | .pop2 => ⟨"POP2", 0x58, .plain, .other⟩
  | .dup => ⟨"DUP", 0x59, .plain, .other⟩
  | .dupX1 => ⟨"DUP_X1", 0x5a, .plain, .other⟩
  | .dupX2 => ⟨"DUP_X2", 0x5b, .plain, .other⟩
  | .dup2 => ⟨"DUP2", 0x5c, .plain, .other⟩
  | .dup2X1 => ⟨"DUP2_X1", 0x5d, .plain, .other⟩
  | .dup2X2 => ⟨"DUP2_X2", 0x5e, .plain, .other⟩
  | .swap => ⟨"SWAP", 0x5f, .plain, .other⟩
  | .iadd => ⟨"IADD", 0x60, .plain, .other⟩
  | .ladd => ⟨"LADD", 0x61, .plain, .other⟩
  | .fadd => ⟨"FADD", 0x62, .plain, .other⟩
  | .dadd => ⟨"DADD", 0x63, .plain, .other⟩
  | .isub => ⟨"ISUB", 0x64, .plain, .other⟩
  | .lsub => ⟨"LSUB", 0x65, .plain, .other⟩
  | .fsub => ⟨"FSUB", 0x66, .plain, .other⟩
  | .dsub => ⟨"DSUB", 0x67, .plain, .other⟩
  | .imul => ⟨"IMUL", 0x68, .plain, .other⟩
  | .lmul => ⟨"LMUL", 0x69, .plain, .other⟩
  | .fmul => ⟨"FMUL", 0x6a, .plain, .other⟩
  | .dmul => ⟨"DMUL", 0x6b, .plain, .other⟩
  | .idiv => ⟨"IDIV", 0x6c, .plain, .other⟩
  | .ldiv => ⟨"LDIV", 0x6d, .plain, .other⟩
  | .fdiv => ⟨"FDIV", 0x6e, .plain, .other⟩
  | .ddiv => ⟨"DDIV", 0x6f, .plain, .other⟩
  | .irem => ⟨"IREM", 0x70, .plain, .other⟩
  | .lrem => ⟨"LREM", 0x71, .plain, .other⟩
  | .frem => ⟨"FREM", 0x72, .plain, .other⟩
  | .drem => ⟨"DREM", 0x73, .plain, .other⟩
  | .ineg => ⟨"INEG", 0x74, .plain, .other⟩
  | .lneg => ⟨"LNEG", 0x75, .plain, .other⟩
  | .fneg => ⟨"FNEG", 0x76, .plain, .other⟩
  | .dneg => ⟨"DNEG", 0x77, .plain, .other⟩
  | .ishl => ⟨"ISHL", 0x78, .plain, .other⟩
  | .lshl => ⟨"LSHL", 0x79, .plain, .other⟩
  | .ishr => ⟨"ISHR", 0x7a, .plain, .other⟩
  | .lshr => ⟨"LSHR", 0x7b, .plain, .other⟩
  | .iushr => ⟨"IUSHR", 0x7c, .plain, .other⟩
  | .lushr => ⟨"LUSHR", 0x7d, .plain, .other⟩
  | .iand => ⟨"IAND", 0x7e, .plain, .other⟩
  | .land => ⟨"LAND", 0x7f, .plain, .other⟩
  | .ior => ⟨"IOR", 0x80, .plain, .other⟩
  | .lor => ⟨"LOR", 0x81, .plain, .other⟩
  | .ixor => ⟨"IXOR", 0x82, .plain, .other⟩
  | .lxor => ⟨"LXOR", 0x83, .plain, .other⟩
  | .iinc => ⟨"IINC", 0x84, .iinc, .other⟩
  | .i2l => ⟨"I2L", 0x85, .plain, .other⟩
  | .i2f => ⟨"I2F", 0x86, .plain, .other⟩
  | .i2d => ⟨"I2D", 0x87, .plain, .other⟩
  | .l2i => ⟨"L2I", 0x88, .plain, .other⟩
  | .l2f => ⟨"L2F", 0x89, .plain, .other⟩
  | .l2d => ⟨"L2D", 0x8a, .plain, .other⟩
  | .f2i => ⟨"F2I", 0x8b, .plain, .other⟩
  | .f2l => ⟨"F2L", 0x8c, .plain, .other⟩
  | .f2d => ⟨"F2D", 0x8d, .plain, .other⟩
  | .d2i => ⟨"D2I", 0x8e, .plain, .other⟩
  | .d2l => ⟨"D2L", 0x8f, .plain, .other⟩
  | .d2f => ⟨"D2F", 0x90, .plain, .other⟩
  | .i2b => ⟨"I2B", 0x91, .plain, .other⟩
  | .i2c => ⟨"I2C", 0x92, .plain, .other⟩
  | .i2s => ⟨"I2S", 0x93, .plain, .other⟩
  | .lcmp => ⟨"LCMP", 0x94, .plain, .other⟩
  | .fcmpl => ⟨"FCMPL", 0x95, .plain, .other⟩
  | .fcmpg => ⟨"FCMPG", 0x96, .plain, .other⟩
  | .dcmpl => ⟨"DCMPL", 0x97, .plain, .other⟩
  | .dcmpg => ⟨"DCMPG", 0x98, .plain, .other⟩
  | .ifeq => ⟨"IFEQ", 0x99, .jump, .conditionalJump⟩
  | .ifne => ⟨"IFNE", 0x9a, .jump, .conditionalJump⟩
  | .iflt => ⟨"IFLT", 0x9b, .jump, .conditionalJump⟩
  | .ifge => ⟨"IFGE", 0x9c, .jump, .conditionalJump⟩
  | .ifgt => ⟨"IFGT", 0x9d, .jump, .conditionalJump⟩
  | .ifle => ⟨"IFLE", 0x9e, .jump, .conditionalJump⟩
  | .ifIcmpeq => ⟨"IF_ICMPEQ", 0x9f, .jump, .conditionalJump⟩
  | .ifIcmpne => ⟨"IF_ICMPNE", 0xa0, .jump, .conditionalJump⟩
  | .ifIcmplt => ⟨"IF_ICMPLT", 0xa1, .jump, .conditionalJump⟩
  | .ifIcmpge => ⟨"IF_ICMPGE", 0xa2, .jump, .conditionalJump⟩
  | .ifIcmpgt => ⟨"IF_ICMPGT", 0xa3, .jump, .conditionalJump⟩
  | .ifIcmple => ⟨"IF_ICMPLE", 0xa4, .jump, .conditionalJump⟩
  | .ifAcmpeq => ⟨"IF_ACMPEQ", 0xa5, .jump, .conditionalJump⟩
  | .ifAcmpne => ⟨"IF_ACMPNE", 0xa6, .jump, .conditionalJump⟩
  | .goto => ⟨"GOTO", 0xa7, .jump, .unconditionalJump⟩
  | .jsr => ⟨"JSR", 0xa8, .jump, .subroutine⟩
  | .ret => ⟨"RET", 0xa9, .var, .subroutine⟩
  | .tableswitch => ⟨"TABLESWITCH", 0xaa, .tableSwitch, .switch⟩
  | .lookupswitch => ⟨"LOOKUPSWITCH", 0xab, .lookupSwitch, .switch⟩
  | .ireturn => ⟨"IRETURN", 0xac, .plain, .terminal⟩
  | .lreturn => ⟨"LRETURN", 0xad, .plain, .terminal⟩
  | .freturn => ⟨"FRETURN", 0xae, .plain, .terminal⟩
  | .dreturn => ⟨"DRETURN", 0xaf, .plain, .terminal⟩
  | .areturn => ⟨"ARETURN", 0xb0, .plain, .terminal⟩
  | .returnVoid => ⟨"RETURN", 0xb1, .plain, .terminal⟩
  | .getstatic => ⟨"GETSTATIC", 0xb2, .field, .other⟩
  | .putstatic => ⟨"PUTSTATIC", 0xb3, .field, .other⟩
  | .getfield => ⟨"GETFIELD", 0xb4, .field, .other⟩
  | .putfield => ⟨"PUTFIELD", 0xb5, .field, .other⟩
  | .invokevirtual => ⟨"INVOKEVIRTUAL", 0xb6, .method, .call⟩
  | .invokespecial => ⟨"INVOKESPECIAL", 0xb7, .method, .call⟩
  | .invokestatic => ⟨"INVOKESTATIC", 0xb8, .method, .call⟩
  | .invokeinterface => ⟨"INVOKEINTERFACE", 0xb9, .method, .call⟩
  | .invokedynamic => ⟨"INVOKEDYNAMIC", 0xba, .invokeDynamic, .call⟩
  | .newObject => ⟨"NEW", 0xbb, .type, .other⟩
  | .newarray => ⟨"NEWARRAY", 0xbc, .int, .other⟩
  | .anewarray => ⟨"ANEWARRAY", 0xbd, .type, .other⟩
  | .arraylength => ⟨"ARRAYLENGTH", 0xbe, .plain, .other⟩
  | .athrow => ⟨"ATHROW", 0xbf, .plain, .terminal⟩
  | .checkcast => ⟨"CHECKCAST", 0xc0, .type, .other⟩
  | .instanceof => ⟨"INSTANCEOF", 0xc1, .type, .other⟩
  | .monitorenter => ⟨"MONITORENTER", 0xc2, .plain, .other⟩
  | .monitorexit => ⟨"MONITOREXIT", 0xc3, .plain, .other⟩
  | .multianewarray => ⟨"MULTIANEWARRAY", 0xc5, .multiArray, .other⟩
  | .ifnull => ⟨"IFNULL", 0xc6, .jump, .conditionalJump⟩
  | .ifnonnull => ⟨"IFNONNULL", 0xc7, .jump, .conditionalJump⟩
  | .gotoW => ⟨"GOTO_W", 0xc8, .jump, .unconditionalJump⟩
  | .jsrW => ⟨"JSR_W", 0xc9, .jump, .subroutine⟩

/-- The mnemonic of an opcode. -/
def name (op : Opcode) : String := op.info.name

/-- The encoding of an opcode. -/
def code (op : Opcode) : UInt8 := op.info.code

/-- The operand form an opcode takes. -/
def form (op : Opcode) : Form := op.info.form

/-- The kind of flow of an opcode. -/
def flow (op : Opcode) : Flow := op.info.flow

/-- Every opcode, in the order of the encodings. -/
def all : List Opcode :=
  [.nop, .aconstNull, .iconstM1, .iconst0, .iconst1, .iconst2, .iconst3, .iconst4, .iconst5,
   .lconst0, .lconst1, .fconst0, .fconst1, .fconst2, .dconst0, .dconst1, .bipush, .sipush, .ldc,
   .iload, .lload, .fload, .dload, .aload, .iaload, .laload, .faload, .daload, .aaload, .baload,
   .caload, .saload, .istore, .lstore, .fstore, .dstore, .astore, .iastore, .lastore, .fastore,
   .dastore, .aastore, .bastore, .castore, .sastore, .pop, .pop2, .dup, .dupX1, .dupX2, .dup2,
   .dup2X1, .dup2X2, .swap, .iadd, .ladd, .fadd, .dadd, .isub, .lsub, .fsub, .dsub, .imul, .lmul,
   .fmul, .dmul, .idiv, .ldiv, .fdiv, .ddiv, .irem, .lrem, .frem, .drem, .ineg, .lneg, .fneg, .dneg,
   .ishl, .lshl, .ishr, .lshr, .iushr, .lushr, .iand, .land, .ior, .lor, .ixor, .lxor, .iinc, .i2l,
   .i2f, .i2d, .l2i, .l2f, .l2d, .f2i, .f2l, .f2d, .d2i, .d2l, .d2f, .i2b, .i2c, .i2s, .lcmp,
   .fcmpl, .fcmpg, .dcmpl, .dcmpg, .ifeq, .ifne, .iflt, .ifge, .ifgt, .ifle, .ifIcmpeq, .ifIcmpne,
   .ifIcmplt, .ifIcmpge, .ifIcmpgt, .ifIcmple, .ifAcmpeq, .ifAcmpne, .goto, .jsr, .ret,
   .tableswitch, .lookupswitch, .ireturn, .lreturn, .freturn, .dreturn, .areturn, .returnVoid,
   .getstatic, .putstatic, .getfield, .putfield, .invokevirtual, .invokespecial, .invokestatic,
   .invokeinterface, .invokedynamic, .newObject, .newarray, .anewarray, .arraylength, .athrow,
   .checkcast, .instanceof, .monitorenter, .monitorexit, .multianewarray, .ifnull, .ifnonnull,
   .gotoW, .jsrW]

theorem mem_all (op : Opcode) : op ∈ all := by
  cases op <;> decide

/-- The opcode with a mnemonic. -/
def ofName? (name : String) : Option Opcode := all.find? (fun op => op.name == name)

/-- The opcode with an encoding. -/
def ofCode? (code : UInt8) : Option Opcode := all.find? (fun op => op.code == code)

/-- The mnemonic for an encoding, also where no opcode has it. -/
def nameOfCode (code : UInt8) : String :=
  match ofCode? code with
  | some op => op.name
  | none => "UNKNOWN"

end Opcode

end ProbePoints
