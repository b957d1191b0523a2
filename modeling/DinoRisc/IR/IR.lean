import Mathlib

namespace DinoRisc.IR

inductive Ty
  | i1 | i8 | i16 | i32 | i64
  deriving DecidableEq, Repr

abbrev ValueId := ℕ

inductive BinaryOpcode
  | add | sub | mul | div | divU | rem | remU
  | and | or | xor | shl | shr | sar
  | eq | ne | lt | le | gt | ge | ltU | leU | gtU | geU
  deriving DecidableEq, Repr

inductive InstructionKind
  | const (type : Ty) (value : BitVec 64)
  | binaryOp (opcode : BinaryOpcode) (type : Ty) (lhs rhs : ValueId)
  | sext (toType : Ty) (operand : ValueId)
  | zext (toType : Ty) (operand : ValueId)
  | trunc (toType : Ty) (operand : ValueId)
  | load (type : Ty) (address : ValueId)
  | store (value address : ValueId)
  | regRead (regNumber : ℕ)
  | regWrite (regNumber : ℕ) (value : ValueId)
  deriving DecidableEq, Repr

structure Instruction where
  valueId : ValueId
  kind : InstructionKind
  deriving DecidableEq, Repr

inductive Terminator
  | branch (targetBlock : BitVec 64)
  | condBranch (condition : ValueId) (trueBlock falseBlock : BitVec 64)
  | ret (value : Option ValueId)
  deriving DecidableEq, Repr

structure BasicBlock where
  instructions : List Instruction
  terminator : Terminator
  deriving DecidableEq, Repr

end DinoRisc.IR
