import DinoRisc.Error

namespace DinoRisc

namespace Arm64

instance neZero_registers : NeZero 31 := ⟨by decide⟩

/-- `X0` to `X30`, in the order of the enumeration, and the stack pointer. -/
inductive Register
  | x (n : Fin 31)
  | xsp
  deriving DecidableEq, Repr

inductive Opcode
  | add | sub | mul | udiv | sdiv
  | and | orr | eor | lsl | lsr | asr
  | ldr | str
  | cmp | b | b_eq | b_ne | b_lt | b_le | b_gt | b_ge
  | csel | cset
  | sxtb | sxth | sxtw | uxtb | uxth
  | mov | movn | movz | movk | ret
  deriving DecidableEq, Repr

inductive DataSize
  | b | h | w | x
  deriving DecidableEq, Repr

inductive Condition
  | eq | ne | cs | cc | mi | pl | vs | vc | hi | ls | ge | lt | gt | le | al | nv
  deriving DecidableEq, Repr

def Condition.code : Condition → BitVec 4
  | eq => 0b0000#4 | ne => 0b0001#4 | cs => 0b0010#4 | cc => 0b0011#4
  | mi => 0b0100#4 | pl => 0b0101#4 | vs => 0b0110#4 | vc => 0b0111#4
  | hi => 0b1000#4 | ls => 0b1001#4 | ge => 0b1010#4 | lt => 0b1011#4
  | gt => 0b1100#4 | le => 0b1101#4 | al => 0b1110#4 | nv => 0b1111#4

/-- A `uint32_t` of the source. A block takes at most four for each IR instruction and five for its
branch, so that the counter wraps around in no block of fewer than `2 ^ 30 - 1` of them. -/
abbrev VirtualRegister := ℕ

inductive Operand
  | register (reg : Register)
  | virtual (vreg : VirtualRegister)
  | immediate (value : BitVec 64)
  deriving DecidableEq, Repr

inductive Instruction
  | threeOperand (opcode : Opcode) (size : DataSize) (dest src1 src2 : Operand)
  | twoOperand (opcode : Opcode) (size : DataSize) (dest src : Operand)
  | memory (opcode : Opcode) (size : DataSize) (reg baseReg : Operand) (offset : BitVec 32)
  | moveWide (opcode : Opcode) (size : DataSize) (dest : Operand) (imm16 : BitVec 16)
    (shift : BitVec 8)
  | branch (opcode : Opcode) (target : BitVec 64)
  | conditional (opcode : Opcode) (size : DataSize) (dest : Operand) (condition : Condition)
  | conditionalSelect (opcode : Opcode) (size : DataSize) (dest src1 src2 : Operand)
    (condition : Condition)
  deriving DecidableEq, Repr

end Arm64

open Arm64

def X0 : Operand := .register (.x 0)
def X30 : Operand := .register (.x 30)

end DinoRisc
