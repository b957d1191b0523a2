import DinoRisc.Arm64.Instruction
import DinoRisc.Library.A64Aliases

/-!
What an instruction of the back end means, opcode by opcode. Registers are the physical ones and
one unbounded register per virtual register.
-/

namespace DinoRisc.Arm64

open ByteMemory
open A64 (Flags subFlags)

inductive Place
  | physical (reg : Register)
  | virtual (vreg : VirtualRegister)
  deriving DecidableEq, Repr

@[ext]
structure Machine where
  reg : Place → BitVec 64
  flags : Flags
  mem : Memory 64

inductive Outcome
  | next (m : Machine)
  | jump (m : Machine) (target : BitVec 64)

def Operand.place : Operand → Option Place
  | .register reg => some (.physical reg)
  | .virtual vreg => some (.virtual vreg)
  | .immediate _ => none

namespace Machine

def read (m : Machine) : Operand → BitVec 64
  | .register reg => m.reg (.physical reg)
  | .virtual vreg => m.reg (.virtual vreg)
  | .immediate value => value

def write (m : Machine) (dest : Operand) (value : BitVec 64) : Option Machine :=
  dest.place.map fun p => { m with reg := Function.update m.reg p value }

end Machine

def Condition.holds (f : Flags) : Condition → Bool
  | eq => f.z
  | ne => !f.z
  | cs => f.c
  | cc => !f.c
  | mi => f.n
  | pl => !f.n
  | vs => f.v
  | vc => !f.v
  | hi => f.c && !f.z
  | ls => !(f.c && !f.z)
  | ge => f.n == f.v
  | lt => f.n != f.v
  | gt => f.n == f.v && !f.z
  | le => !(f.n == f.v && !f.z)
  | al | nv => true

namespace DataSize

/-- The operand width of a computation: the smaller sizes use 32-bit registers. -/
def width : DataSize → ℕ
  | x => 64
  | _ => 32

def bytes : DataSize → ℕ
  | b => 1 | h => 2 | w => 4 | x => 8

/-- The result of a computation of this size; the upper half of the register is zeroed. -/
def result (size : DataSize) (value : BitVec size.width) : BitVec 64 := value.setWidth 64

end DataSize

section

variable {n : ℕ}

def Opcode.compute (a b : BitVec n) : Opcode → Option (BitVec n)
  | .add => some (a + b)
  | .sub => some (a - b)
  | .mul => some (a * b)
  | .udiv => some (a / b)
  | .sdiv => some (a.sdiv b)
  | .and => some (a &&& b)
  | .orr => some (a ||| b)
  | .eor => some (a ^^^ b)
  | .lsl => some (a <<< (b.toNat % n))
  | .lsr => some (a >>> (b.toNat % n))
  | .asr => some (a.sshiftRight (b.toNat % n))
  | _ => none

def Opcode.convert (a : BitVec n) : Opcode → Option (BitVec n)
  | .mov => some a
  | .movn => some (~~~a)
  | .sxtb => some ((a.setWidth 8).signExtend n)
  | .sxth => some ((a.setWidth 16).signExtend n)
  | .sxtw => some ((a.setWidth 32).signExtend n)
  | .uxtb => some ((a.setWidth 8).setWidth n)
  | .uxth => some ((a.setWidth 16).setWidth n)
  | _ => none

end

def Machine.compare (m : Machine) (size : DataSize) (a b : Operand) : Machine :=
  { m with flags := subFlags ((m.read a).setWidth size.width) ((m.read b).setWidth size.width) }

def Machine.address (m : Machine) (baseReg : Operand) (offset : BitVec 32) : BitVec 64 :=
  m.read baseReg + offset.signExtend 64

def exec (inst : Instruction) (m : Machine) : Option Outcome :=
  match inst with
  | .threeOperand .cmp size _ src1 src2 => some (.next (m.compare size src1 src2))
  | .threeOperand opcode size dest src1 src2 => do
    let value ← opcode.compute ((m.read src1).setWidth size.width) ((m.read src2).setWidth size.width)
    (m.write dest (size.result value)).map .next
  | .twoOperand .cmp size dest src => some (.next (m.compare size dest src))
  | .twoOperand .ret _ _ src => some (.jump m (m.read src))
  | .twoOperand opcode size dest src => do
    let value ← opcode.convert ((m.read src).setWidth size.width)
    (m.write dest (size.result value)).map .next
  | .memory .ldr size reg baseReg offset =>
    (m.write reg (load m.mem (m.address baseReg offset) size.bytes)).map .next
  | .memory .str size reg baseReg offset =>
    some (.next { m with mem := store m.mem (m.address baseReg offset) size.bytes (m.read reg) })
  | .moveWide .movz size dest imm16 shift =>
    (m.write dest (size.result (imm16.setWidth size.width <<< shift.toNat))).map .next
  | .moveWide .movk size dest imm16 shift =>
    let old := (m.read dest).setWidth size.width
    (m.write dest (size.result ((old &&& ~~~((0xFFFF#16).setWidth size.width <<< shift.toNat)) |||
      imm16.setWidth size.width <<< shift.toNat))).map .next
  | .conditional .cset _ dest condition =>
    (m.write dest (if condition.holds m.flags then 1#64 else 0#64)).map .next
  | .conditionalSelect .csel size dest src1 src2 condition =>
    let value := if condition.holds m.flags then m.read src1 else m.read src2
    (m.write dest (size.result (value.setWidth size.width))).map .next
  | _ => none

def run : List Instruction → Machine → Option (Machine × BitVec 64)
  | [], _ => none
  | inst :: rest, m =>
    match exec inst m with
    | some (.next m') => run rest m'
    | some (.jump m' target) => some (m', target)
    | none => none

end DinoRisc.Arm64
