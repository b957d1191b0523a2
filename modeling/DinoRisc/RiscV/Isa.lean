import DinoRisc.GuestState
import DinoRisc.RiscV.Instruction

/-!
The RV64I reference: what one instruction does to the registers, the memory and the program
counter. The operands are those of the instruction's format, with the immediate of the ISA.
-/

namespace DinoRisc.RiscV.Isa

open ByteMemory

abbrev Valid := BitVec 64 → ℕ → Bool

def alu : Opcode → Option (BitVec 64 → BitVec 64 → BitVec 64)
  | .add => some fun a b => a + b
  | .sub => some fun a b => a - b
  | .sll => some fun a b => a <<< (b.toNat % 64)
  | .slt => some fun a b => if a.slt b then 1#64 else 0#64
  | .sltu => some fun a b => if a.ult b then 1#64 else 0#64
  | .xor => some fun a b => a ^^^ b
  | .srl => some fun a b => a >>> (b.toNat % 64)
  | .sra => some fun a b => a.sshiftRight (b.toNat % 64)
  | .or => some fun a b => a ||| b
  | .and => some fun a b => a &&& b
  | .addw => some fun a b => (a.setWidth 32 + b.setWidth 32).signExtend 64
  | .subw => some fun a b => (a.setWidth 32 - b.setWidth 32).signExtend 64
  | .sllw => some fun a b => (a.setWidth 32 <<< (b.toNat % 32)).signExtend 64
  | .srlw => some fun a b => (a.setWidth 32 >>> (b.toNat % 32)).signExtend 64
  | .sraw => some fun a b => ((a.setWidth 32).sshiftRight (b.toNat % 32)).signExtend 64
  | _ => none

inductive ImmediateForm
  | alu (registerForm : Opcode)
  | load (bytes : ℕ) (sign : Bool)
  | store (bytes : ℕ)
  | branch (taken : BitVec 64 → BitVec 64 → Bool)
  | jalr

def immediateForm : Opcode → Option ImmediateForm
  | .addi => some (.alu .add) | .slti => some (.alu .slt) | .sltiu => some (.alu .sltu)
  | .xori => some (.alu .xor) | .ori => some (.alu .or) | .andi => some (.alu .and)
  | .slli => some (.alu .sll) | .srli => some (.alu .srl) | .srai => some (.alu .sra)
  | .addiw => some (.alu .addw) | .slliw => some (.alu .sllw)
  | .srliw => some (.alu .srlw) | .sraiw => some (.alu .sraw)
  | .lb => some (.load 1 true) | .lh => some (.load 2 true) | .lw => some (.load 4 true)
  | .ld => some (.load 8 true)
  | .lbu => some (.load 1 false) | .lhu => some (.load 2 false) | .lwu => some (.load 4 false)
  | .sb => some (.store 1) | .sh => some (.store 2) | .sw => some (.store 4)
  | .sd => some (.store 8)
  | .beq => some (.branch fun a b => a = b)
  | .bne => some (.branch fun a b => a ≠ b)
  | .blt => some (.branch fun a b => a.slt b)
  | .bge => some (.branch fun a b => b.sle a)
  | .bltu => some (.branch fun a b => a.ult b)
  | .bgeu => some (.branch fun a b => b.ule a)
  | .jalr => some .jalr
  | _ => none

def extend (n : ℕ) (sign : Bool) (v : BitVec 64) : BitVec 64 :=
  if sign then (v.setWidth (8 * n)).signExtend 64 else v

/-- The instructions with two registers `r` and `s`, in the order of the format, and an
immediate. -/
def stepImmediate (valid : Valid) (inst : Instruction) (r s : ℕ) (imm : BitVec 64) (g : Guest) :
    Option (Guest × BitVec 64) :=
  let next := inst.address + 4#64
  match immediateForm inst.opcode with
  | some (.alu op) => (alu op).map fun f => (g.writeRegister r (f (g.reg s) imm), next)
  | some (.load n sign) =>
    let a := g.reg s + imm
    if valid a n then some (g.writeRegister r (extend n sign (load g.mem a n)), next) else none
  | some (.store n) =>
    let a := g.reg r + imm
    if valid a n then some ({ g with mem := store g.mem a n (g.reg s) }, next) else none
  | some (.branch taken) =>
    some (g, if taken (g.reg r) (g.reg s) then inst.address + imm else next)
  | some .jalr => some (g.writeRegister r next, (g.reg s + imm) &&& ~~~1#64)
  | none => none

def step (valid : Valid) (inst : Instruction) (g : Guest) : Option (Guest × BitVec 64) :=
  let next := inst.address + 4#64
  match inst.operands with
  | [.register rd, .register rs1, .register rs2] =>
    (alu inst.opcode).map fun f => (g.writeRegister rd (f (g.reg rs1) (g.reg rs2)), next)
  | [.register r, .register s, .immediate imm] => stepImmediate valid inst r s imm g
  | [.register rd, .immediate imm] =>
    match inst.opcode with
    | .lui => some (g.writeRegister rd imm, next)
    | .auipc => some (g.writeRegister rd (inst.address + imm), next)
    | .jal => some (g.writeRegister rd next, inst.address + imm)
    | _ => none
  | _ => none

def steps (valid : Valid) : List Instruction → Guest → Option Guest
  | [], g => some g
  | i :: is, g => (step valid i g).bind fun r => steps valid is r.1

section

variable {valid : Valid} {inst : Instruction} {g : Guest}

theorem step_register {rd rs1 rs2 : ℕ} {f : BitVec 64 → BitVec 64 → BitVec 64}
    (hops : inst.operands = [.register rd, .register rs1, .register rs2])
    (hf : alu inst.opcode = some f) :
    step valid inst g =
      some (g.writeRegister rd (f (g.reg rs1) (g.reg rs2)), inst.address + 4#64) := by
  simp [step, hops, hf]

theorem step_immediate {r s : ℕ} {imm : BitVec 64}
    (hops : inst.operands = [.register r, .register s, .immediate imm]) :
    step valid inst g = stepImmediate valid inst r s imm g := by
  simp [step, hops]

theorem step_alu {rd rs1 : ℕ} {imm : BitVec 64} {op : Opcode}
    {f : BitVec 64 → BitVec 64 → BitVec 64}
    (hops : inst.operands = [.register rd, .register rs1, .immediate imm])
    (hform : immediateForm inst.opcode = some (.alu op)) (hf : alu op = some f) :
    step valid inst g = some (g.writeRegister rd (f (g.reg rs1) imm), inst.address + 4#64) := by
  simp [step_immediate hops, stepImmediate, hform, hf]

theorem step_load {rd rs1 n : ℕ} {sign : Bool} {imm : BitVec 64}
    (hops : inst.operands = [.register rd, .register rs1, .immediate imm])
    (hform : immediateForm inst.opcode = some (.load n sign)) :
    step valid inst g = if valid (g.reg rs1 + imm) n then
      some (g.writeRegister rd (extend n sign (load g.mem (g.reg rs1 + imm) n)), inst.address + 4#64)
    else none := by
  simp [step_immediate hops, stepImmediate, hform]

theorem step_store {rs1 rs2 n : ℕ} {imm : BitVec 64}
    (hops : inst.operands = [.register rs1, .register rs2, .immediate imm])
    (hform : immediateForm inst.opcode = some (.store n)) :
    step valid inst g = if valid (g.reg rs1 + imm) n then
      some ({ g with mem := store g.mem (g.reg rs1 + imm) n (g.reg rs2) }, inst.address + 4#64)
    else none := by
  simp [step_immediate hops, stepImmediate, hform]

end

end DinoRisc.RiscV.Isa
