import DinoRisc.Error

namespace DinoRisc.RiscV

inductive Opcode
  | add | addi | addw | addiw | sub | subw
  | and | andi | or | ori | xor | xori
  | sll | slli | sllw | slliw | srl | srli | srlw | srliw | sra | srai | sraw | sraiw
  | slt | slti | sltu | sltiu
  | lb | lh | lw | ld | lbu | lhu | lwu
  | sb | sh | sw | sd
  | beq | bne | blt | bge | bltu | bgeu
  | jal | jalr
  | lui | auipc
  | ecall | ebreak
  | invalid
  deriving DecidableEq, Repr

inductive Operand
  | register (value : ℕ)
  | immediate (value : BitVec 64)
  deriving DecidableEq, Repr

structure Instruction where
  opcode : Opcode
  operands : List Operand
  rawInstruction : BitVec 32
  address : BitVec 64
  deriving DecidableEq, Repr

def opcodeToString : Opcode → String
  | .add => "ADD" | .addi => "ADDI" | .addw => "ADDW" | .addiw => "ADDIW"
  | .sub => "SUB" | .subw => "SUBW"
  | .and => "AND" | .andi => "ANDI" | .or => "OR" | .ori => "ORI"
  | .xor => "XOR" | .xori => "XORI"
  | .sll => "SLL" | .slli => "SLLI" | .sllw => "SLLW" | .slliw => "SLLIW"
  | .srl => "SRL" | .srli => "SRLI" | .srlw => "SRLW" | .srliw => "SRLIW"
  | .sra => "SRA" | .srai => "SRAI" | .sraw => "SRAW" | .sraiw => "SRAIW"
  | .slt => "SLT" | .slti => "SLTI" | .sltu => "SLTU" | .sltiu => "SLTIU"
  | .lb => "LB" | .lh => "LH" | .lw => "LW" | .ld => "LD"
  | .lbu => "LBU" | .lhu => "LHU" | .lwu => "LWU"
  | .sb => "SB" | .sh => "SH" | .sw => "SW" | .sd => "SD"
  | .beq => "BEQ" | .bne => "BNE" | .blt => "BLT" | .bge => "BGE"
  | .bltu => "BLTU" | .bgeu => "BGEU"
  | .jal => "JAL" | .jalr => "JALR"
  | .lui => "LUI" | .auipc => "AUIPC"
  | .ecall => "ECALL" | .ebreak => "EBREAK"
  | .invalid => "INVALID"

def operandToString : Operand → String
  | .register value => "x" ++ toString value
  | .immediate value => toString value.toInt

namespace Instruction

def isValid (inst : Instruction) : Bool := inst.opcode != .invalid

def toString (inst : Instruction) : String :=
  let header := "RV64I[0x" ++ zeroFill 8 (hex inst.rawInstruction.toNat) ++ " @ 0x" ++
    hex inst.address.toNat ++ "] "
  if !inst.isValid then header ++ "INVALID"
  else
    let mnemonic := header ++ opcodeToString inst.opcode
    if inst.operands.isEmpty then mnemonic
    else mnemonic ++ " " ++ ", ".intercalate (inst.operands.map operandToString)

/-- `std::get<Register>(operands[index]).value`. -/
def getRegister (inst : Instruction) (index : ℕ) : Except Error ℕ :=
  match inst.operands[index]? with
  | some (.register value) => .ok value
  | some (.immediate _) => .error .badVariantAccess
  | none => .error .outOfBounds

/-- `std::get<Immediate>(operands[index]).value`. -/
def getImmediate (inst : Instruction) (index : ℕ) : Except Error (BitVec 64) :=
  match inst.operands[index]? with
  | some (.immediate value) => .ok value
  | some (.register _) => .error .badVariantAccess
  | none => .error .outOfBounds

end Instruction

end DinoRisc.RiscV
