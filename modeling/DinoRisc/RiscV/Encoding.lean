import DinoRisc.RiscV.Instruction

/-!
The RV64I instruction formats, written from the ISA manual and independently of the decoder.
A value of `Encoding.Instr` is a legal instruction by construction: each operand has exactly the
width of its field, and branch and jump offsets are kept in halfwords because they are even.
-/

namespace DinoRisc.RiscV.Encoding

inductive ROp
  | add | sub | sll | slt | sltu | xor | srl | sra | or | and
  | addw | subw | sllw | srlw | sraw
  deriving DecidableEq, Repr

/-- Instructions with a signed 12-bit immediate, loads and `jalr` among them. -/
inductive IOp
  | addi | slti | sltiu | xori | ori | andi | addiw
  | lb | lh | lw | ld | lbu | lhu | lwu
  | jalr
  deriving DecidableEq, Repr

inductive ShiftOp
  | slli | srli | srai
  deriving DecidableEq, Repr

inductive ShiftWOp
  | slliw | srliw | sraiw
  deriving DecidableEq, Repr

inductive SOp
  | sb | sh | sw | sd
  deriving DecidableEq, Repr

inductive BOp
  | beq | bne | blt | bge | bltu | bgeu
  deriving DecidableEq, Repr

inductive UOp
  | lui | auipc
  deriving DecidableEq, Repr

inductive Instr
  | r (op : ROp) (rd rs1 rs2 : BitVec 5)
  | i (op : IOp) (rd rs1 : BitVec 5) (imm : BitVec 12)
  | shift (op : ShiftOp) (rd rs1 : BitVec 5) (shamt : BitVec 6)
  | shiftW (op : ShiftWOp) (rd rs1 : BitVec 5) (shamt : BitVec 5)
  | s (op : SOp) (rs1 rs2 : BitVec 5) (imm : BitVec 12)
  | b (op : BOp) (rs1 rs2 : BitVec 5) (halfOffset : BitVec 12)
  | u (op : UOp) (rd : BitVec 5) (imm : BitVec 20)
  | jal (rd : BitVec 5) (halfOffset : BitVec 20)
  | ecall
  | ebreak
  deriving DecidableEq, Repr

namespace ROp

def opcode : ROp → Opcode
  | add => .add | sub => .sub | sll => .sll | slt => .slt | sltu => .sltu
  | xor => .xor | srl => .srl | sra => .sra | or => .or | and => .and
  | addw => .addw | subw => .subw | sllw => .sllw | srlw => .srlw | sraw => .sraw

def major : ROp → BitVec 7
  | add | sub | sll | slt | sltu | xor | srl | sra | or | and => 0x33#7
  | addw | subw | sllw | srlw | sraw => 0x3B#7

def funct3 : ROp → BitVec 3
  | add | sub | addw | subw => 0#3
  | sll | sllw => 1#3
  | slt => 2#3
  | sltu => 3#3
  | xor => 4#3
  | srl | sra | srlw | sraw => 5#3
  | or => 6#3
  | and => 7#3

def funct7 : ROp → BitVec 7
  | sub | sra | subw | sraw => 0x20#7
  | _ => 0#7

end ROp

namespace IOp

def opcode : IOp → Opcode
  | addi => .addi | slti => .slti | sltiu => .sltiu | xori => .xori | ori => .ori
  | andi => .andi | addiw => .addiw
  | lb => .lb | lh => .lh | lw => .lw | ld => .ld | lbu => .lbu | lhu => .lhu | lwu => .lwu
  | jalr => .jalr

def major : IOp → BitVec 7
  | addi | slti | sltiu | xori | ori | andi => 0x13#7
  | addiw => 0x1B#7
  | lb | lh | lw | ld | lbu | lhu | lwu => 0x03#7
  | jalr => 0x67#7

def funct3 : IOp → BitVec 3
  | addi | addiw | lb | jalr => 0#3
  | lh => 1#3
  | slti | lw => 2#3
  | sltiu | ld => 3#3
  | xori | lbu => 4#3
  | lhu => 5#3
  | ori | lwu => 6#3
  | andi => 7#3

end IOp

namespace ShiftOp

def opcode : ShiftOp → Opcode
  | slli => .slli | srli => .srli | srai => .srai

def funct3 : ShiftOp → BitVec 3
  | slli => 1#3
  | srli | srai => 5#3

def funct6 : ShiftOp → BitVec 6
  | slli | srli => 0#6
  | srai => 0x10#6

end ShiftOp

namespace ShiftWOp

def opcode : ShiftWOp → Opcode
  | slliw => .slliw | srliw => .srliw | sraiw => .sraiw

def funct3 : ShiftWOp → BitVec 3
  | slliw => 1#3
  | srliw | sraiw => 5#3

def funct7 : ShiftWOp → BitVec 7
  | slliw | srliw => 0#7
  | sraiw => 0x20#7

end ShiftWOp

namespace SOp

def opcode : SOp → Opcode
  | sb => .sb | sh => .sh | sw => .sw | sd => .sd

def funct3 : SOp → BitVec 3
  | sb => 0#3 | sh => 1#3 | sw => 2#3 | sd => 3#3

end SOp

namespace BOp

def opcode : BOp → Opcode
  | beq => .beq | bne => .bne | blt => .blt | bge => .bge | bltu => .bltu | bgeu => .bgeu

def funct3 : BOp → BitVec 3
  | beq => 0#3 | bne => 1#3 | blt => 4#3 | bge => 5#3 | bltu => 6#3 | bgeu => 7#3

end BOp

namespace UOp

def opcode : UOp → Opcode
  | lui => .lui | auipc => .auipc

def major : UOp → BitVec 7
  | lui => 0x37#7 | auipc => 0x17#7

end UOp

/-- `funct7 rs2 rs1 funct3 rd opcode`. -/
def rWord (funct7 : BitVec 7) (rs2 rs1 : BitVec 5) (funct3 : BitVec 3) (rd : BitVec 5)
    (opcode : BitVec 7) : BitVec 32 :=
  opcode.setWidth 32 ||| rd.setWidth 32 <<< 7 ||| funct3.setWidth 32 <<< 12 |||
    rs1.setWidth 32 <<< 15 ||| rs2.setWidth 32 <<< 20 ||| funct7.setWidth 32 <<< 25

/-- `imm[11:0] rs1 funct3 rd opcode`. -/
def iWord (imm : BitVec 12) (rs1 : BitVec 5) (funct3 : BitVec 3) (rd : BitVec 5)
    (opcode : BitVec 7) : BitVec 32 :=
  opcode.setWidth 32 ||| rd.setWidth 32 <<< 7 ||| funct3.setWidth 32 <<< 12 |||
    rs1.setWidth 32 <<< 15 ||| imm.setWidth 32 <<< 20

/-- `imm[11:5] rs2 rs1 funct3 imm[4:0] opcode`. -/
def sWord (imm : BitVec 12) (rs2 rs1 : BitVec 5) (funct3 : BitVec 3) : BitVec 32 :=
  rWord (imm.extractLsb' 5 7) rs2 rs1 funct3 (imm.extractLsb' 0 5) 0x23#7

/-- `imm[12] imm[10:5] rs2 rs1 funct3 imm[4:1] imm[11] opcode`, where bit `k` of `halfOffset` is
`imm[k+1]`. -/
def bWord (halfOffset : BitVec 12) (rs2 rs1 : BitVec 5) (funct3 : BitVec 3) : BitVec 32 :=
  (0x63#7).setWidth 32 ||| (halfOffset.extractLsb' 10 1).setWidth 32 <<< 7 |||
    (halfOffset.extractLsb' 0 4).setWidth 32 <<< 8 ||| funct3.setWidth 32 <<< 12 |||
    rs1.setWidth 32 <<< 15 ||| rs2.setWidth 32 <<< 20 |||
    (halfOffset.extractLsb' 4 6).setWidth 32 <<< 25 |||
    (halfOffset.extractLsb' 11 1).setWidth 32 <<< 31

/-- `imm[31:12] rd opcode`. -/
def uWord (imm : BitVec 20) (rd : BitVec 5) (opcode : BitVec 7) : BitVec 32 :=
  opcode.setWidth 32 ||| rd.setWidth 32 <<< 7 ||| imm.setWidth 32 <<< 12

/-- `imm[20] imm[10:1] imm[11] imm[19:12] rd opcode`, where bit `k` of `halfOffset` is
`imm[k+1]`. -/
def jWord (halfOffset : BitVec 20) (rd : BitVec 5) : BitVec 32 :=
  (0x6F#7).setWidth 32 ||| rd.setWidth 32 <<< 7 |||
    (halfOffset.extractLsb' 11 8).setWidth 32 <<< 12 |||
    (halfOffset.extractLsb' 10 1).setWidth 32 <<< 20 |||
    (halfOffset.extractLsb' 0 10).setWidth 32 <<< 21 |||
    (halfOffset.extractLsb' 19 1).setWidth 32 <<< 31

namespace Instr

def encode : Instr → BitVec 32
  | r op rd rs1 rs2 => rWord op.funct7 rs2 rs1 op.funct3 rd op.major
  | i op rd rs1 imm => iWord imm rs1 op.funct3 rd op.major
  | shift op rd rs1 shamt => iWord (op.funct6 ++ shamt) rs1 op.funct3 rd 0x13#7
  | shiftW op rd rs1 shamt => rWord op.funct7 shamt rs1 op.funct3 rd 0x1B#7
  | s op rs1 rs2 imm => sWord imm rs2 rs1 op.funct3
  | b op rs1 rs2 halfOffset => bWord halfOffset rs2 rs1 op.funct3
  | u op rd imm => uWord imm rd op.major
  | jal rd halfOffset => jWord halfOffset rd
  | ecall => 0x00000073#32
  | ebreak => 0x00100073#32

def opcode : Instr → Opcode
  | r op .. => op.opcode
  | i op .. => op.opcode
  | shift op .. => op.opcode
  | shiftW op .. => op.opcode
  | s op .. => op.opcode
  | b op .. => op.opcode
  | u op .. => op.opcode
  | jal .. => .jal
  | ecall => .ecall
  | ebreak => .ebreak

/-- The immediate that the ISA defines, as a 64-bit value; a shift has its amount. -/
def immediate : Instr → BitVec 64
  | i _ _ _ imm | s _ _ _ imm => imm.signExtend 64
  | shift _ _ _ shamt => shamt.setWidth 64
  | shiftW _ _ _ shamt => shamt.setWidth 64
  | b _ _ _ halfOffset => (halfOffset ++ 0#1).signExtend 64
  | u _ _ imm => (imm ++ 0#12).signExtend 64
  | jal _ halfOffset => (halfOffset ++ 0#1).signExtend 64
  | r .. | ecall | ebreak => 0#64

def operands (imm : BitVec 64) : Instr → List Operand
  | r _ rd rs1 rs2 => [.register rd.toNat, .register rs1.toNat, .register rs2.toNat]
  | i _ rd rs1 _ => [.register rd.toNat, .register rs1.toNat, .immediate imm]
  | shift _ rd rs1 _ => [.register rd.toNat, .register rs1.toNat, .immediate imm]
  | shiftW _ rd rs1 _ => [.register rd.toNat, .register rs1.toNat, .immediate imm]
  | s _ rs1 rs2 _ => [.register rs1.toNat, .register rs2.toNat, .immediate imm]
  | b _ rs1 rs2 _ => [.register rs1.toNat, .register rs2.toNat, .immediate imm]
  | u _ rd _ => [.register rd.toNat, .immediate imm]
  | jal rd _ => [.register rd.toNat, .immediate imm]
  | ecall | ebreak => []

end Instr

def littleEndian (w : BitVec 32) : List (BitVec 8) :=
  [w.extractLsb' 0 8, w.extractLsb' 8 8, w.extractLsb' 16 8, w.extractLsb' 24 8]

end DinoRisc.RiscV.Encoding
