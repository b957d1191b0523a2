import DinoRisc.RiscV.DecoderReject

/-!
The instructions that the translator supports, and the operands that the decoder gives them.
-/

namespace DinoRisc.RiscV

inductive Format
  | r | i | s | b | u | j | none
  deriving DecidableEq, Repr

namespace Opcode

def format : Opcode → Format
  | .add | .sub | .sll | .slt | .sltu | .xor | .srl | .sra | .or | .and
  | .addw | .subw | .sllw | .srlw | .sraw => .r
  | .addi | .slti | .sltiu | .xori | .ori | .andi | .slli | .srli | .srai
  | .addiw | .slliw | .srliw | .sraiw | .jalr
  | .lb | .lh | .lw | .ld | .lbu | .lhu | .lwu => .i
  | .sb | .sh | .sw | .sd => .s
  | .beq | .bne | .blt | .bge | .bltu | .bgeu => .b
  | .lui | .auipc => .u
  | .jal => .j
  | .ecall | .ebreak | .invalid => .none

/-- The supported instructions that only compute, load and store. -/
def isStraightLine : Opcode → Bool
  | .add | .addi | .addw | .addiw | .sub
  | .and | .andi | .or | .ori | .xor | .xori
  | .sll | .slli | .slliw | .srl | .srli | .sra | .srai
  | .slt | .sltu | .slti | .sltiu
  | .lb | .lh | .lw | .lwu | .ld | .sw | .sd => true
  | _ => false

def isUpperImmediate : Opcode → Bool
  | .lui | .auipc => true
  | _ => false

def isControlTransfer : Opcode → Bool
  | .beq | .bne | .blt | .bge | .bltu | .bgeu | .jal | .jalr => true
  | _ => false

def isSupported (op : Opcode) : Bool :=
  op.isStraightLine || op.isUpperImmediate || op.isControlTransfer

theorem not_isUpperImmediate {op : Opcode} (h : op.isStraightLine = true) :
    op.isUpperImmediate = false := by
  cases op <;> first | rfl | cases h

end Opcode

/-- The operands of a format, in the decoder's order and ranges. -/
inductive Shaped : Format → List Operand → Prop
  | r {rd rs1 rs2 : ℕ} (hrd : rd < 32) (hrs1 : rs1 < 32) (hrs2 : rs2 < 32) :
    Shaped .r [.register rd, .register rs1, .register rs2]
  | i {rd rs1 : ℕ} (hrd : rd < 32) (hrs1 : rs1 < 32) (imm : BitVec 12) :
    Shaped .i [.register rd, .register rs1, .immediate (imm.signExtend 64)]
  | s {rs1 rs2 : ℕ} (hrs1 : rs1 < 32) (hrs2 : rs2 < 32) (imm : BitVec 12) :
    Shaped .s [.register rs1, .register rs2, .immediate (imm.signExtend 64)]
  | b {rs1 rs2 : ℕ} (hrs1 : rs1 < 32) (hrs2 : rs2 < 32) (halfOffset : BitVec 12) :
    Shaped .b [.register rs1, .register rs2, .immediate ((halfOffset ++ 0#1).signExtend 64)]
  | u {rd : ℕ} (hrd : rd < 32) (imm : BitVec 20) :
    Shaped .u [.register rd, .immediate ((imm ++ 0#12).signExtend 64)]
  | j {rd : ℕ} (hrd : rd < 32) (halfOffset : BitVec 20) :
    Shaped .j [.register rd, .immediate ((halfOffset ++ 0#1).signExtend 64)]
  | none : Shaped .none []

def Format.operands (w : BitVec 32) : Format → List Operand
  | .r => [.register (w.extractLsb' 7 5).toNat, .register (w.extractLsb' 15 5).toNat,
      .register (w.extractLsb' 20 5).toNat]
  | .i => [.register (w.extractLsb' 7 5).toNat, .register (w.extractLsb' 15 5).toNat,
      .immediate ((w.extractLsb' 20 12).signExtend 64)]
  | .s => [.register (w.extractLsb' 15 5).toNat, .register (w.extractLsb' 20 5).toNat,
      .immediate ((Decoder.sPieces w).signExtend 64)]
  | .b => [.register (w.extractLsb' 15 5).toNat, .register (w.extractLsb' 20 5).toNat,
      .immediate ((Decoder.bPieces w ++ 0#1).signExtend 64)]
  | .u => [.register (w.extractLsb' 7 5).toNat,
      .immediate ((w.extractLsb' 12 20 ++ 0#12).signExtend 64)]
  | .j => [.register (w.extractLsb' 7 5).toNat,
      .immediate ((Decoder.jPieces w ++ 0#1).signExtend 64)]
  | .none => []

theorem Format.operands_shaped (w : BitVec 32) (format : Format) :
    Shaped format (format.operands w) := by
  cases format with
  | r => exact .r (BitVec.isLt _) (BitVec.isLt _) (BitVec.isLt _)
  | i => exact .i (BitVec.isLt _) (BitVec.isLt _) _
  | s => exact .s (BitVec.isLt _) (BitVec.isLt _) _
  | b => exact .b (BitVec.isLt _) (BitVec.isLt _) _
  | u => exact .u (BitVec.isLt _) _
  | j => exact .j (BitVec.isLt _) _
  | none => exact .none

theorem Decoder.extractOperands_eq (w : BitVec 32) {op : Opcode} (h : op ≠ .invalid) :
    extractOperands (extractFields w) op w = .ok (op.format.operands w) := by
  have htoNat : ∀ k, ((w.extractLsb' k 5).setWidth 32).toNat = (w.extractLsb' k 5).toNat := fun k =>
    BitVec.toNat_setWidth_of_le (by omega)
  cases op <;> first
    | exact absurd rfl h
    | simp only [extractOperands, extractFields_eq, htoNat, iTypeImmediate_eq, sTypeImmediate_eq,
        bTypeImmediate_eq, uTypeImmediate_eq, jTypeImmediate_eq, Opcode.format, Format.operands]

theorem Decoder.decodeWord_operands {w : BitVec 32} {pc : BitVec 64} {inst : Instruction}
    (h : decodeWord w pc = .ok inst) :
    inst.operands = inst.opcode.format.operands w ∧ inst.address = pc := by
  obtain ⟨op, hop, h⟩ := bind_eq_ok.mp h
  rw [extractOperands_eq w (determineOpcode_ne_invalid hop)] at h
  cases h
  exact ⟨rfl, rfl⟩

namespace Instruction

/-- A supported instruction with the operands of its format. -/
structure Supported (inst : Instruction) : Prop where
  opcode : inst.opcode.isSupported = true
  operands : Shaped inst.opcode.format inst.operands

end Instruction

/-- Each instruction stands four bytes after the one before it. -/
def Consecutive (instructions : List Instruction) : Prop :=
  instructions.IsChain fun i j => j.address = i.address + 4#64

end DinoRisc.RiscV
