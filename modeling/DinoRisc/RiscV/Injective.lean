import DinoRisc.RiscV.DecoderReject

/-! The word of an instruction determines it: the decoder keeps all of its fields. -/

namespace DinoRisc.RiscV

open Encoding Decoder

theorem signExtend_injective {w : ℕ} (hw : w ≤ 64) {x y : BitVec w}
    (h : x.signExtend 64 = y.signExtend 64) : x = y := by
  have hint := congrArg BitVec.toInt h
  rw [BitVec.toInt_signExtend_of_le hw, BitVec.toInt_signExtend_of_le hw] at hint
  exact BitVec.eq_of_toInt_eq hint

/-- The kind of encoding that the mnemonic has. -/
def Opcode.encoding : Opcode → ℕ
  | .add | .sub | .sll | .slt | .sltu | .xor | .srl | .sra | .or | .and
  | .addw | .subw | .sllw | .srlw | .sraw => 0
  | .addi | .slti | .sltiu | .xori | .ori | .andi | .addiw
  | .lb | .lh | .lw | .ld | .lbu | .lhu | .lwu | .jalr => 1
  | .slli | .srli | .srai => 2
  | .slliw | .srliw | .sraiw => 3
  | .sb | .sh | .sw | .sd => 4
  | .beq | .bne | .blt | .bge | .bltu | .bgeu => 5
  | .lui | .auipc => 6
  | .jal => 7
  | .ecall => 8
  | .ebreak => 9
  | .invalid => 10

def Encoding.Instr.kind : Instr → ℕ
  | .r .. => 0
  | .i .. => 1
  | .shift .. => 2
  | .shiftW .. => 3
  | .s .. => 4
  | .b .. => 5
  | .u .. => 6
  | .jal .. => 7
  | .ecall => 8
  | .ebreak => 9

theorem decodeWord_kind {i : Instr} {pc : BitVec 64} {inst : Instruction}
    (h : decodeWord i.encode pc = .ok inst) : inst.opcode.encoding = i.kind := by
  cases i with
  | r op rd rs1 rs2 =>
    cases h.symm.trans (decode_r op rd rs1 rs2 pc)
    cases op <;> rfl
  | i op rd rs1 imm =>
    cases h.symm.trans (decode_i op rd rs1 imm pc)
    cases op <;> rfl
  | shift op rd rs1 shamt =>
    cases h.symm.trans (decode_shift op rd rs1 shamt pc)
    unfold shiftOpcode
    split
    · rfl
    · cases op <;> rfl
  | shiftW op rd rs1 shamt =>
    cases h.symm.trans (decode_shiftW op rd rs1 shamt pc)
    cases op <;> rfl
  | s op rs1 rs2 imm =>
    cases h.symm.trans (decode_s op rs1 rs2 imm pc)
    cases op <;> rfl
  | b op rs1 rs2 halfOffset =>
    cases h.symm.trans (decode_b op rs1 rs2 halfOffset pc)
    cases op <;> rfl
  | u op rd imm =>
    cases h.symm.trans (decode_u op rd imm pc)
    cases op <;> rfl
  | jal rd halfOffset =>
    cases h.symm.trans (decode_jal rd halfOffset pc)
    rfl
  | ecall | ebreak =>
    cases h
    rfl

theorem opcode_injective :
    Function.Injective ROp.opcode ∧ Function.Injective IOp.opcode ∧
      Function.Injective ShiftWOp.opcode ∧ Function.Injective SOp.opcode ∧
      Function.Injective BOp.opcode ∧ Function.Injective UOp.opcode := by
  refine ⟨?_, ?_, ?_, ?_, ?_, ?_⟩ <;>
    · intro op op' h
      cases op <;> cases op' <;> first
        | rfl
        | cases h

/-- The upper bits of the immediate tell the arithmetic shift from the logical ones. -/
theorem shift_injective {op op' : ShiftOp} {shamt shamt' : BitVec 6}
    (hop : shiftOpcode op shamt = shiftOpcode op' shamt')
    (himm : op.funct6 ++ shamt = op'.funct6 ++ shamt') : op = op' ∧ shamt = shamt' := by
  have hlow := congrArg (BitVec.extractLsb' 0 6) himm
  rw [(shift_fields _ _).1, (shift_fields _ _).1] at hlow
  subst hlow
  have hhigh := (BitVec.append_left_inj shamt).mp himm
  refine ⟨?_, rfl⟩
  unfold shiftOpcode at hop
  cases op <;> cases op' <;> first
    | rfl
    | (cases hhigh; done)
    | simp [ShiftOp.opcode] at hop

theorem encode_injective {i j : Instr} (h : i.encode = j.encode) : i = j := by
  obtain ⟨inst, hi⟩ := decodeWord_encode i 0#64
  have hj : decodeWord j.encode 0#64 = .ok inst := h ▸ hi
  have hkind := (decodeWord_kind hi).symm.trans (decodeWord_kind hj)
  have hdecode : decodeWord i.encode 0#64 = decodeWord j.encode 0#64 := hi.trans hj.symm
  obtain ⟨hr, hi', hshiftW, hs, hb, hu⟩ := opcode_injective
  clear hi hj h
  cases i <;> cases j <;> first
    | (cases hkind; done)
    | skip
  case r.r op rd rs1 rs2 op' rd' rs1' rs2' =>
    rw [decode_r, decode_r] at hdecode
    simp only [Except.ok.injEq, Instruction.mk.injEq, List.cons.injEq, Operand.register.injEq] at hdecode
    obtain ⟨hop, ⟨hrd, hrs1, hrs2, -⟩, -⟩ := hdecode
    rw [hr hop, BitVec.eq_of_toNat_eq hrd, BitVec.eq_of_toNat_eq hrs1, BitVec.eq_of_toNat_eq hrs2]
  case i.i op rd rs1 imm op' rd' rs1' imm' =>
    rw [decode_i, decode_i] at hdecode
    simp only [Except.ok.injEq, Instruction.mk.injEq, List.cons.injEq, Operand.register.injEq,
      Operand.immediate.injEq] at hdecode
    obtain ⟨hop, ⟨hrd, hrs1, himm, -⟩, -⟩ := hdecode
    rw [hi' hop, BitVec.eq_of_toNat_eq hrd, BitVec.eq_of_toNat_eq hrs1,
      signExtend_injective (by decide) himm]
  case shift.shift op rd rs1 shamt op' rd' rs1' shamt' =>
    rw [decode_shift, decode_shift] at hdecode
    simp only [Except.ok.injEq, Instruction.mk.injEq, List.cons.injEq, Operand.register.injEq,
      Operand.immediate.injEq] at hdecode
    obtain ⟨hop, ⟨hrd, hrs1, himm, -⟩, -⟩ := hdecode
    obtain ⟨rfl, rfl⟩ := shift_injective hop (signExtend_injective (by decide) himm)
    rw [BitVec.eq_of_toNat_eq hrd, BitVec.eq_of_toNat_eq hrs1]
  case shiftW.shiftW op rd rs1 shamt op' rd' rs1' shamt' =>
    rw [decode_shiftW, decode_shiftW] at hdecode
    simp only [Except.ok.injEq, Instruction.mk.injEq, List.cons.injEq, Operand.register.injEq,
      Operand.immediate.injEq] at hdecode
    obtain ⟨hop, ⟨hrd, hrs1, himm, -⟩, -⟩ := hdecode
    obtain rfl := hshiftW hop
    rw [BitVec.eq_of_toNat_eq hrd, BitVec.eq_of_toNat_eq hrs1,
      (BitVec.append_right_inj _).mp (signExtend_injective (by decide) himm)]
  case s.s op rs1 rs2 imm op' rs1' rs2' imm' =>
    rw [decode_s, decode_s] at hdecode
    simp only [Except.ok.injEq, Instruction.mk.injEq, List.cons.injEq, Operand.register.injEq,
      Operand.immediate.injEq] at hdecode
    obtain ⟨hop, ⟨hrs1, hrs2, himm, -⟩, -⟩ := hdecode
    rw [hs hop, BitVec.eq_of_toNat_eq hrs1, BitVec.eq_of_toNat_eq hrs2,
      signExtend_injective (by decide) himm]
  case b.b op rs1 rs2 imm op' rs1' rs2' imm' =>
    rw [decode_b, decode_b] at hdecode
    simp only [Except.ok.injEq, Instruction.mk.injEq, List.cons.injEq, Operand.register.injEq,
      Operand.immediate.injEq] at hdecode
    obtain ⟨hop, ⟨hrs1, hrs2, himm, -⟩, -⟩ := hdecode
    rw [hb hop, BitVec.eq_of_toNat_eq hrs1, BitVec.eq_of_toNat_eq hrs2,
      (BitVec.append_left_inj _).mp (signExtend_injective (by decide) himm)]
  case u.u op rd imm op' rd' imm' =>
    rw [decode_u, decode_u] at hdecode
    simp only [Except.ok.injEq, Instruction.mk.injEq, List.cons.injEq, Operand.register.injEq,
      Operand.immediate.injEq] at hdecode
    obtain ⟨hop, ⟨hrd, himm, -⟩, -⟩ := hdecode
    rw [hu hop, BitVec.eq_of_toNat_eq hrd,
      (BitVec.append_left_inj _).mp (signExtend_injective (by decide) himm)]
  case jal.jal rd imm rd' imm' =>
    rw [decode_jal, decode_jal] at hdecode
    simp only [Except.ok.injEq, Instruction.mk.injEq, List.cons.injEq, Operand.register.injEq,
      Operand.immediate.injEq] at hdecode
    obtain ⟨-, ⟨hrd, himm, -⟩, -⟩ := hdecode
    rw [BitVec.eq_of_toNat_eq hrd,
      (BitVec.append_left_inj _).mp (signExtend_injective (by decide) himm)]
  case ecall.ecall | ebreak.ebreak => rfl

end DinoRisc.RiscV
