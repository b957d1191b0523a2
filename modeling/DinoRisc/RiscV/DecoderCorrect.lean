import DinoRisc.RiscV.DecoderFields

namespace DinoRisc.RiscV.Decoder

open BitField Encoding

/-! ### The fields of an encoded instruction -/

theorem rWord_fields (funct7 : BitVec 7) (rs2 rs1 : BitVec 5) (funct3 : BitVec 3) (rd : BitVec 5)
    (opcode : BitVec 7) :
    extractFields (rWord funct7 rs2 rs1 funct3 rd opcode) =
      ⟨opcode.setWidth 32, rd.setWidth 32, rs1.setWidth 32, rs2.setWidth 32,
        funct3.setWidth 32, funct7.setWidth 32⟩ := by
  rw [extractFields_eq, rWord]
  simp (disch := omega) only [BitVec.extractLsb'_or, extract_low, extract_low_disjoint,
    extract_place, extract_place_disjoint, BitVec.zero_or, BitVec.or_zero]

/-- An I-format word is an R-format word whose two upper fields are the immediate. -/
theorem iWord_eq (imm : BitVec 12) (rs1 : BitVec 5) (funct3 : BitVec 3) (rd : BitVec 5)
    (opcode : BitVec 7) :
    iWord imm rs1 funct3 rd opcode =
      rWord (imm.extractLsb' 5 7) (imm.extractLsb' 0 5) rs1 funct3 rd opcode := by
  have himm : imm.setWidth 32 <<< 20 = (imm.extractLsb' 0 5).setWidth 32 <<< 20 |||
      (imm.extractLsb' 5 7).setWidth 32 <<< 25 := by
    apply BitVec.eq_of_getLsbD_eq
    intro i hi
    simp only [BitVec.getLsbD_or, BitVec.getLsbD_shiftLeft, BitVec.getLsbD_setWidth,
      BitVec.getLsbD_extractLsb']
    interval_cases i <;> simp
  simp only [iWord, rWord, himm, BitVec.or_assoc]

theorem iWord_imm (imm : BitVec 12) (rs1 : BitVec 5) (funct3 : BitVec 3) (rd : BitVec 5)
    (opcode : BitVec 7) : (iWord imm rs1 funct3 rd opcode).extractLsb' 20 12 = imm := by
  simp (disch := omega) only [iWord, BitVec.extractLsb'_or, extract_low_disjoint, extract_place,
    extract_place_disjoint, BitVec.zero_or]

theorem sWord_imm (imm : BitVec 12) (rs2 rs1 : BitVec 5) (funct3 : BitVec 3) :
    sPieces (sWord imm rs2 rs1 funct3) = imm := by
  simp (disch := omega) only [sPieces, sWord, rWord, BitVec.extractLsb'_or, extract_low_disjoint,
    extract_place, extract_place_disjoint, BitVec.zero_or, BitVec.or_zero]
  exact (BitVec.extractLsb'_append_extractLsb'_eq_extractLsb' rfl).trans (extract_all imm)

theorem bWord_fields (halfOffset : BitVec 12) (rs2 rs1 : BitVec 5) (funct3 : BitVec 3) :
    extractFields (bWord halfOffset rs2 rs1 funct3) =
      ⟨(0x63#7).setWidth 32,
        (halfOffset.extractLsb' 0 4 ++ halfOffset.extractLsb' 10 1).setWidth 32,
        rs1.setWidth 32, rs2.setWidth 32, funct3.setWidth 32,
        (halfOffset.extractLsb' 11 1 ++ halfOffset.extractLsb' 4 6).setWidth 32⟩ := by
  have hr : bWord halfOffset rs2 rs1 funct3 =
      rWord (halfOffset.extractLsb' 11 1 ++ halfOffset.extractLsb' 4 6) rs2 rs1 funct3
        (halfOffset.extractLsb' 0 4 ++ halfOffset.extractLsb' 10 1) 0x63#7 := by
    apply BitVec.eq_of_getLsbD_eq
    intro i hi
    simp only [bWord, rWord, BitVec.getLsbD_or, BitVec.getLsbD_shiftLeft, BitVec.getLsbD_setWidth,
      BitVec.getLsbD_extractLsb', BitVec.getLsbD_append]
    interval_cases i <;> simp
  rw [hr, rWord_fields]

theorem bWord_imm (halfOffset : BitVec 12) (rs2 rs1 : BitVec 5) (funct3 : BitVec 3) :
    bPieces (bWord halfOffset rs2 rs1 funct3) = halfOffset := by
  simp (disch := omega) only [bPieces, bWord, BitVec.extractLsb'_or, extract_low_disjoint,
    extract_place, extract_place_disjoint, BitVec.zero_or, BitVec.or_zero]
  apply BitVec.eq_of_getLsbD_eq
  intro i hi
  simp only [BitVec.getLsbD_append, BitVec.getLsbD_extractLsb']
  interval_cases i <;> simp

theorem uWord_eq (imm : BitVec 20) (rd : BitVec 5) (opcode : BitVec 7) :
    uWord imm rd opcode = rWord (imm.extractLsb' 13 7) (imm.extractLsb' 8 5)
      (imm.extractLsb' 3 5) (imm.extractLsb' 0 3) rd opcode := by
  apply BitVec.eq_of_getLsbD_eq
  intro i hi
  simp only [uWord, rWord, BitVec.getLsbD_or, BitVec.getLsbD_shiftLeft, BitVec.getLsbD_setWidth,
    BitVec.getLsbD_extractLsb']
  interval_cases i <;> simp

theorem uWord_imm (imm : BitVec 20) (rd : BitVec 5) (opcode : BitVec 7) :
    (uWord imm rd opcode).extractLsb' 12 20 = imm := by
  simp (disch := omega) only [uWord, BitVec.extractLsb'_or, extract_low_disjoint, extract_place,
    extract_place_disjoint, BitVec.zero_or]

theorem jWord_eq (halfOffset : BitVec 20) (rd : BitVec 5) :
    jWord halfOffset rd = uWord (halfOffset.extractLsb' 19 1 ++ halfOffset.extractLsb' 0 10 ++
      halfOffset.extractLsb' 10 1 ++ halfOffset.extractLsb' 11 8) rd 0x6F#7 := by
  apply BitVec.eq_of_getLsbD_eq
  intro i hi
  simp only [jWord, uWord, BitVec.getLsbD_or, BitVec.getLsbD_shiftLeft, BitVec.getLsbD_setWidth,
    BitVec.getLsbD_extractLsb', BitVec.getLsbD_append]
  interval_cases i <;> simp

theorem jWord_imm (halfOffset : BitVec 20) (rd : BitVec 5) :
    jPieces (jWord halfOffset rd) = halfOffset := by
  simp (disch := omega) only [jPieces, jWord, BitVec.extractLsb'_or, extract_low_disjoint,
    extract_place, extract_place_disjoint, BitVec.zero_or, BitVec.or_zero]
  apply BitVec.eq_of_getLsbD_eq
  intro i hi
  simp only [BitVec.getLsbD_append, BitVec.getLsbD_extractLsb']
  interval_cases i <;> simp

/-! ### Decoding undoes encoding -/

/-- What `decode` makes of a word once it is read. -/
def decodeWord (raw : BitVec 32) (pc : BitVec 64) : Except Error Instruction := do
  let opcode ← determineOpcode (extractFields raw)
  let operands ← extractOperands (extractFields raw) opcode raw
  return ⟨opcode, operands, raw, pc⟩

theorem decode_holds {data : List (BitVec 8)} {offset : ℕ} {w : BitVec 32}
    (h : Holds data offset w) (pc : BitVec 64) : decode data offset pc = decodeWord w pc := by
  simp only [decode, readInstruction_holds h]
  rfl

theorem decodeWord_ok {raw : BitVec 32} {pc : BitVec 64} {opcode : Opcode}
    {operands : List Operand} (hop : determineOpcode (extractFields raw) = .ok opcode)
    (hops : extractOperands (extractFields raw) opcode raw = .ok operands) :
    decodeWord raw pc = .ok ⟨opcode, operands, raw, pc⟩ := by
  simp [decodeWord, hop, hops, bind, Except.bind, pure, Except.pure]

/-- The immediates that a decoder may give for `i`: for a shift every number congruent to the
amount modulo the width, otherwise only the immediate of the ISA. -/
def Admits (imm : BitVec 64) : Instr → Prop
  | .shift _ _ _ shamt => imm.toInt % 64 = shamt.toNat
  | .shiftW _ _ _ shamt => imm.toInt % 32 = shamt.toNat
  | i => imm = i.immediate

/-- The decoder gives back the instruction, its operands in the order of its format, and `pc`. -/
def DecodesTo (data : List (BitVec 8)) (offset : ℕ) (pc : BitVec 64) (i : Instr) : Prop :=
  ∃ imm, decode data offset pc = .ok ⟨i.opcode, i.operands imm, i.encode, pc⟩ ∧ Admits imm i

def WideSrai : Instr → Prop
  | .shift .srai _ _ shamt => 32 ≤ shamt.toNat
  | _ => False

instance : DecidablePred WideSrai := fun i => by
  unfold WideSrai
  split <;> infer_instance

theorem toNat_zeroExtend (x : BitVec 5) : (x.setWidth 32).toNat = x.toNat := by
  have := x.isLt
  simp only [BitVec.toNat_setWidth]
  omega

theorem signExtend_mod_low (x : BitVec 12) (k : ℕ) (hk : k ≤ 12) :
    (x.signExtend 64).toInt % 2 ^ k = (x.extractLsb' 0 k).toNat := by
  have hx := x.isLt
  rw [BitVec.toInt_signExtend_of_le (by omega), BitVec.extractLsb'_toNat, Nat.shiftRight_zero]
  interval_cases k <;> simp only [BitVec.toInt_eq_toNat_cond] <;> split <;> omega

theorem signExtend_mod_toNat (x : BitVec 12) (k : ℕ) (hk : k ≤ 12) :
    (x.signExtend 64).toNat % 2 ^ k = (x.extractLsb' 0 k).toNat := by
  have hmod := signExtend_mod_low x k hk
  rw [BitVec.toInt_eq_toNat_cond] at hmod
  interval_cases k <;> split at hmod <;> omega

theorem shiftW_low (funct7 : BitVec 7) (shamt : BitVec 5) :
    (funct7 ++ shamt).extractLsb' 0 5 = shamt := by
  apply BitVec.eq_of_getLsbD_eq
  intro i hi
  simp only [BitVec.getLsbD_extractLsb', BitVec.getLsbD_append]
  interval_cases i <;> simp

theorem shift_fields (funct6 : BitVec 6) (shamt : BitVec 6) :
    (funct6 ++ shamt).extractLsb' 0 6 = shamt ∧
      (funct6 ++ shamt).extractLsb' 5 7 = funct6 ++ shamt.extractLsb' 5 1 := by
  constructor
  all_goals
    apply BitVec.eq_of_getLsbD_eq
    intro i hi
    simp only [BitVec.getLsbD_extractLsb', BitVec.getLsbD_append]
    interval_cases i <;> simp

theorem decode_r (op : ROp) (rd rs1 rs2 : BitVec 5) (pc : BitVec 64) :
    decodeWord (Instr.r op rd rs1 rs2).encode pc =
      .ok ⟨op.opcode, [.register rd.toNat, .register rs1.toNat, .register rs2.toNat],
        (Instr.r op rd rs1 rs2).encode, pc⟩ := by
  apply decodeWord_ok
  · rw [Instr.encode, rWord_fields]
    cases op <;> rfl
  · rw [Instr.encode, rWord_fields]
    cases op <;> simp only [ROp.opcode, extractOperands, toNat_zeroExtend]

theorem iWord_fields (imm : BitVec 12) (rs1 : BitVec 5) (funct3 : BitVec 3) (rd : BitVec 5)
    (opcode : BitVec 7) :
    extractFields (iWord imm rs1 funct3 rd opcode) =
      ⟨opcode.setWidth 32, rd.setWidth 32, rs1.setWidth 32, (imm.extractLsb' 0 5).setWidth 32,
        funct3.setWidth 32, (imm.extractLsb' 5 7).setWidth 32⟩ := by
  rw [iWord_eq, rWord_fields]

theorem decode_i (op : IOp) (rd rs1 : BitVec 5) (imm : BitVec 12) (pc : BitVec 64) :
    decodeWord (Instr.i op rd rs1 imm).encode pc =
      .ok ⟨op.opcode, [.register rd.toNat, .register rs1.toNat, .immediate (imm.signExtend 64)],
        (Instr.i op rd rs1 imm).encode, pc⟩ := by
  have himm : widen (extractITypeImmediate (Instr.i op rd rs1 imm).encode) = imm.signExtend 64 := by
    rw [iTypeImmediate_eq, Instr.encode, iWord_imm]
  apply decodeWord_ok
  · rw [Instr.encode, iWord_fields]
    cases op <;> rfl
  · have hf := iWord_fields imm rs1 op.funct3 rd op.major
    cases op <;> simp only [IOp.opcode, extractOperands, himm] <;>
      simp only [Instr.encode, hf, toNat_zeroExtend]

def shiftOpcode (op : ShiftOp) (shamt : BitVec 6) : Opcode :=
  if op = .srai ∧ 32 ≤ shamt.toNat then .srli else op.opcode

theorem determineOpcode_shift (op : ShiftOp) (rd rs1 : BitVec 5) (shamt : BitVec 6) :
    determineOpcode (extractFields (Instr.shift op rd rs1 shamt).encode) =
      .ok (shiftOpcode op shamt) := by
  rw [Instr.encode, iWord_fields, (shift_fields _ _).2]
  -- bit 5 of the amount lies in the field that the decoder takes for funct7
  have hbit : shamt.extractLsb' 5 1 = if 32 ≤ shamt.toNat then 1#1 else 0#1 := by
    have := shamt.isLt
    apply BitVec.eq_of_toNat_eq
    rw [BitVec.extractLsb'_toNat, Nat.shiftRight_eq_div_pow]
    split <;> simp <;> omega
  rw [hbit, shiftOpcode]
  cases op <;> by_cases h : 32 ≤ shamt.toNat <;> simp only [h, if_true, if_false, and_true,
    and_false, reduceCtorEq] <;> rfl

theorem decode_shift (op : ShiftOp) (rd rs1 : BitVec 5) (shamt : BitVec 6) (pc : BitVec 64) :
    decodeWord (Instr.shift op rd rs1 shamt).encode pc =
      .ok ⟨shiftOpcode op shamt, [.register rd.toNat, .register rs1.toNat,
        .immediate ((op.funct6 ++ shamt).signExtend 64)],
        (Instr.shift op rd rs1 shamt).encode, pc⟩ := by
  have himm : widen (extractITypeImmediate (Instr.shift op rd rs1 shamt).encode) =
      (op.funct6 ++ shamt).signExtend 64 := by
    rw [iTypeImmediate_eq, Instr.encode]
    exact congrArg _ (iWord_imm (op.funct6 ++ shamt) ..)
  refine decodeWord_ok (determineOpcode_shift op rd rs1 shamt) ?_
  have hf := iWord_fields (op.funct6 ++ shamt) rs1 op.funct3 rd 0x13#7
  obtain h | h | h : shiftOpcode op shamt = .slli ∨ shiftOpcode op shamt = .srli ∨
      shiftOpcode op shamt = .srai := by
    unfold shiftOpcode
    cases op <;> split <;> simp_all [ShiftOp.opcode]
  all_goals
    simp only [h, extractOperands, himm]
    simp only [Instr.encode, hf, toNat_zeroExtend]

theorem decode_shiftW (op : ShiftWOp) (rd rs1 shamt : BitVec 5) (pc : BitVec 64) :
    decodeWord (Instr.shiftW op rd rs1 shamt).encode pc =
      .ok ⟨op.opcode, [.register rd.toNat, .register rs1.toNat,
        .immediate ((op.funct7 ++ shamt).signExtend 64)],
        (Instr.shiftW op rd rs1 shamt).encode, pc⟩ := by
  have hfield : (Instr.shiftW op rd rs1 shamt).encode.extractLsb' 20 12 = op.funct7 ++ shamt := by
    rw [← extract_all (op.funct7 ++ shamt), ← extract_extract _ 20 12 0 12 (by omega)]
    refine extract_append_ext (a := 5) (b := 7) ?_ ?_
    all_goals
      simp (disch := omega) only [extract_extract, Instr.encode, rWord, BitVec.extractLsb'_or,
        extract_low_disjoint, extract_place, extract_place_disjoint, BitVec.zero_or,
        BitVec.or_zero, Nat.zero_add]
      apply BitVec.eq_of_getLsbD_eq
      intro i hi
      simp only [BitVec.getLsbD_extractLsb', BitVec.getLsbD_append]
      interval_cases i <;> simp
  have himm : widen (extractITypeImmediate (Instr.shiftW op rd rs1 shamt).encode) =
      (op.funct7 ++ shamt).signExtend 64 := by
    rw [iTypeImmediate_eq, hfield]
  apply decodeWord_ok
  · rw [Instr.encode, rWord_fields]
    cases op <;> rfl
  · have hf := rWord_fields op.funct7 shamt rs1 op.funct3 rd 0x1B#7
    cases op <;> simp only [ShiftWOp.opcode, extractOperands, himm] <;>
      simp only [Instr.encode, hf, toNat_zeroExtend]

theorem decode_s (op : SOp) (rs1 rs2 : BitVec 5) (imm : BitVec 12) (pc : BitVec 64) :
    decodeWord (Instr.s op rs1 rs2 imm).encode pc =
      .ok ⟨op.opcode, [.register rs1.toNat, .register rs2.toNat, .immediate (imm.signExtend 64)],
        (Instr.s op rs1 rs2 imm).encode, pc⟩ := by
  have himm : widen (extractSTypeImmediate (Instr.s op rs1 rs2 imm).encode) = imm.signExtend 64 := by
    rw [sTypeImmediate_eq, Instr.encode, sWord_imm]
  have hf := rWord_fields (imm.extractLsb' 5 7) rs2 rs1 op.funct3 (imm.extractLsb' 0 5) 0x23#7
  apply decodeWord_ok
  · rw [Instr.encode, sWord, hf]
    cases op <;> rfl
  · cases op <;> simp only [SOp.opcode, extractOperands, himm] <;>
      simp only [Instr.encode, sWord, hf, toNat_zeroExtend]

theorem decode_b (op : BOp) (rs1 rs2 : BitVec 5) (halfOffset : BitVec 12) (pc : BitVec 64) :
    decodeWord (Instr.b op rs1 rs2 halfOffset).encode pc =
      .ok ⟨op.opcode, [.register rs1.toNat, .register rs2.toNat,
        .immediate ((halfOffset ++ 0#1).signExtend 64)],
        (Instr.b op rs1 rs2 halfOffset).encode, pc⟩ := by
  have himm : widen (extractBTypeImmediate (Instr.b op rs1 rs2 halfOffset).encode) =
      (halfOffset ++ 0#1).signExtend 64 := by
    rw [bTypeImmediate_eq, Instr.encode, bWord_imm]
  have hf := bWord_fields halfOffset rs2 rs1 op.funct3
  apply decodeWord_ok
  · rw [Instr.encode, hf]
    cases op <;> rfl
  · cases op <;> simp only [BOp.opcode, extractOperands, himm] <;>
      simp only [Instr.encode, hf, toNat_zeroExtend]

theorem decode_u (op : UOp) (rd : BitVec 5) (imm : BitVec 20) (pc : BitVec 64) :
    decodeWord (Instr.u op rd imm).encode pc =
      .ok ⟨op.opcode, [.register rd.toNat, .immediate ((imm ++ 0#12).signExtend 64)],
        (Instr.u op rd imm).encode, pc⟩ := by
  have himm : widen (extractUTypeImmediate (Instr.u op rd imm).encode) =
      (imm ++ 0#12).signExtend 64 := by
    rw [uTypeImmediate_eq, Instr.encode, uWord_imm]
  have hf : extractFields (Instr.u op rd imm).encode = extractFields (rWord _ _ _ _ rd op.major) :=
    congrArg extractFields (uWord_eq imm rd op.major)
  apply decodeWord_ok
  · rw [hf, rWord_fields]
    cases op <;> rfl
  · cases op <;> simp only [UOp.opcode, extractOperands, himm] <;>
      simp only [hf, rWord_fields, toNat_zeroExtend]

theorem decode_jal (rd : BitVec 5) (halfOffset : BitVec 20) (pc : BitVec 64) :
    decodeWord (Instr.jal rd halfOffset).encode pc =
      .ok ⟨.jal, [.register rd.toNat, .immediate ((halfOffset ++ 0#1).signExtend 64)],
        (Instr.jal rd halfOffset).encode, pc⟩ := by
  have himm : widen (extractJTypeImmediate (Instr.jal rd halfOffset).encode) =
      (halfOffset ++ 0#1).signExtend 64 := by
    rw [jTypeImmediate_eq, Instr.encode, jWord_imm]
  have hf : extractFields (Instr.jal rd halfOffset).encode =
      extractFields (rWord _ _ _ _ rd 0x6F#7) :=
    congrArg extractFields ((jWord_eq halfOffset rd).trans (uWord_eq _ rd 0x6F#7))
  apply decodeWord_ok
  · rw [hf, rWord_fields]
    rfl
  · simp only [extractOperands, himm, hf, rWord_fields, toNat_zeroExtend]

theorem decode_encode_iff {data : List (BitVec 8)} {offset : ℕ} (pc : BitVec 64) {i : Instr}
    (h : Holds data offset i.encode) : DecodesTo data offset pc i ↔ ¬ WideSrai i := by
  rw [DecodesTo, decode_holds h]
  cases i with
  | r op rd rs1 rs2 => simpa [decode_r, WideSrai, Admits] using ⟨rfl, rfl⟩
  | i op rd rs1 imm => simpa [decode_i, WideSrai, Admits] using ⟨rfl, rfl⟩
  | shift op rd rs1 shamt =>
    have hmod := signExtend_mod_low (op.funct6 ++ shamt) 6 (by omega)
    rw [(shift_fields _ _).1] at hmod
    have hwide : shiftOpcode op shamt = op.opcode ↔ ¬ WideSrai (.shift op rd rs1 shamt) := by
      unfold shiftOpcode WideSrai
      cases op <;> by_cases hs : 32 ≤ shamt.toNat <;> simp [hs, ShiftOp.opcode]
    rw [decode_shift, ← hwide]
    constructor
    · rintro ⟨imm, heq, -⟩
      exact congrArg Instruction.opcode (Except.ok.inj heq)
    · intro hop
      exact ⟨_, by rw [hop]; rfl, hmod⟩
  | shiftW op rd rs1 shamt =>
    have hmod := signExtend_mod_low (op.funct7 ++ shamt) 5 (by omega)
    rw [shiftW_low] at hmod
    rw [decode_shiftW]
    exact ⟨fun _ => id, fun _ => ⟨_, rfl, hmod⟩⟩
  | s op rs1 rs2 imm => simpa [decode_s, WideSrai, Admits] using ⟨rfl, rfl⟩
  | b op rs1 rs2 halfOffset => simpa [decode_b, WideSrai, Admits] using ⟨rfl, rfl⟩
  | u op rd imm => simpa [decode_u, WideSrai, Admits] using ⟨rfl, rfl⟩
  | jal rd halfOffset => simpa [decode_jal, WideSrai, Admits] using ⟨rfl, rfl⟩
  | ecall => exact ⟨fun _ => id, fun _ => ⟨0#64, rfl, rfl⟩⟩
  | ebreak => exact ⟨fun _ => id, fun _ => ⟨0#64, rfl, rfl⟩⟩

theorem decode_encode_add :
    DecodesTo (littleEndian (Instr.r .add 1 2 3).encode) 0 0x1000 (.r .add 1 2 3) ↔
      ¬ WideSrai (.r .add 1 2 3) :=
  decode_encode_iff 0x1000 ⟨[], rfl⟩

/-- `srai x1, x2, 32` comes back as `srli`. -/
theorem decode_srai_wide :
    ¬ DecodesTo (littleEndian (Instr.shift .srai 1 2 32).encode) 0 0 (.shift .srai 1 2 32) := by
  rintro ⟨imm, heq, -⟩
  rw [decode_holds ⟨[], rfl⟩, decode_shift] at heq
  have hop : shiftOpcode .srai 32 = .srai := congrArg Instruction.opcode (Except.ok.inj heq)
  exact absurd hop (by decide)

end DinoRisc.RiscV.Decoder
