import DinoRisc.RiscV.DecoderCorrect

namespace DinoRisc.RiscV.Decoder

open BitField Encoding

/-! ### A word from its fields -/

theorem iWord_of_fields (w : BitVec 32) :
    iWord (w.extractLsb' 20 12) (w.extractLsb' 15 5) (w.extractLsb' 12 3) (w.extractLsb' 7 5)
      (w.extractLsb' 0 7) = w := by
  apply BitVec.eq_of_getLsbD_eq
  intro i hi
  simp only [iWord, BitVec.getLsbD_or, BitVec.getLsbD_shiftLeft, BitVec.getLsbD_setWidth,
    BitVec.getLsbD_extractLsb']
  interval_cases i <;> simp

theorem rWord_of_fields (w : BitVec 32) :
    rWord (w.extractLsb' 25 7) (w.extractLsb' 20 5) (w.extractLsb' 15 5) (w.extractLsb' 12 3)
      (w.extractLsb' 7 5) (w.extractLsb' 0 7) = w := by
  apply BitVec.eq_of_getLsbD_eq
  intro i hi
  simp only [rWord, BitVec.getLsbD_or, BitVec.getLsbD_shiftLeft, BitVec.getLsbD_setWidth,
    BitVec.getLsbD_extractLsb']
  interval_cases i <;> simp

theorem sWord_of_fields (w : BitVec 32) (h : w.extractLsb' 0 7 = 0x23#7) :
    sWord (sPieces w) (w.extractLsb' 20 5) (w.extractLsb' 15 5) (w.extractLsb' 12 3) = w := by
  have hlo : (sPieces w).extractLsb' 0 5 = w.extractLsb' 7 5 := by
    apply BitVec.eq_of_getLsbD_eq
    intro i hi
    simp only [sPieces, BitVec.getLsbD_extractLsb', BitVec.getLsbD_append]
    interval_cases i <;> simp
  have hhi : (sPieces w).extractLsb' 5 7 = w.extractLsb' 25 7 := by
    apply BitVec.eq_of_getLsbD_eq
    intro i hi
    simp only [sPieces, BitVec.getLsbD_extractLsb', BitVec.getLsbD_append]
    interval_cases i <;> simp
  rw [sWord, hlo, hhi, ← h, rWord_of_fields]

theorem bWord_of_fields (w : BitVec 32) (h : w.extractLsb' 0 7 = 0x63#7) :
    bWord (bPieces w) (w.extractLsb' 20 5) (w.extractLsb' 15 5) (w.extractLsb' 12 3) = w := by
  rw [bWord, ← h]
  apply BitVec.eq_of_getLsbD_eq
  intro i hi
  simp only [bPieces, BitVec.getLsbD_or, BitVec.getLsbD_shiftLeft, BitVec.getLsbD_setWidth,
    BitVec.getLsbD_extractLsb', BitVec.getLsbD_append]
  interval_cases i <;> simp

theorem uWord_of_fields (w : BitVec 32) :
    uWord (w.extractLsb' 12 20) (w.extractLsb' 7 5) (w.extractLsb' 0 7) = w := by
  apply BitVec.eq_of_getLsbD_eq
  intro i hi
  simp only [uWord, BitVec.getLsbD_or, BitVec.getLsbD_shiftLeft, BitVec.getLsbD_setWidth,
    BitVec.getLsbD_extractLsb']
  interval_cases i <;> simp

theorem jWord_of_fields (w : BitVec 32) (h : w.extractLsb' 0 7 = 0x6F#7) :
    jWord (jPieces w) (w.extractLsb' 7 5) = w := by
  rw [jWord, ← h]
  apply BitVec.eq_of_getLsbD_eq
  intro i hi
  simp only [jPieces, BitVec.getLsbD_or, BitVec.getLsbD_shiftLeft, BitVec.getLsbD_setWidth,
    BitVec.getLsbD_extractLsb', BitVec.getLsbD_append]
  interval_cases i <;> simp

/-! ### Which words are recognized -/

/-- The words whose `funct7` the decoder compares with `0x20` at most: all of OP, the three
instructions of OP-32 and the shifts by an immediate. -/
def Unchecked (w : BitVec 32) : Prop :=
  let major := w.extractLsb' 0 7
  let funct3 := w.extractLsb' 12 3
  major = 0x33#7 ∨ (major = 0x3B#7 ∧ (funct3 = 0#3 ∨ funct3 = 1#3 ∨ funct3 = 5#3)) ∨
    ((major = 0x13#7 ∨ major = 0x1B#7) ∧ (funct3 = 1#3 ∨ funct3 = 5#3))

instance : DecidablePred Unchecked := fun w => by
  unfold Unchecked
  infer_instance

/-- A word with these fields is recognized because of one table entry. -/
inductive Recognized (w : BitVec 32) : Prop
  | unchecked (h : Unchecked w)
  | i (op : IOp) (hmajor : w.extractLsb' 0 7 = op.major) (hfunct : w.extractLsb' 12 3 = op.funct3)
  | s (op : SOp) (hmajor : w.extractLsb' 0 7 = 0x23#7) (hfunct : w.extractLsb' 12 3 = op.funct3)
  | b (op : BOp) (hmajor : w.extractLsb' 0 7 = 0x63#7) (hfunct : w.extractLsb' 12 3 = op.funct3)
  | u (op : UOp) (hmajor : w.extractLsb' 0 7 = op.major)
  | jal (hmajor : w.extractLsb' 0 7 = 0x6F#7)
  | system (h : w = 0x00000073#32 ∨ w = 0x00100073#32)

theorem toNat_field {l : ℕ} (x : BitVec l) (h : l ≤ 32) : (x.setWidth 32).toNat = x.toNat := by
  have hlt := x.isLt
  have hpow : 2 ^ l ≤ 2 ^ 32 := Nat.pow_le_pow_right (by omega) h
  rw [BitVec.toNat_setWidth, Nat.mod_eq_of_lt (by omega)]

theorem field_eq {l : ℕ} {x : BitVec l} {k : ℕ} (h : l ≤ 32)
    (hx : (x.setWidth 32).toNat = k) : x = BitVec.ofNat l k := by
  rw [toNat_field x h] at hx
  rw [← hx, BitVec.ofNat_toNat, BitVec.setWidth_eq]

/-- The system instructions are told apart by the two upper fields put together. -/
theorem imm12_join (w : BitVec 32) :
    (w.extractLsb' 20 5).setWidth 32 ||| (w.extractLsb' 25 7).setWidth 32 <<< 5 =
      (w.extractLsb' 20 12).setWidth 32 := by
  apply BitVec.eq_of_getLsbD_eq
  intro i hi
  simp only [BitVec.getLsbD_or, BitVec.getLsbD_shiftLeft, BitVec.getLsbD_setWidth,
    BitVec.getLsbD_extractLsb']
  interval_cases i <;> simp

theorem determineOpcode_recognized {w : BitVec 32} {op : Opcode}
    (h : determineOpcode (extractFields w) = .ok op) : Recognized w := by
  rw [extractFields_eq] at h
  unfold determineOpcode at h
  split at h
  case h_1 hmajor => exact .unchecked (.inl (field_eq (by omega) hmajor))
  case h_2 hmajor =>
    have hm := field_eq (by omega) hmajor
    split at h
    case h_1 hf => exact .unchecked (.inr (.inl ⟨hm, .inl (field_eq (by omega) hf)⟩))
    case h_2 hf => exact .unchecked (.inr (.inl ⟨hm, .inr (.inl (field_eq (by omega) hf))⟩))
    case h_3 hf => exact .unchecked (.inr (.inl ⟨hm, .inr (.inr (field_eq (by omega) hf))⟩))
    case h_4 => cases h
  case h_3 hmajor =>
    have hm := field_eq (by omega) hmajor
    split at h
    case h_1 hf => exact .i .addi hm (field_eq (by omega) hf)
    case h_2 hf => exact .unchecked (.inr (.inr ⟨.inl hm, .inl (field_eq (by omega) hf)⟩))
    case h_3 hf => exact .i .slti hm (field_eq (by omega) hf)
    case h_4 hf => exact .i .sltiu hm (field_eq (by omega) hf)
    case h_5 hf => exact .i .xori hm (field_eq (by omega) hf)
    case h_6 hf => exact .unchecked (.inr (.inr ⟨.inl hm, .inr (field_eq (by omega) hf)⟩))
    case h_7 hf => exact .i .ori hm (field_eq (by omega) hf)
    case h_8 hf => exact .i .andi hm (field_eq (by omega) hf)
    case h_9 => cases h
  case h_4 hmajor =>
    have hm := field_eq (by omega) hmajor
    split at h
    case h_1 hf => exact .i .addiw hm (field_eq (by omega) hf)
    case h_2 hf => exact .unchecked (.inr (.inr ⟨.inr hm, .inl (field_eq (by omega) hf)⟩))
    case h_3 hf => exact .unchecked (.inr (.inr ⟨.inr hm, .inr (field_eq (by omega) hf)⟩))
    case h_4 => cases h
  case h_5 hmajor =>
    have hm := field_eq (by omega) hmajor
    split at h
    case h_1 hf => exact .i .lb hm (field_eq (by omega) hf)
    case h_2 hf => exact .i .lh hm (field_eq (by omega) hf)
    case h_3 hf => exact .i .lw hm (field_eq (by omega) hf)
    case h_4 hf => exact .i .ld hm (field_eq (by omega) hf)
    case h_5 hf => exact .i .lbu hm (field_eq (by omega) hf)
    case h_6 hf => exact .i .lhu hm (field_eq (by omega) hf)
    case h_7 hf => exact .i .lwu hm (field_eq (by omega) hf)
    case h_8 => cases h
  case h_6 hmajor =>
    have hm := field_eq (by omega) hmajor
    split at h
    case h_1 hf => exact .s .sb hm (field_eq (by omega) hf)
    case h_2 hf => exact .s .sh hm (field_eq (by omega) hf)
    case h_3 hf => exact .s .sw hm (field_eq (by omega) hf)
    case h_4 hf => exact .s .sd hm (field_eq (by omega) hf)
    case h_5 => cases h
  case h_7 hmajor =>
    have hm := field_eq (by omega) hmajor
    split at h
    case h_1 hf => exact .b .beq hm (field_eq (by omega) hf)
    case h_2 hf => exact .b .bne hm (field_eq (by omega) hf)
    case h_3 hf => exact .b .blt hm (field_eq (by omega) hf)
    case h_4 hf => exact .b .bge hm (field_eq (by omega) hf)
    case h_5 hf => exact .b .bltu hm (field_eq (by omega) hf)
    case h_6 hf => exact .b .bgeu hm (field_eq (by omega) hf)
    case h_7 => cases h
  case h_8 hmajor =>
    split at h
    case isTrue hf =>
      have hfunct := congrArg BitVec.toNat hf
      exact .i .jalr (field_eq (by omega) hmajor) (field_eq (by omega) hfunct)
    case isFalse => cases h
  case h_9 hmajor => exact .jal (field_eq (by omega) hmajor)
  case h_10 hmajor => exact .u .lui (field_eq (by omega) hmajor)
  case h_11 hmajor => exact .u .auipc (field_eq (by omega) hmajor)
  case h_12 hmajor =>
    split at h
    case isFalse => cases h
    case isTrue hf =>
      obtain ⟨hf3, hrd, hrs1⟩ := hf
      have hm : w.extractLsb' 0 7 = 0x73#7 := field_eq (by omega) hmajor
      have hf3 : w.extractLsb' 12 3 = 0#3 := field_eq (by omega) (congrArg BitVec.toNat hf3)
      have hrd : w.extractLsb' 7 5 = 0#5 := field_eq (by omega) (congrArg BitVec.toNat hrd)
      have hrs1 : w.extractLsb' 15 5 = 0#5 := field_eq (by omega) (congrArg BitVec.toNat hrs1)
      have hw := iWord_of_fields w
      rw [hm, hf3, hrd, hrs1] at hw
      rw [imm12_join] at h
      dsimp only at h
      split at h
      case isTrue himm =>
        have himm := field_eq (by omega) (congrArg BitVec.toNat himm)
        exact .system (.inl (by rw [← hw, himm]; rfl))
      case isFalse =>
        split at h
        case isTrue himm =>
          have himm := field_eq (by omega) (congrArg BitVec.toNat himm)
          exact .system (.inr (by rw [← hw, himm]; rfl))
        case isFalse => cases h
  case h_13 => cases h

theorem Recognized.encoded {w : BitVec 32} (h : Recognized w) (hchk : ¬ Unchecked w) :
    ∃ i : Instr, i.encode = w := by
  cases h with
  | unchecked hu => exact absurd hu hchk
  | i op hmajor hfunct =>
    exact ⟨.i op (w.extractLsb' 7 5) (w.extractLsb' 15 5) (w.extractLsb' 20 12), by
      rw [Instr.encode, ← hmajor, ← hfunct, iWord_of_fields]⟩
  | s op hmajor hfunct =>
    exact ⟨.s op (w.extractLsb' 15 5) (w.extractLsb' 20 5) (sPieces w), by
      rw [Instr.encode, ← hfunct, sWord_of_fields w hmajor]⟩
  | b op hmajor hfunct =>
    exact ⟨.b op (w.extractLsb' 15 5) (w.extractLsb' 20 5) (bPieces w), by
      rw [Instr.encode, ← hfunct, bWord_of_fields w hmajor]⟩
  | u op hmajor =>
    exact ⟨.u op (w.extractLsb' 7 5) (w.extractLsb' 12 20), by
      rw [Instr.encode, ← hmajor, uWord_of_fields]⟩
  | jal hmajor =>
    exact ⟨.jal (w.extractLsb' 7 5) (jPieces w), by rw [Instr.encode, jWord_of_fields w hmajor]⟩
  | system hw =>
    obtain rfl | rfl := hw
    · exact ⟨.ecall, rfl⟩
    · exact ⟨.ebreak, rfl⟩

theorem determineOpcode_error {fields : DecodedFields} {e : Error}
    (h : determineOpcode fields = .error e) : e = unrecognized fields := by
  simp only [determineOpcode] at h
  repeat' split at h
  all_goals first
    | (cases h; done)
    | (cases h; rfl)

theorem determineOpcode_unchecked {w : BitVec 32} (h : Unchecked w) :
    ∃ op, determineOpcode (extractFields w) = .ok op := by
  have hcases : ∀ x : BitVec 3, x = 0#3 ∨ x = 1#3 ∨ x = 2#3 ∨ x = 3#3 ∨ x = 4#3 ∨ x = 5#3 ∨
      x = 6#3 ∨ x = 7#3 := by decide
  rw [extractFields_eq]
  obtain hm | ⟨hm, hf⟩ | ⟨hm | hm, hf⟩ := h
  · rw [hm]
    obtain hf | hf | hf | hf | hf | hf | hf | hf := hcases (w.extractLsb' 12 3) <;>
      rw [hf] <;> exact ⟨_, rfl⟩
  · rw [hm]
    obtain hf | hf | hf := hf <;> rw [hf] <;> exact ⟨_, rfl⟩
  · rw [hm]
    obtain hf | hf := hf <;> rw [hf] <;> exact ⟨_, rfl⟩
  · rw [hm]
    obtain hf | hf := hf <;> rw [hf] <;> exact ⟨_, rfl⟩

theorem determineOpcode_ne_invalid {fields : DecodedFields} {op : Opcode}
    (h : determineOpcode fields = .ok op) : op ≠ .invalid := by
  simp only [determineOpcode] at h
  repeat' split at h
  all_goals first
    | (cases h; done)
    | (cases h; decide)

theorem extractOperands_ok (fields : DecodedFields) {op : Opcode} (raw : BitVec 32)
    (h : op ≠ .invalid) : ∃ operands, extractOperands fields op raw = .ok operands := by
  cases op <;> first | exact ⟨_, rfl⟩ | exact absurd rfl h

/-- A word outside RV64I is refused exactly when the decoder checks its `funct7`. -/
theorem decode_error_iff {data : List (BitVec 8)} {offset : ℕ} {w : BitVec 32} (pc : BitVec 64)
    (h : Holds data offset w) (hw : ∀ i : Instr, i.encode ≠ w) :
    (∃ what, decode data offset pc = .error (.decoding what)) ↔ ¬ Unchecked w := by
  rw [decode_holds h]
  constructor
  · rintro ⟨what, herr⟩ hu
    obtain ⟨op, hop⟩ := determineOpcode_unchecked hu
    obtain ⟨operands, hops⟩ := extractOperands_ok (extractFields w) w
      (determineOpcode_ne_invalid hop)
    rw [decodeWord_ok hop hops] at herr
    cases herr
  · intro hchk
    cases hop : determineOpcode (extractFields w) with
    | ok op =>
      obtain ⟨i, hi⟩ := (determineOpcode_recognized hop).encoded hchk
      exact absurd hi (hw i)
    | error e =>
      rw [decodeWord, hop, determineOpcode_error hop]
      exact ⟨_, rfl⟩

theorem decodeWord_encode (i : Instr) (pc : BitVec 64) :
    ∃ inst, decodeWord i.encode pc = .ok inst := by
  cases i with
  | r op rd rs1 rs2 => exact ⟨_, decode_r op rd rs1 rs2 pc⟩
  | i op rd rs1 imm => exact ⟨_, decode_i op rd rs1 imm pc⟩
  | shift op rd rs1 shamt => exact ⟨_, decode_shift op rd rs1 shamt pc⟩
  | shiftW op rd rs1 shamt => exact ⟨_, decode_shiftW op rd rs1 shamt pc⟩
  | s op rs1 rs2 imm => exact ⟨_, decode_s op rs1 rs2 imm pc⟩
  | b op rs1 rs2 halfOffset => exact ⟨_, decode_b op rs1 rs2 halfOffset pc⟩
  | u op rd imm => exact ⟨_, decode_u op rd imm pc⟩
  | jal rd halfOffset => exact ⟨_, decode_jal rd halfOffset pc⟩
  | ecall => exact ⟨_, rfl⟩
  | ebreak => exact ⟨_, rfl⟩

theorem decode_error_unknown :
    (∃ what, decode (littleEndian 0x00000007#32) 0 0 = .error (.decoding what)) ↔
      ¬ Unchecked 0x00000007#32 :=
  decode_error_iff 0 ⟨[], rfl⟩ fun i hi => by
    obtain ⟨inst, hok⟩ := decodeWord_encode i 0
    rw [hi] at hok
    cases hok

/-- The word of `mul x1, x2, x3` is not in RV64I, and decodes to `add x1, x2, x3`. -/
theorem decode_mul :
    (∀ i : Instr, i.encode ≠ 0x023100b3#32) ∧
      decode (littleEndian 0x023100b3#32) 0 0 =
        .ok ⟨.add, [.register 1, .register 2, .register 3], 0x023100b3#32, 0⟩ := by
  refine ⟨fun i h => ?_, rfl⟩
  have hmajor : (extractFields i.encode).opcode = 0x33#32 := by rw [h]; rfl
  have hfunct : (extractFields i.encode).funct7 = 1#32 := by rw [h]; rfl
  cases i with
  | r op rd rs1 rs2 =>
    rw [Instr.encode, rWord_fields] at hfunct
    dsimp only at hfunct
    cases op <;> exact absurd hfunct (by decide)
  | i op rd rs1 imm =>
    rw [Instr.encode, iWord_fields] at hmajor
    dsimp only at hmajor
    cases op <;> exact absurd hmajor (by decide)
  | shift op rd rs1 shamt =>
    rw [Instr.encode, iWord_fields] at hmajor
    dsimp only at hmajor
    exact absurd hmajor (by decide)
  | shiftW op rd rs1 shamt =>
    rw [Instr.encode, rWord_fields] at hmajor
    dsimp only at hmajor
    exact absurd hmajor (by decide)
  | s op rs1 rs2 imm =>
    rw [Instr.encode, sWord, rWord_fields] at hmajor
    dsimp only at hmajor
    exact absurd hmajor (by decide)
  | b op rs1 rs2 halfOffset =>
    rw [Instr.encode, bWord_fields] at hmajor
    dsimp only at hmajor
    exact absurd hmajor (by decide)
  | u op rd imm =>
    rw [Instr.encode, uWord_eq, rWord_fields] at hmajor
    dsimp only at hmajor
    cases op <;> exact absurd hmajor (by decide)
  | jal rd halfOffset =>
    rw [Instr.encode, jWord_eq, uWord_eq, rWord_fields] at hmajor
    dsimp only at hmajor
    exact absurd hmajor (by decide)
  | ecall => exact absurd hmajor (by decide)
  | ebreak => exact absurd hmajor (by decide)

end DinoRisc.RiscV.Decoder
