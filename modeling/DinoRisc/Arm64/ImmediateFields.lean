import DinoRisc.Arm64.EncoderCorrect
import DinoRisc.Arm64.EncoderErrors

/-! The immediate fields: what is rejected, and what the field of a word holds. -/

namespace DinoRisc.Arm64

open A64 (Instr)
open BitField

/-- The opcode, the size and the value of an instruction with an immediate field, on general
registers. -/
def Instruction.immediate : Instruction → Option (Opcode × DataSize × ℕ)
  | .threeOperand opcode size (.register (.x _)) (.register (.x _)) (.immediate value) =>
    if opcode ∈ [.add, .sub, .cmp, .lsl, .lsr, .asr] then some (opcode, size, value.toNat) else none
  | .twoOperand opcode size (.register (.x _)) (.immediate value) =>
    if opcode ∈ [.cmp, .mov, .movn] then some (opcode, size, value.toNat) else none
  | .moveWide opcode size (.register (.x _)) _ shift =>
    if opcode ∈ [.movz, .movk] then some (opcode, size, shift.toNat) else none
  | _ => none

theorem Instruction.immediate_cases {inst : Instruction} {opcode : Opcode} {size : DataSize}
    {value : ℕ} (h : inst.immediate = some (opcode, size, value)) :
    (∃ rd rn v, opcode ∈ [.add, .sub, .cmp, .lsl, .lsr, .asr] ∧ value = v.toNat ∧
      inst = .threeOperand opcode size (.register (.x rd)) (.register (.x rn)) (.immediate v)) ∨
    (∃ rd v, opcode ∈ [.cmp, .mov, .movn] ∧ value = v.toNat ∧
      inst = .twoOperand opcode size (.register (.x rd)) (.immediate v)) ∨
    ∃ rd imm16 shift, opcode ∈ [.movz, .movk] ∧ value = shift.toNat ∧
      inst = .moveWide opcode size (.register (.x rd)) imm16 shift := by
  unfold immediate at h
  split at h
  · split at h
    · cases h
      exact .inl ⟨_, _, _, ‹_›, rfl, rfl⟩
    · cases h
  · split at h
    · cases h
      exact .inr (.inl ⟨_, _, ‹_›, rfl, rfl⟩)
    · cases h
  · split at h
    · cases h
      exact .inr (.inr ⟨_, _, _, ‹_›, rfl, rfl⟩)
    · cases h
  · cases h

namespace Opcode

def Representable (size : DataSize) (value : ℕ) : Opcode → Prop
  | .add | .sub | .cmp => value ≤ 4095
  | .lsl | .lsr | .asr => value < size.width
  | .mov | .movn => value ≤ 65535
  | .movz | .movk => value = 0 ∨ value = 16 ∨ size = .x ∧ (value = 32 ∨ value = 48)
  | _ => False

/-- The values that pass the check of the encoder. -/
def Checked (size : DataSize) (value : ℕ) : Opcode → Prop
  | .add | .sub | .cmp => value % 2 ^ 32 ≤ 4095
  | .movz | .movk => value < 64
  | opcode => opcode.Representable size value

/-- The values that the check judges right. -/
def Judged (size : DataSize) (value : ℕ) : Opcode → Prop
  | .add | .sub | .cmp => value < 2 ^ 32 ∨ 4095 < value % 2 ^ 32
  | .movz | .movk => 64 ≤ value ∨ value = 0 ∨ value = 16 ∨ size = .x ∧ (value = 32 ∨ value = 48)
  | _ => True

/-- The value that the field of a word holds; the shifts are aliases of UBFM and SBFM. -/
def field (size : DataSize) (word : BitVec 32) : Opcode → Option ℕ
  | .add | .sub | .cmp =>
    if word.extractLsb' 22 1 = 0#1 then some (word.extractLsb' 10 12).toNat else none
  | .lsl =>
    let amount := size.width - 1 - (word.extractLsb' 10 6).toNat
    if (word.extractLsb' 16 6).toNat = (size.width - amount) % size.width then some amount else none
  | .lsr | .asr =>
    if (word.extractLsb' 10 6).toNat = size.width - 1 then some (word.extractLsb' 16 6).toNat
    else none
  | .mov | .movn =>
    if word.extractLsb' 21 2 = 0#2 then some (word.extractLsb' 5 16).toNat else none
  | .movz | .movk => some (16 * (word.extractLsb' 21 2).toNat)
  | _ => none

theorem checked_iff {size : DataSize} {value : ℕ} {opcode : Opcode} :
    (opcode.Checked size value ↔ opcode.Representable size value) ↔ opcode.Judged size value := by
  cases opcode <;> simp only [Checked, Representable, Judged]
  case movz | movk =>
    by_cases hvalue : value < 64
    · simp [hvalue, Nat.not_le.mpr hvalue]
    · simp only [hvalue, Nat.not_lt.mp hvalue, false_iff, true_or, iff_true]
      rintro (h | h | ⟨-, h | h⟩) <;> omega
  all_goals omega

end Opcode

namespace Encoder

variable {name : String} {value : BitVec 64} {size : DataSize} {opcode : Opcode}

theorem getImm12_ok_iff : (∃ imm, getImm12 name (.immediate value) = .ok imm) ↔
    value.toNat % 2 ^ 32 ≤ 4095 := by
  have hle : value.setWidth 32 > 0xFFF#32 ↔ ¬ value.toNat % 2 ^ 32 ≤ 4095 := by
    rw [gt_iff_lt, BitVec.lt_def, BitVec.toNat_setWidth, BitVec.toNat_ofNat]
    omega
  simp only [getImm12, getImmediate, bind, Except.bind, pure, Except.pure, hle]
  split <;> simp_all [throw, throwThe, MonadExceptOf.throw]

theorem getImm16_ok_iff : (∃ imm, getImm16 name (.immediate value) = .ok imm) ↔
    value.toNat ≤ 65535 := by
  have hle : value > 0xFFFF#64 ↔ ¬ value.toNat ≤ 65535 := by
    rw [gt_iff_lt, BitVec.lt_def, BitVec.toNat_ofNat]
    omega
  simp only [getImm16, getImmediate, bind, Except.bind, pure, Except.pure, hle]
  split <;> simp_all [throw, throwThe, MonadExceptOf.throw]

theorem getShiftAmount_ok_iff :
    (∃ amount, getShiftAmount name (getSfBit size) (.immediate value) = .ok amount) ↔
      value.toNat < size.width := by
  have hge : value ≥ (if getSfBit size = 1#32 then 64#32 else 32#32).setWidth 64 ↔
      ¬ value.toNat < size.width := by
    rw [ge_iff_le, BitVec.le_def]
    cases size <;> simp [getSfBit, DataSize.width]
  simp only [getShiftAmount, getImmediate, bind, Except.bind, pure, Except.pure, hge]
  split <;> simp_all [throw, throwThe, MonadExceptOf.throw]

theorem bind_ok_iff {α : Type} {x : Except Error α} {f : α → BitVec 32} :
    (∃ word, x >>= (fun a => .ok (f a)) = .ok word) ↔ ∃ a, x = .ok a := by
  cases x <;> simp [bind, Except.bind]

theorem encodeThreeOperandInst_ok_iff (rd rn : Fin 31)
    (hop : opcode ∈ [.add, .sub, .cmp, .lsl, .lsr, .asr]) :
    (∃ word, encodeThreeOperandInst opcode size (.register (.x rd)) (.register (.x rn))
      (.immediate value) = .ok word) ↔ opcode.Checked size value.toNat := by
  simp only [List.mem_cons, List.not_mem_nil, or_false] at hop
  rcases hop with rfl | rfl | rfl | rfl | rfl | rfl
  · exact bind_ok_iff.trans getImm12_ok_iff
  · exact bind_ok_iff.trans getImm12_ok_iff
  · exact bind_ok_iff.trans getImm12_ok_iff
  · exact bind_ok_iff.trans getShiftAmount_ok_iff
  · exact bind_ok_iff.trans getShiftAmount_ok_iff
  · exact bind_ok_iff.trans getShiftAmount_ok_iff

theorem encodeTwoOperandInst_ok_iff (rd : Fin 31) (hop : opcode ∈ [.cmp, .mov, .movn]) :
    (∃ word, encodeTwoOperandInst opcode size (.register (.x rd)) (.immediate value) = .ok word) ↔
      opcode.Checked size value.toNat := by
  simp only [List.mem_cons, List.not_mem_nil, or_false] at hop
  rcases hop with rfl | rfl | rfl
  · exact bind_ok_iff.trans getImm12_ok_iff
  · exact bind_ok_iff.trans getImm16_ok_iff
  · exact bind_ok_iff.trans getImm16_ok_iff

theorem encodeMoveWideInst_ok_iff (rd : Fin 31) (hop : opcode ∈ [.movz, .movk]) (imm16 : BitVec 16)
    (shift : BitVec 8) :
    (∃ word, encodeMoveWideInst opcode size (.register (.x rd)) imm16 shift = .ok word) ↔
      opcode.Checked size shift.toNat := by
  have hhw : (shift / 16#8).setWidth 32 > 3#32 ↔ ¬ shift.toNat < 64 := by
    rw [gt_iff_lt, BitVec.lt_def, BitVec.toNat_setWidth, BitVec.toNat_udiv]
    simp only [BitVec.toNat_ofNat, Nat.reducePow, Nat.reduceMod]
    omega
  simp only [encodeMoveWideInst, encodeRegister_general, bind, Except.bind, pure, Except.pure, hhw]
  simp only [List.mem_cons, List.not_mem_nil, or_false] at hop
  rcases hop with rfl | rfl
  all_goals
    simp only [Opcode.Checked]
    split <;> simp_all [throw, throwThe, MonadExceptOf.throw]

theorem encodeWord_ok_iff {inst : Instruction} {value : ℕ}
    (h : inst.immediate = some (opcode, size, value)) :
    (∃ word, encodeWord inst = .ok word) ↔ opcode.Checked size value := by
  obtain ⟨rd, rn, v, hop, rfl, rfl⟩ | ⟨rd, v, hop, rfl, rfl⟩ | ⟨rd, imm16, shift, hop, rfl, rfl⟩ :=
    Instruction.immediate_cases h
  · exact encodeThreeOperandInst_ok_iff rd rn hop
  · exact encodeTwoOperandInst_ok_iff rd hop
  · exact encodeMoveWideInst_ok_iff rd hop imm16 shift

/-! ### The fields of the words -/

theorem addSubImm_field (hop : opcode ∈ [.add, .sub, .cmp]) (sf op s : BitVec 1)
    (imm12 : BitVec 12) (rn rd : BitVec 5) :
    opcode.field size (Instr.addSubImm sf op s 0#1 imm12 rn rd).encode = some imm12.toNat := by
  have hfield (word : BitVec 32) : opcode.field size word =
      if word.extractLsb' 22 1 = 0#1 then some (word.extractLsb' 10 12).toNat else none := by
    simp only [List.mem_cons, List.not_mem_nil, or_false] at hop
    rcases hop with rfl | rfl | rfl <;> rfl
  rw [hfield]
  simp (disch := omega) [Instr.encode, Instr.place, BitVec.extractLsb'_or, extract_place,
    extract_place_disjoint, extract_low_disjoint]

theorem moveWide_fields (sf : BitVec 1) (opc hw : BitVec 2) (imm16 : BitVec 16) (rd : BitVec 5) :
    (Instr.moveWide sf opc hw imm16 rd).encode.extractLsb' 21 2 = hw ∧
      (Instr.moveWide sf opc hw imm16 rd).encode.extractLsb' 5 16 = imm16 := by
  constructor
  all_goals simp (disch := omega) [Instr.encode, Instr.place, BitVec.extractLsb'_or, extract_place,
    extract_place_disjoint, extract_low_disjoint]

theorem bitfield_fields (sf : BitVec 1) (opc : BitVec 2) (n : BitVec 1) (immr imms : BitVec 6)
    (rn rd : BitVec 5) :
    (Instr.bitfield sf opc n immr imms rn rd).encode.extractLsb' 16 6 = immr ∧
      (Instr.bitfield sf opc n immr imms rn rd).encode.extractLsb' 10 6 = imms := by
  constructor
  all_goals simp (disch := omega) [Instr.encode, Instr.place, BitVec.extractLsb'_or, extract_place,
    extract_place_disjoint, extract_low_disjoint]

theorem toNat_setWidth_field {k : ℕ} (h : value.toNat < 2 ^ k) :
    (value.setWidth k).toNat = value.toNat := by
  rw [BitVec.toNat_setWidth, Nat.mod_eq_of_lt h]

theorem encodeThreeOperandInst_field (rd rn : Fin 31) {word : BitVec 32}
    (hop : opcode ∈ [.add, .sub, .cmp, .lsl, .lsr, .asr])
    (hvalue : opcode.Representable size value.toNat)
    (h : encodeThreeOperandInst opcode size (.register (.x rd)) (.register (.x rn))
      (.immediate value) = .ok word) : opcode.field size word = some value.toNat := by
  have hfit : value.toNat < opcode.immediates size := by
    simp only [List.mem_cons, List.not_mem_nil, or_false] at hop
    rcases hop with rfl | rfl | rfl | rfl | rfl | rfl <;>
      simp only [Opcode.Representable, Opcode.immediates] at hvalue ⊢ <;> omega
  obtain ⟨i, hi, rfl⟩ := encodeThreeOperandInst_emit size opcode rd rn _ (.inr ⟨value, rfl, hfit⟩) h
  have hle : size.width ≤ 64 := by cases size <;> decide
  have hlast : (BitVec.ofNat 6 (size.width - 1)).toNat = size.width - 1 := by
    rw [BitVec.toNat_ofNat, Nat.mod_eq_of_lt (by omega)]
  simp only [List.mem_cons, List.not_mem_nil, or_false] at hop
  rcases hop with rfl | rfl | rfl | rfl | rfl | rfl
  all_goals
    simp only [emitThreeOperand, Option.some.injEq] at hi
    subst hi
    simp only [Opcode.Representable] at hvalue
  · rw [addSubImm_field (by simp), toNat_setWidth_field hfit]
  · rw [addSubImm_field (by simp), toNat_setWidth_field hfit]
  · rw [addSubImm_field (by simp), toNat_setWidth_field hfit]
  · -- the last bit of the field is `width - 1 - amount`, and the rotation is `-amount`
    have hmod := Nat.mod_lt (size.width - value.toNat) (by omega : 0 < size.width)
    have himmr : (BitVec.ofNat 6 ((size.width - value.toNat) % size.width)).toNat =
        (size.width - value.toNat) % size.width := by
      rw [BitVec.toNat_ofNat, Nat.mod_eq_of_lt (b := 2 ^ 6) (by omega)]
    have himms : (BitVec.ofNat 6 (size.width - 1 - value.toNat)).toNat =
        size.width - 1 - value.toNat := by
      rw [BitVec.toNat_ofNat, Nat.mod_eq_of_lt (by omega)]
    have hamount : size.width - 1 - (size.width - 1 - value.toNat) = value.toNat := by omega
    simp only [Opcode.field, (bitfield_fields ..).1, (bitfield_fields ..).2, himmr, himms, hamount,
      if_true]
  · simp only [Opcode.field, (bitfield_fields ..).1, (bitfield_fields ..).2, hlast, if_true]
    rw [toNat_setWidth_field (by omega)]
  · simp only [Opcode.field, (bitfield_fields ..).1, (bitfield_fields ..).2, hlast, if_true]
    rw [toNat_setWidth_field (by omega)]

theorem encodeTwoOperandInst_field (rd : Fin 31) {word : BitVec 32}
    (hop : opcode ∈ [.cmp, .mov, .movn]) (hvalue : opcode.Representable size value.toNat)
    (h : encodeTwoOperandInst opcode size (.register (.x rd)) (.immediate value) = .ok word) :
    opcode.field size word = some value.toNat := by
  have hfit : value.toNat < opcode.immediates size := by
    simp only [List.mem_cons, List.not_mem_nil, or_false] at hop
    rcases hop with rfl | rfl | rfl <;>
      simp only [Opcode.Representable, Opcode.immediates] at hvalue ⊢ <;> omega
  obtain ⟨i, hi, rfl⟩ := encodeTwoOperandInst_emit size opcode rd _ (.inr ⟨value, rfl, hfit⟩) h
  simp only [List.mem_cons, List.not_mem_nil, or_false] at hop
  rcases hop with rfl | rfl | rfl
  all_goals
    simp only [emitTwoOperand, Option.some.injEq] at hi
    subst hi
  · rw [addSubImm_field (by simp), toNat_setWidth_field hfit]
  all_goals
    simp only [Opcode.field, (moveWide_fields ..).1, (moveWide_fields ..).2, if_true]
    rw [toNat_setWidth_field hfit]

theorem encodeMoveWideInst_field (rd : Fin 31) (hop : opcode ∈ [.movz, .movk]) {imm16 : BitVec 16}
    {shift : BitVec 8} {word : BitVec 32} (hvalue : opcode.Representable size shift.toNat)
    (h : encodeMoveWideInst opcode size (.register (.x rd)) imm16 shift = .ok word) :
    opcode.field size word = some shift.toNat := by
  have hrange : shift.toNat = 0 ∨ shift.toNat = 16 ∨ shift.toNat = 32 ∨ shift.toNat = 48 := by
    simp only [List.mem_cons, List.not_mem_nil, or_false] at hop
    rcases hop with rfl | rfl <;> simp only [Opcode.Representable] at hvalue <;> omega
  have hshift : shift ∈ [0#8, 16#8, 32#8, 48#8] := by
    simp only [List.mem_cons, List.not_mem_nil, or_false, BitVec.toNat_eq]
    exact hrange
  obtain ⟨i, hi, rfl⟩ := encodeMoveWideInst_emit size opcode rd imm16 shift hshift h
  have hpos : 16 * ((shift / 16#8).setWidth 2).toNat = shift.toNat := by
    simp only [List.mem_cons, List.not_mem_nil, or_false] at hshift
    obtain rfl | rfl | rfl | rfl := hshift <;> rfl
  simp only [List.mem_cons, List.not_mem_nil, or_false] at hop
  rcases hop with rfl | rfl
  all_goals
    simp only [emitMoveWide, Option.some.injEq] at hi
    subst hi
    simp only [Opcode.field, (moveWide_fields ..).1, hpos]

theorem encodeWord_field {inst : Instruction} {value : ℕ} {word : BitVec 32}
    (h : inst.immediate = some (opcode, size, value)) (hvalue : opcode.Representable size value)
    (hok : encodeWord inst = .ok word) : opcode.field size word = some value := by
  obtain ⟨rd, rn, v, hop, rfl, rfl⟩ | ⟨rd, v, hop, rfl, rfl⟩ | ⟨rd, imm16, shift, hop, rfl, rfl⟩ :=
    Instruction.immediate_cases h
  · exact encodeThreeOperandInst_field rd rn hop hvalue hok
  · exact encodeTwoOperandInst_field rd hop hvalue hok
  · exact encodeMoveWideInst_field rd hop hvalue hok

theorem encodeInstruction_error_iff {inst : Instruction} :
    (∃ message, encodeInstruction inst = .error (.encoding message)) ↔
      ¬ ∃ word, encodeWord inst = .ok word := by
  cases hword : encodeWord inst with
  | ok word => simp [encodeInstruction, hword, bind, Except.bind, pure, Except.pure]
  | error e =>
    obtain ⟨message, rfl⟩ := encodeWord_encodingOnly inst e hword
    simp [encodeInstruction, hword, bind, Except.bind]

/-- What the encoder takes for an immediate field is what the field can hold, except for values of
more than 32 bits in ADD, SUB and CMP and for shifts below 64 in MOVZ and MOVK. -/
theorem encodeInstruction_immediate_iff {inst : Instruction} {value : ℕ}
    (h : inst.immediate = some (opcode, size, value)) :
    (((∃ message, encodeInstruction inst = .error (.encoding message)) ↔
        ¬ opcode.Representable size value) ∧
      ∀ bytes, encodeInstruction inst = .ok bytes →
        ∃ word, fetch bytes = some word ∧ opcode.field size word = some value) ↔
      opcode.Judged size value := by
  rw [encodeInstruction_error_iff, encodeWord_ok_iff h, not_iff_not, Opcode.checked_iff]
  constructor
  · exact And.left
  · intro hjudged
    refine ⟨hjudged, fun bytes hbytes => ?_⟩
    obtain ⟨word, hword, hfetch⟩ := encodeInstruction_fetch hbytes
    have hvalue : opcode.Representable size value :=
      (Opcode.checked_iff.mpr hjudged).mp ((encodeWord_ok_iff h).mp ⟨word, hword⟩)
    exact ⟨word, hfetch, encodeWord_field h hvalue hword⟩

theorem encodeInstruction_immediate_iff_add :
    (((∃ message, encodeInstruction (.threeOperand .add .x (.register (.x 0)) (.register (.x 1))
          (.immediate 0x1000#64)) = .error (.encoding message)) ↔
        ¬ Opcode.add.Representable .x 0x1000) ∧
      ∀ bytes, encodeInstruction (.threeOperand .add .x (.register (.x 0)) (.register (.x 1))
          (.immediate 0x1000#64)) = .ok bytes →
        ∃ word, fetch bytes = some word ∧ Opcode.add.field .x word = some 0x1000) ↔
      Opcode.add.Judged .x 0x1000 :=
  encodeInstruction_immediate_iff rfl

/-- `ADD X0, X1, #0x100000001` is encoded as `ADD X0, X1, #1`. -/
theorem encodeInstruction_immediate_truncated :
    let add := Instruction.threeOperand .add .x (.register (.x 0)) (.register (.x 1))
      (.immediate 0x100000001#64)
    add.immediate = some (.add, .x, 0x100000001) ∧ ¬ Opcode.add.Representable .x 0x100000001 ∧
      ∃ bytes word, encodeInstruction add = .ok bytes ∧ fetch bytes = some word ∧
        Opcode.add.field .x word = some 1 :=
  ⟨rfl, by unfold Opcode.Representable; decide, _, _, rfl, rfl, rfl⟩

end Encoder

end DinoRisc.Arm64
