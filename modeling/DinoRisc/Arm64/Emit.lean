import DinoRisc.Arm64.Encoder
import DinoRisc.Arm64.Exec

/-!
Which A64 instruction each word of the encoder is, for data processing on general registers.
-/

namespace DinoRisc.Arm64

open A64 (Instr)

namespace Encoder

def sf (size : DataSize) : BitVec 1 := if size = .x then 1#1 else 0#1

def number (n : Fin 31) : BitVec 5 := BitVec.ofNat 5 n

def emitThreeOperand (size : DataSize) (rd rn : Fin 31) : Opcode → Operand → Option Instr
  | .add, .immediate imm =>
    some (.addSubImm (sf size) 0#1 0#1 0#1 (imm.setWidth 12) (number rn) (number rd))
  | .sub, .immediate imm =>
    some (.addSubImm (sf size) 1#1 0#1 0#1 (imm.setWidth 12) (number rn) (number rd))
  | .cmp, .immediate imm =>
    some (.addSubImm (sf size) 1#1 1#1 0#1 (imm.setWidth 12) (number rn) 31#5)
  | .add, .register (.x rm) =>
    some (.addSubShifted (sf size) 0#1 0#1 0#2 (number rm) 0#6 (number rn) (number rd))
  | .sub, .register (.x rm) =>
    some (.addSubShifted (sf size) 1#1 0#1 0#2 (number rm) 0#6 (number rn) (number rd))
  | .cmp, .register (.x rm) =>
    some (.addSubShifted (sf size) 1#1 1#1 0#2 (number rm) 0#6 (number rn) 31#5)
  | .and, .register (.x rm) =>
    some (.logicalShifted (sf size) 0#2 0#2 0#1 (number rm) 0#6 (number rn) (number rd))
  | .orr, .register (.x rm) =>
    some (.logicalShifted (sf size) 1#2 0#2 0#1 (number rm) 0#6 (number rn) (number rd))
  -- ANDS; EOR is `2#2`
  | .eor, .register (.x rm) =>
    some (.logicalShifted (sf size) 3#2 0#2 0#1 (number rm) 0#6 (number rn) (number rd))
  | .mul, .register (.x rm) =>
    some (.dataProc3 (sf size) (number rm) 0#1 31#5 (number rn) (number rd))
  | .lsl, .immediate amount =>
    some (.bitfield (sf size) 2#2 (sf size)
      (BitVec.ofNat 6 ((size.width - amount.toNat) % size.width))
      (BitVec.ofNat 6 (size.width - 1 - amount.toNat)) (number rn) (number rd))
  | .lsr, .immediate amount =>
    some (.bitfield (sf size) 2#2 (sf size) (amount.setWidth 6) (BitVec.ofNat 6 (size.width - 1))
      (number rn) (number rd))
  | .asr, .immediate amount =>
    some (.bitfield (sf size) 0#2 (sf size) (amount.setWidth 6) (BitVec.ofNat 6 (size.width - 1))
      (number rn) (number rd))
  | .lsl, .register (.x rm) =>
    some (.dataProc2 (sf size) (number rm) 0b001000#6 (number rn) (number rd))
  -- unallocated; LSRV is `0b001001`
  | .lsr, .register (.x rm) =>
    some (.dataProc2 (sf size) (number rm) 0b000110#6 (number rn) (number rd))
  | .asr, .register (.x rm) =>
    some (.dataProc2 (sf size) (number rm) 0b001010#6 (number rn) (number rd))
  | _, _ => none

def emitTwoOperand (size : DataSize) (rd : Fin 31) : Opcode → Operand → Option Instr
  | .mov, .immediate imm => some (.moveWide (sf size) 2#2 0#2 (imm.setWidth 16) (number rd))
  | .mov, .register (.x rm) =>
    some (.logicalShifted (sf size) 1#2 0#2 0#1 (number rm) 0#6 31#5 (number rd))
  | .movn, .immediate imm => some (.moveWide (sf size) 0#2 0#2 (imm.setWidth 16) (number rd))
  | .sxtb, .register (.x rn) =>
    some (.bitfield (sf size) 0#2 (sf size) 0#6 7#6 (number rn) (number rd))
  | .sxth, .register (.x rn) =>
    some (.bitfield (sf size) 0#2 (sf size) 0#6 15#6 (number rn) (number rd))
  | .sxtw, .register (.x rn) => some (.bitfield 1#1 0#2 1#1 0#6 31#6 (number rn) (number rd))
  | .cmp, .immediate imm =>
    some (.addSubImm (sf size) 1#1 1#1 0#1 (imm.setWidth 12) (number rd) 31#5)
  | .cmp, .register (.x rm) =>
    some (.addSubShifted (sf size) 1#1 1#1 0#2 (number rm) 0#6 (number rd) 31#5)
  | .ret, .register (.x rn) => some (.ret (number rn))
  | _, _ => none

def emitMoveWide (size : DataSize) (rd : Fin 31) (imm16 : BitVec 16) (shift : BitVec 8) :
    Opcode → Option Instr
  | .movz => some (.moveWide (sf size) 2#2 ((shift / 16#8).setWidth 2) imm16 (number rd))
  | .movk => some (.moveWide (sf size) 3#2 ((shift / 16#8).setWidth 2) imm16 (number rd))
  | _ => none

def emit : Instruction → Option Instr
  | .threeOperand opcode size (.register (.x rd)) (.register (.x rn)) src2 =>
    emitThreeOperand size rd rn opcode src2
  | .twoOperand opcode size (.register (.x rd)) src => emitTwoOperand size rd opcode src
  | .moveWide opcode size (.register (.x rd)) imm16 shift => emitMoveWide size rd imm16 shift opcode
  | .conditional .cset size (.register (.x rd)) condition =>
    some (.condSelect (sf size) 0#1 31#5 (condition.code ^^^ 1#4) 1#1 31#5 (number rd))
  | .conditionalSelect .csel size (.register (.x rd)) (.register (.x rn)) (.register (.x rm))
      condition =>
    some (.condSelect (sf size) 0#1 (number rm) condition.code 0#1 (number rn) (number rd))
  | _ => none

end Encoder

/-! ### The instructions in question -/

/-- The number of values of an immediate operand of the opcode. -/
def Opcode.immediates (size : DataSize) : Opcode → ℕ
  | .add | .sub | .cmp => 2 ^ 12
  | .mov | .movn => 2 ^ 16
  | .lsl | .lsr | .asr => size.width
  | _ => 0

namespace Operand

def IsGeneral (operand : Operand) : Prop := ∃ n, operand = .register (.x n)

/-- A general register, or an immediate that fits its field. -/
def Fits (opcode : Opcode) (size : DataSize) (operand : Operand) : Prop :=
  operand.IsGeneral ∨ ∃ value : BitVec 64, operand = .immediate value ∧
    value.toNat < opcode.immediates size

end Operand

namespace Instruction

/-- Data processing on general registers, with fields that fit. -/
def IsDataProcessing : Instruction → Prop
  | .threeOperand opcode size dest src1 src2 =>
    (size = .w ∨ size = .x) ∧ dest.IsGeneral ∧ src1.IsGeneral ∧ src2.Fits opcode size
  | .twoOperand opcode size dest src =>
    (size = .w ∧ opcode ≠ .sxtw ∨ size = .x) ∧ dest.IsGeneral ∧ src.Fits opcode size
  | .moveWide _ size dest _ shift =>
    (size = .w ∨ size = .x) ∧ dest.IsGeneral ∧ shift ∈ [0#8, 16#8, 32#8, 48#8]
  | .conditional _ size dest condition =>
    (size = .w ∨ size = .x) ∧ dest.IsGeneral ∧ condition ≠ .al ∧ condition ≠ .nv
  | .conditionalSelect _ size dest src1 src2 _ =>
    (size = .w ∨ size = .x) ∧ dest.IsGeneral ∧ src1.IsGeneral ∧ src2.IsGeneral
  | _ => False

end Instruction


namespace Encoder

theorem encodeRegister_general (n : Fin 31) :
    encodeRegister (.register (.x n)) = .ok ((number n).setWidth 32) := by
  have h : (BitVec.ofNat 5 n).setWidth 32 = BitVec.ofNat 32 n := by
    apply BitVec.eq_of_toNat_eq
    simp only [BitVec.toNat_setWidth, BitVec.toNat_ofNat]
    omega
  rw [encodeRegister, number, h]

theorem encodeRegister_immediate (value : BitVec 64) : encodeRegister (.immediate value) =
    .error (.encoding "Invalid operand type for register encoding") := rfl

theorem getSfBit_eq (size : DataSize) : getSfBit size = (sf size).setWidth 32 := by
  cases size <;> rfl

theorem setWidth_field {k : ℕ} (value : BitVec 64) (hk : k ≤ 32) (h : value.toNat < 2 ^ k) :
    value.setWidth 32 = (value.setWidth k).setWidth 32 := by
  have hp : 2 ^ k ≤ 2 ^ 32 := Nat.pow_le_pow_right (by omega) hk
  apply BitVec.eq_of_toNat_eq
  simp only [BitVec.toNat_setWidth]
  rw [Nat.mod_eq_of_lt (a := value.toNat) (b := 2 ^ k) h]

theorem getImm12_ok (name : String) (value : BitVec 64) (h : value.toNat < 2 ^ 12) :
    getImm12 name (.immediate value) = .ok ((value.setWidth 12).setWidth 32) := by
  have hle : ¬ value.setWidth 32 > 0xFFF#32 := by
    simp only [gt_iff_lt, BitVec.lt_def, BitVec.toNat_setWidth, BitVec.toNat_ofNat]
    omega
  rw [← setWidth_field value (by omega) h]
  simp [getImm12, getImmediate, bind, Except.bind, pure, Except.pure, hle]

theorem getImm16_ok (name : String) (value : BitVec 64) (h : value.toNat < 2 ^ 16) :
    getImm16 name (.immediate value) = .ok ((value.setWidth 16).setWidth 32) := by
  have hle : ¬ value > 0xFFFF#64 := by
    simp only [gt_iff_lt, BitVec.lt_def, BitVec.toNat_ofNat]
    omega
  have hmask : value &&& 0xFFFF#64 = value := by
    apply BitVec.eq_of_toNat_eq
    rw [BitVec.toNat_and, show (0xFFFF#64).toNat = 2 ^ 16 - 1 from rfl,
      Nat.and_two_pow_sub_one_eq_mod, Nat.mod_eq_of_lt h]
  rw [← setWidth_field value (by omega) h]
  simp [getImm16, getImmediate, bind, Except.bind, pure, Except.pure, hle, hmask]

theorem getShiftAmount_ok (name : String) (size : DataSize) (value : BitVec 64)
    (h : value.toNat < size.width) :
    getShiftAmount name (getSfBit size) (.immediate value) =
      .ok (value, BitVec.ofNat 32 size.width) := by
  have hds : (if getSfBit size = 1#32 then 64#32 else 32#32) = BitVec.ofNat 32 size.width := by
    cases size <;> rfl
  have hlt : ¬ value ≥ (BitVec.ofNat 32 size.width).setWidth 64 := by
    have hw : size.width ≤ 64 := by cases size <;> decide
    simp only [ge_iff_le, BitVec.le_def, BitVec.toNat_setWidth, BitVec.toNat_ofNat]
    omega
  simp only [getShiftAmount, getImmediate, bind, Except.bind, pure, Except.pure, hds, hlt, if_false]

theorem shiftLeft_fields (size : DataSize) (value : BitVec 64) (h : value.toNat < size.width) :
    let datasize := (BitVec.ofNat 32 size.width).setWidth 64
    ((datasize - value) % datasize).setWidth 32 =
        (BitVec.ofNat 6 ((size.width - value.toNat) % size.width)).setWidth 32 ∧
      (datasize - 1#64 - value).setWidth 32 =
        (BitVec.ofNat 6 (size.width - 1 - value.toNat)).setWidth 32 := by
  have hv := value.isLt
  cases size <;> simp only [DataSize.width] at h ⊢
  all_goals
    constructor <;> apply BitVec.eq_of_toNat_eq <;>
      simp only [BitVec.toNat_setWidth, BitVec.toNat_umod, BitVec.toNat_sub, BitVec.toNat_ofNat,
        Nat.reducePow, Nat.reduceMod, Nat.reduceSub] <;>
      omega

theorem shiftRight_field (size : DataSize) (value : BitVec 64) (h : value.toNat < size.width) :
    value.setWidth 32 = (value.setWidth 6).setWidth 32 := by
  have hw : size.width ≤ 64 := by cases size <;> decide
  exact setWidth_field value (by omega) (by omega)

theorem last_field (size : DataSize) :
    BitVec.ofNat 32 size.width - 1#32 = (BitVec.ofNat 6 (size.width - 1)).setWidth 32 := by
  cases size <;> rfl

theorem encodeThreeOperandInst_emit (size : DataSize) (opcode : Opcode) (rd rn : Fin 31)
    (src2 : Operand) (hfit : src2.Fits opcode size) {word : BitVec 32} (h : encodeThreeOperandInst opcode size (.register (.x rd))
      (.register (.x rn)) src2 = .ok word) :
    ∃ i, emitThreeOperand size rd rn opcode src2 = some i ∧ word = i.encode := by
  obtain ⟨rm, rfl⟩ | ⟨value, rfl, hv⟩ := hfit
  · simp only [encodeThreeOperandInst, bind, Except.bind, encodeRegister_general, isImmediate, pure,
      Except.pure, getSfBit_eq, Bool.false_eq_true, if_false, throw, throwThe,
      MonadExceptOf.throw] at h
    cases opcode <;> simp only [Except.ok.injEq, reduceCtorEq] at h
    all_goals
      subst h
      refine ⟨_, rfl, ?_⟩
      cases size <;> simp [Instr.encode, Instr.place, sf]
  · simp only [encodeThreeOperandInst, bind, Except.bind, encodeRegister_general, isImmediate, pure,
      Except.pure, if_true, throw, throwThe, MonadExceptOf.throw] at h
    cases opcode <;> simp only [reduceCtorEq] at h
    case add | sub | cmp =>
      simp only [getImm12_ok _ _ hv, getSfBit_eq, Except.ok.injEq] at h
      subst h
      refine ⟨_, rfl, ?_⟩
      cases size <;> simp [Instr.encode, Instr.place, sf]
    case lsl =>
      rw [getShiftAmount_ok _ _ _ hv] at h
      simp only [getSfBit_eq, Except.ok.injEq] at h
      subst h
      refine ⟨_, rfl, ?_⟩
      obtain ⟨himmr, himms⟩ := shiftLeft_fields size value hv
      rw [himmr, himms]
      cases size <;> simp [Instr.encode, Instr.place, sf]
    case lsr | asr =>
      rw [getShiftAmount_ok _ _ _ hv] at h
      simp only [getSfBit_eq, Except.ok.injEq] at h
      subst h
      refine ⟨_, rfl, ?_⟩
      rw [shiftRight_field size value hv, last_field]
      cases size <;> simp [Instr.encode, Instr.place, sf]

theorem encodeTwoOperandInst_emit (size : DataSize) (opcode : Opcode) (rd : Fin 31) (src : Operand)
    (hfit : src.Fits opcode size) {word : BitVec 32}
    (h : encodeTwoOperandInst opcode size (.register (.x rd)) src = .ok word) :
    ∃ i, emitTwoOperand size rd opcode src = some i ∧ word = i.encode := by
  obtain ⟨rm, rfl⟩ | ⟨value, rfl, hv⟩ := hfit
  · simp only [encodeTwoOperandInst, bind, Except.bind, encodeRegister_general, isImmediate, pure,
      Except.pure, getSfBit_eq, Bool.false_eq_true, if_false, throw, throwThe, MonadExceptOf.throw,
      Bool.not_false, if_true] at h
    cases opcode <;> simp only [Except.ok.injEq, reduceCtorEq] at h
    all_goals
      subst h
      refine ⟨_, rfl, ?_⟩
      cases size <;> simp [Instr.encode, Instr.place, sf]
  · simp only [encodeTwoOperandInst, bind, Except.bind, encodeRegister_general,
      encodeRegister_immediate, isImmediate, pure, Except.pure, Bool.not_true, Bool.false_eq_true,
      if_false, if_true, throw, throwThe, MonadExceptOf.throw] at h
    cases opcode <;> simp only [reduceCtorEq] at h
    case cmp =>
      simp only [getImm12_ok _ _ hv, getSfBit_eq, Except.ok.injEq] at h
      subst h
      refine ⟨_, rfl, ?_⟩
      cases size <;> simp [Instr.encode, Instr.place, sf]
    case mov | movn =>
      simp only [getImm16_ok _ _ hv, getSfBit_eq, Except.ok.injEq] at h
      subst h
      refine ⟨_, rfl, ?_⟩
      cases size <;> simp [Instr.encode, Instr.place, sf]

theorem encodeMoveWideInst_emit (size : DataSize) (opcode : Opcode) (rd : Fin 31)
    (imm16 : BitVec 16) (shift : BitVec 8) (hshift : shift ∈ [0#8, 16#8, 32#8, 48#8]) {word : BitVec 32}
    (h : encodeMoveWideInst opcode size (.register (.x rd)) imm16 shift = .ok word) :
    ∃ i, emitMoveWide size rd imm16 shift opcode = some i ∧ word = i.encode := by
  have hhw : (shift / 16#8).setWidth 32 = ((shift / 16#8).setWidth 2).setWidth 32 ∧
      ¬ (shift / 16#8).setWidth 32 > 3#32 := by
    simp only [List.mem_cons, List.not_mem_nil, or_false] at hshift
    obtain rfl | rfl | rfl | rfl := hshift <;> decide
  simp only [encodeMoveWideInst, bind, Except.bind, encodeRegister_general, pure, Except.pure,
    getSfBit_eq, hhw.2, if_false, throw, throwThe, MonadExceptOf.throw] at h
  cases opcode <;> simp only [Except.ok.injEq, reduceCtorEq] at h
  all_goals
    subst h
    refine ⟨_, rfl, ?_⟩
    rw [hhw.1]
    cases size <;> simp [Instr.encode, Instr.place, sf]

theorem encodeConditionalInst_emit (size : DataSize) (hs : size = .w ∨ size = .x) (opcode : Opcode)
    (rd : Fin 31) (condition : Condition) {word : BitVec 32}
    (h : encodeConditionalInst opcode size (.register (.x rd)) condition = .ok word) :
    ∃ i, emit (.conditional opcode size (.register (.x rd)) condition) = some i ∧
      word = i.encode := by
  simp only [encodeConditionalInst, bind, Except.bind, encodeRegister_general, pure, Except.pure,
    getSfBit_eq, throw, throwThe, MonadExceptOf.throw] at h
  cases opcode <;> simp only [Except.ok.injEq, reduceCtorEq] at h
  subst h
  refine ⟨_, rfl, ?_⟩
  obtain rfl | rfl := hs <;> simp [Instr.encode, Instr.place, sf]

theorem encodeConditionalSelectInst_emit (size : DataSize) (hs : size = .w ∨ size = .x)
    (opcode : Opcode) (rd rn rm : Fin 31) (condition : Condition) {word : BitVec 32}
    (h : encodeConditionalSelectInst opcode size (.register (.x rd)) (.register (.x rn))
      (.register (.x rm)) condition = .ok word) :
    ∃ i, emit (.conditionalSelect opcode size (.register (.x rd)) (.register (.x rn))
      (.register (.x rm)) condition) = some i ∧ word = i.encode := by
  simp only [encodeConditionalSelectInst, bind, Except.bind, encodeRegister_general, isImmediate,
    Bool.or_self, Bool.false_eq_true, if_false, pure, Except.pure, getSfBit_eq, throw, throwThe,
    MonadExceptOf.throw] at h
  cases opcode <;> simp only [Except.ok.injEq, reduceCtorEq] at h
  subst h
  refine ⟨_, rfl, ?_⟩
  obtain rfl | rfl := hs <;> simp [Instr.encode, Instr.place, sf]

theorem encodeWord_emit (inst : Instruction) (hdp : inst.IsDataProcessing) {word : BitVec 32}
    (h : encodeWord inst = .ok word) : ∃ i, emit inst = some i ∧ word = i.encode := by
  cases inst with
  | threeOperand opcode size dest src1 src2 =>
    obtain ⟨-, ⟨rd, rfl⟩, ⟨rn, rfl⟩, hfit⟩ := hdp
    exact encodeThreeOperandInst_emit size opcode rd rn src2 hfit h
  | twoOperand opcode size dest src =>
    obtain ⟨-, ⟨rd, rfl⟩, hfit⟩ := hdp
    exact encodeTwoOperandInst_emit size opcode rd src hfit h
  | moveWide opcode size dest imm16 shift =>
    obtain ⟨-, ⟨rd, rfl⟩, hshift⟩ := hdp
    exact encodeMoveWideInst_emit size opcode rd imm16 shift hshift h
  | conditional opcode size dest condition =>
    obtain ⟨hs, ⟨rd, rfl⟩, -⟩ := hdp
    exact encodeConditionalInst_emit size hs opcode rd condition h
  | conditionalSelect opcode size dest src1 src2 condition =>
    obtain ⟨hs, ⟨rd, rfl⟩, ⟨rn, rfl⟩, ⟨rm, rfl⟩⟩ := hdp
    exact encodeConditionalSelectInst_emit size hs opcode rd rn rm condition h
  | memory | branch => exact hdp.elim

end Encoder

end DinoRisc.Arm64
