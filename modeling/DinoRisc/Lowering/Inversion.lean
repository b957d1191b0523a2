import DinoRisc.IR.Operands
import DinoRisc.Lowering.Selection

/-! What the selector has done where it does not throw, on any block. -/

namespace DinoRisc.InstructionSelector

open Arm64 IR

variable {σ σ' σ₁ : InstructionSelector} {inst : IR.Instruction} {code : Code} {id : ValueId}
  {ty : Ty} {d l : VirtualRegister}

def enter (id : ValueId) (type : Ty) (s : InstructionSelector) :
    VirtualRegister × InstructionSelector :=
  (s.recordValueType id type).assignVirtualRegister id

theorem enter_register (henter : σ.enter id ty = (d, σ₁)) : σ₁.irToVReg id = some d := by
  rw [enter, assignVirtualRegister] at henter
  split at henter
  · cases henter
    assumption
  · cases henter
    exact Function.update_self ..

def zextOpcode : Ty → Arm64.Opcode
  | .i8 => .uxtb
  | .i16 => .uxth
  | _ => .mov

/-- The code of an instruction, and the selector after it. -/
inductive Lowered (σ : InstructionSelector) : IR.Instruction → Code → InstructionSelector → Prop
  | const {id ty value d σ₁} (henter : σ.enter id ty = (d, σ₁)) :
    Lowered σ ⟨id, .const ty value⟩ (selectConstIntoRegister ty value (.virtual d)) σ₁
  | comparison {id opcode ty lhs rhs condition d l r σ₁} (henter : σ.enter id ty = (d, σ₁))
    (hcond : comparisonCondition opcode = some condition) (hl : σ₁.irToVReg lhs = some l)
    (hr : σ₁.irToVReg rhs = some r) :
    Lowered σ ⟨id, .binaryOp opcode ty lhs rhs⟩ [.twoOperand .cmp .x (.virtual l) (.virtual r),
      .conditional .cset .x (.virtual d) condition] σ₁
  | arithmetic {id opcode ty lhs rhs op d l r σ₁} (henter : σ.enter id ty = (d, σ₁))
    (hcond : comparisonCondition opcode = none) (hop : irBinaryOpToARM64 opcode = .ok op)
    (hl : σ₁.irToVReg lhs = some l) (hr : σ₁.irToVReg rhs = some r) :
    Lowered σ ⟨id, .binaryOp opcode ty lhs rhs⟩
      [.threeOperand op (irTypeToDataSize ty) (.virtual d) (.virtual l) (.virtual r)] σ₁
  | sext {id ty a d l σ₁} (henter : σ.enter id ty = (d, σ₁)) (hl : σ₁.irToVReg a = some l) :
    Lowered σ ⟨id, .sext ty a⟩
      [.twoOperand (sextOpcode (σ₁.getValueType a)) (irTypeToDataSize ty) (.virtual d) (.virtual l)] σ₁
  | zext {id ty a d l σ₁} (henter : σ.enter id ty = (d, σ₁)) (hl : σ₁.irToVReg a = some l) :
    Lowered σ ⟨id, .zext ty a⟩
      [.twoOperand (zextOpcode (σ₁.getValueType a)) (irTypeToDataSize ty) (.virtual d) (.virtual l)] σ₁
  | trunc {id ty a d l σ₁} (henter : σ.enter id ty = (d, σ₁)) (hl : σ₁.irToVReg a = some l) :
    Lowered σ ⟨id, .trunc ty a⟩
      [.twoOperand .mov (irTypeToDataSize ty) (.virtual d) (.virtual l)] σ₁
  | load {id ty a d l σ₁} (henter : σ.enter id ty = (d, σ₁)) (hl : σ₁.irToVReg a = some l) :
    Lowered σ ⟨id, .load ty a⟩ ((σ₁.generateAddressTranslation l).1 ++
      [.memory .ldr (irTypeToDataSize ty) (.virtual d) (.virtual σ₁.nextVirtualReg) 0#32]) (σ₁.skip 3)
  | store {id v a l r} (hl : σ.irToVReg v = some l) (hr : σ.irToVReg a = some r) :
    Lowered σ ⟨id, .store v a⟩ ((σ.generateAddressTranslation r).1 ++
      [.memory .str (irTypeToDataSize (σ.getValueType v)) (.virtual l) (.virtual σ.nextVirtualReg)
        0#32]) (σ.skip 3)
  | regRead {id regNumber d σ₁} (henter : σ.enter id .i64 = (d, σ₁)) :
    Lowered σ ⟨id, .regRead regNumber⟩ [.memory .ldr .x (.virtual d) X0
      (BitVec.ofNat 32 (regNumber * REGISTER_SIZE_BYTES))] σ₁
  | regWrite {id regNumber v l} (hl : σ.irToVReg v = some l) :
    Lowered σ ⟨id, .regWrite regNumber v⟩ [.memory .str .x (.virtual l) X0
      (BitVec.ofNat 32 (regNumber * REGISTER_SIZE_BYTES))] σ

theorem getVirtualRegisterOrThrow_ok (h : σ.getVirtualRegisterOrThrow id = .ok l) :
    σ.irToVReg id = some l := by
  rw [getVirtualRegisterOrThrow] at h
  cases hid : σ.irToVReg id with
  | none =>
    rw [hid] at h
    cases h
  | some vreg =>
    rw [hid] at h
    cases h
    rfl

/-- The inversion of the selector. -/
theorem selectInstruction_lowered (h : σ.selectInstruction inst = .ok (code, σ')) :
    Lowered σ inst code σ' := by
  obtain ⟨id, kind⟩ := inst
  cases kind with
  | const ty value =>
    cases h
    exact .const rfl
  | regRead regNumber =>
    cases h
    exact .regRead rfl
  | regWrite regNumber v =>
    obtain ⟨l, hl, h⟩ := bind_eq_ok.mp h
    cases h
    exact .regWrite (getVirtualRegisterOrThrow_ok hl)
  | store v a =>
    obtain ⟨l, hl, h⟩ := bind_eq_ok.mp h
    obtain ⟨r, hr, h⟩ := bind_eq_ok.mp h
    cases h
    exact .store (getVirtualRegisterOrThrow_ok hl) (getVirtualRegisterOrThrow_ok hr)
  | load ty a =>
    obtain ⟨l, hl, h⟩ := bind_eq_ok.mp h
    cases h
    exact .load rfl (getVirtualRegisterOrThrow_ok hl)
  | sext ty a =>
    obtain ⟨l, hl, h⟩ := bind_eq_ok.mp h
    cases h
    exact .sext rfl (getVirtualRegisterOrThrow_ok hl)
  | zext ty a =>
    obtain ⟨l, hl, h⟩ := bind_eq_ok.mp h
    cases h
    exact .zext rfl (getVirtualRegisterOrThrow_ok hl)
  | trunc ty a =>
    obtain ⟨l, hl, h⟩ := bind_eq_ok.mp h
    cases h
    exact .trunc rfl (getVirtualRegisterOrThrow_ok hl)
  | binaryOp opcode ty lhs rhs =>
    obtain ⟨l, hl, h⟩ := bind_eq_ok.mp h
    obtain ⟨r, hr, h⟩ := bind_eq_ok.mp h
    cases hcond : comparisonCondition opcode with
    | some condition =>
      rw [hcond] at h
      cases h
      exact .comparison rfl hcond (getVirtualRegisterOrThrow_ok hl) (getVirtualRegisterOrThrow_ok hr)
    | none =>
      rw [hcond] at h
      obtain ⟨op, hop, h⟩ := bind_eq_ok.mp h
      cases h
      exact .arithmetic rfl hcond hop (getVirtualRegisterOrThrow_ok hl)
        (getVirtualRegisterOrThrow_ok hr)

end DinoRisc.InstructionSelector
