import DinoRisc.IR.Typing
import DinoRisc.Lowering.InstructionSelector

/-!
What the selector does with each kind of instruction that a lifter uses, and why it never fails on
a well-typed block.
-/

namespace DinoRisc.InstructionSelector

open Arm64 IR

variable {σ : InstructionSelector} {Γ : Types} {id lhs rhs operand : ValueId} {ty : Ty}
  {l r : VirtualRegister}

def define (id : ValueId) (type : Ty) (s : InstructionSelector) : InstructionSelector where
  nextVirtualReg := s.nextVirtualReg + 1
  irToVReg := Function.update s.irToVReg id (some s.nextVirtualReg)
  valueTypes := Function.update s.valueTypes id (some type)

def skip (n : ℕ) (s : InstructionSelector) : InstructionSelector :=
  { s with nextVirtualReg := s.nextVirtualReg + n }

theorem assign_define (h : σ.irToVReg id = none) (type : Ty) :
    (σ.recordValueType id type).assignVirtualRegister id =
      (σ.nextVirtualReg, σ.define id type) := by
  simp [assignVirtualRegister, recordValueType, takeVirtualReg, h, define]

theorem define_irToVReg (type : Ty) (h : operand ≠ id) :
    (σ.define id type).irToVReg operand = σ.irToVReg operand :=
  Function.update_of_ne h ..

theorem getVirtualRegisterOrThrow_eq (h : σ.irToVReg id = some l) :
    σ.getVirtualRegisterOrThrow id = .ok l := by
  rw [getVirtualRegisterOrThrow, h]

theorem getVirtualRegisterOrThrow_define (type : Ty) (hfresh : σ.irToVReg id = none)
    (h : σ.irToVReg operand = some l) :
    (σ.define id type).getVirtualRegisterOrThrow operand = .ok l := by
  apply getVirtualRegisterOrThrow_eq
  rw [define_irToVReg, h]
  rintro rfl
  rw [hfresh] at h
  cases h

theorem getValueType_define (type : Ty) (hfresh : σ.irToVReg id = none)
    (h : σ.irToVReg operand = some l) (hty : σ.valueTypes operand = some ty) :
    (σ.define id type).getValueType operand = ty := by
  have hne : operand ≠ id := by
    rintro rfl
    rw [hfresh] at h
    cases h
  simp [getValueType, define, Function.update_of_ne hne, hty]

def sextOpcode : Ty → Arm64.Opcode
  | .i8 => .sxtb
  | .i16 => .sxth
  | .i32 => .sxtw
  | _ => .mov

section

variable (hfresh : σ.irToVReg id = none)

include hfresh

theorem selectInstruction_const (value : BitVec 64) :
    σ.selectInstruction ⟨id, .const ty value⟩ =
      .ok (selectConstIntoRegister ty value (.virtual σ.nextVirtualReg), σ.define id ty) := by
  simp only [selectInstruction, selectConst, assign_define hfresh]

theorem selectInstruction_comparison {opcode : BinaryOpcode} {condition : Condition}
    (hop : comparisonCondition opcode = some condition) (hl : σ.irToVReg lhs = some l)
    (hr : σ.irToVReg rhs = some r) :
    σ.selectInstruction ⟨id, .binaryOp opcode ty lhs rhs⟩ =
      .ok ([.twoOperand .cmp .x (.virtual l) (.virtual r),
        .conditional .cset .x (.virtual σ.nextVirtualReg) condition], σ.define id ty) := by
  simp only [selectInstruction, selectBinaryOp, assign_define hfresh, bind, Except.bind,
    getVirtualRegisterOrThrow_define ty hfresh hl, getVirtualRegisterOrThrow_define ty hfresh hr,
    hop]
  rfl

theorem selectInstruction_arithmetic {opcode : BinaryOpcode} {o : Arm64.Opcode}
    (hop : comparisonCondition opcode = none) (ho : irBinaryOpToARM64 opcode = .ok o)
    (hl : σ.irToVReg lhs = some l) (hr : σ.irToVReg rhs = some r) :
    σ.selectInstruction ⟨id, .binaryOp opcode ty lhs rhs⟩ =
      .ok ([.threeOperand o (irTypeToDataSize ty) (.virtual σ.nextVirtualReg) (.virtual l)
        (.virtual r)], σ.define id ty) := by
  simp only [selectInstruction, selectBinaryOp, assign_define hfresh, bind, Except.bind,
    getVirtualRegisterOrThrow_define ty hfresh hl, getVirtualRegisterOrThrow_define ty hfresh hr,
    hop, ho]
  rfl

theorem selectInstruction_sext (hty : σ.valueTypes operand = some ty)
    (hl : σ.irToVReg operand = some l) :
    σ.selectInstruction ⟨id, .sext .i64 operand⟩ =
      .ok ([.twoOperand (sextOpcode ty) .x (.virtual σ.nextVirtualReg) (.virtual l)],
        σ.define id .i64) := by
  simp only [selectInstruction, selectSext, assign_define hfresh, bind, Except.bind,
    getVirtualRegisterOrThrow_define .i64 hfresh hl, getValueType_define .i64 hfresh hl hty]
  rfl

theorem selectInstruction_zext (hty : σ.valueTypes operand = some .i32)
    (hl : σ.irToVReg operand = some l) :
    σ.selectInstruction ⟨id, .zext .i64 operand⟩ =
      .ok ([.twoOperand .mov .x (.virtual σ.nextVirtualReg) (.virtual l)], σ.define id .i64) := by
  simp only [selectInstruction, selectZext, assign_define hfresh, bind, Except.bind,
    getVirtualRegisterOrThrow_define .i64 hfresh hl, getValueType_define .i64 hfresh hl hty]
  rfl

theorem selectInstruction_load (haddress : σ.irToVReg operand = some l) :
    σ.selectInstruction ⟨id, .load ty operand⟩ =
      .ok (((σ.define id ty).generateAddressTranslation l).1 ++
        [.memory .ldr (irTypeToDataSize ty) (.virtual σ.nextVirtualReg)
          (.virtual (σ.nextVirtualReg + 1)) 0#32], (σ.define id ty).skip 3) := by
  simp only [selectInstruction, selectLoad, assign_define hfresh, bind, Except.bind,
    getVirtualRegisterOrThrow_define ty hfresh haddress]
  rfl

theorem selectInstruction_trunc (hl : σ.irToVReg operand = some l) :
    σ.selectInstruction ⟨id, .trunc ty operand⟩ =
      .ok ([.twoOperand .mov (irTypeToDataSize ty) (.virtual σ.nextVirtualReg) (.virtual l)],
        σ.define id ty) := by
  simp only [selectInstruction, selectTrunc, assign_define hfresh, bind, Except.bind,
    getVirtualRegisterOrThrow_define ty hfresh hl]
  rfl

theorem selectInstruction_regRead (regNumber : ℕ) :
    σ.selectInstruction ⟨id, .regRead regNumber⟩ =
      .ok ([.memory .ldr .x (.virtual σ.nextVirtualReg) X0
        (BitVec.ofNat 32 (regNumber * REGISTER_SIZE_BYTES))], σ.define id .i64) := by
  simp only [selectInstruction, selectRegRead, assign_define hfresh]

end

theorem selectInstruction_store (hty : σ.valueTypes lhs = some ty) (hl : σ.irToVReg lhs = some l)
    (hr : σ.irToVReg rhs = some r) :
    σ.selectInstruction ⟨id, .store lhs rhs⟩ =
      .ok ((σ.generateAddressTranslation r).1 ++
        [.memory .str (irTypeToDataSize ty) (.virtual l) (.virtual σ.nextVirtualReg) 0#32],
        σ.skip 3) := by
  simp only [selectInstruction, selectStore, getVirtualRegisterOrThrow_eq hl,
    getVirtualRegisterOrThrow_eq hr, bind, Except.bind, getValueType, hty, Option.getD_some]
  rfl

theorem selectInstruction_regWrite (regNumber : ℕ) (hl : σ.irToVReg operand = some l) :
    σ.selectInstruction ⟨id, .regWrite regNumber operand⟩ =
      .ok ([.memory .str .x (.virtual l) X0
        (BitVec.ofNat 32 (regNumber * REGISTER_SIZE_BYTES))], σ) := by
  simp only [selectInstruction, selectRegWrite, getVirtualRegisterOrThrow_eq hl, bind, Except.bind]
  rfl

/-- Each value has a register of its own, below the counter. -/
structure Separate (σ : InstructionSelector) : Prop where
  injective : ∀ {id id' vreg}, σ.irToVReg id = some vreg → σ.irToVReg id' = some vreg → id = id'
  bound : ∀ {id vreg}, σ.irToVReg id = some vreg → vreg < σ.nextVirtualReg

namespace Separate

theorem skip (h : Separate σ) (n : ℕ) : Separate (σ.skip n) where
  injective := h.injective
  bound hid := lt_of_lt_of_le (h.bound hid) (Nat.le_add_right _ _)

theorem assign (h : Separate σ) (id : ValueId) :
    Separate (σ.assignVirtualRegister id).2 ∧
      (σ.assignVirtualRegister id).2.irToVReg id = some (σ.assignVirtualRegister id).1 := by
  unfold assignVirtualRegister
  cases hid : σ.irToVReg id with
  | some vreg => exact ⟨h, hid⟩
  | none =>
    refine ⟨⟨?_, ?_⟩, Function.update_self ..⟩
    · intro k k' vreg hk hk'
      dsimp only [takeVirtualReg] at hk hk'
      by_cases hki : k = id <;> by_cases hki' : k' = id
      · rw [hki, hki']
      · rw [Function.update_of_ne hki'] at hk'
        rw [hki, Function.update_self, Option.some.injEq] at hk
        exact absurd hk (h.bound hk').ne'
      · rw [Function.update_of_ne hki] at hk
        rw [hki', Function.update_self, Option.some.injEq] at hk'
        exact absurd hk' (h.bound hk).ne'
      · rw [Function.update_of_ne hki] at hk
        rw [Function.update_of_ne hki'] at hk'
        exact h.injective hk hk'
    · intro k vreg hk
      dsimp only [takeVirtualReg] at hk ⊢
      by_cases hki : k = id
      · rw [hki, Function.update_self, Option.some.injEq] at hk
        exact hk ▸ Nat.lt_succ_self _
      · rw [Function.update_of_ne hki] at hk
        exact Nat.lt_succ_of_lt (h.bound hk)

theorem define (h : Separate σ) (hid : σ.irToVReg id = none) (ty : Ty) :
    Separate (σ.define id ty) := by
  have hrecord : Separate (σ.recordValueType id ty) := ⟨h.injective, h.bound⟩
  have hassign := (hrecord.assign id).1
  rwa [assign_define hid] at hassign

end Separate

/-- The maps cover the typed values. -/
structure Covers (σ : InstructionSelector) (Γ : Types) : Prop extends Separate σ where
  typed : ∀ {id ty}, Γ id = some ty →
    σ.valueTypes id = some ty ∧ ∃ vreg, σ.irToVReg id = some vreg
  fresh : ∀ {id}, Γ id = none → σ.irToVReg id = none

namespace Covers

theorem init : Covers init (fun _ => none) := by
  refine ⟨⟨?_, ?_⟩, ?_, ?_⟩ <;> simp [InstructionSelector.init]

theorem skip (h : Covers σ Γ) (n : ℕ) : Covers (σ.skip n) Γ where
  toSeparate := h.toSeparate.skip n
  typed := h.typed
  fresh := h.fresh

theorem define (h : Covers σ Γ) (ty : Ty) (hid : Γ id = none) :
    Covers (σ.define id ty) (Γ.extend id (some ty)) where
  toSeparate := h.toSeparate.define (h.fresh hid) ty
  typed {k ty'} hk := by
    by_cases hki : k = id
    · subst hki
      simpa [Types.extend, InstructionSelector.define] using hk
    · rw [Types.extend, Function.update_of_ne hki] at hk
      simpa [InstructionSelector.define, Function.update_of_ne hki] using h.typed hk
  fresh {k} hk := by
    have hki : k ≠ id := by
      rintro rfl
      simp [Types.extend] at hk
    rw [Types.extend, Function.update_of_ne hki] at hk
    rw [define_irToVReg ty hki, h.fresh hk]

end Covers

theorem comparisonCondition_arithmetic {opcode : BinaryOpcode}
    (h : opcode.isArithmetic = true) :
    comparisonCondition opcode = none ∧ ∃ o, irBinaryOpToARM64 opcode = .ok o := by
  cases opcode <;> first
    | exact ⟨rfl, _, rfl⟩
    | cases h

theorem comparisonCondition_comparison {opcode : BinaryOpcode}
    (h : opcode.isComparison = true) : ∃ condition, comparisonCondition opcode = some condition := by
  cases opcode <;> first
    | exact ⟨_, rfl⟩
    | cases h

theorem selectInstruction_covers {inst : IR.Instruction} {type : Option Ty} (h : Covers σ Γ)
    (hid : Γ inst.valueId = none) (hlow : Lowerable Γ inst.kind type) :
    ∃ code σ', σ.selectInstruction inst = .ok (code, σ') ∧
      Covers σ' (Γ.extend inst.valueId type) := by
  obtain ⟨id, kind⟩ := inst
  dsimp only at hid hlow
  have hfresh := h.fresh hid
  cases hlow with
  | const64 value => exact ⟨_, _, selectInstruction_const hfresh value, h.define _ hid⟩
  | const32 value => exact ⟨_, _, selectInstruction_const hfresh value, h.define _ hid⟩
  | arithmetic hop hty hl hr =>
    obtain ⟨-, l, hl⟩ := h.typed hl
    obtain ⟨-, r, hr⟩ := h.typed hr
    obtain ⟨hnone, o, ho⟩ := comparisonCondition_arithmetic hop
    exact ⟨_, _, selectInstruction_arithmetic hfresh hnone ho hl hr, h.define _ hid⟩
  | comparison hop hty hl hr =>
    obtain ⟨-, l, hl⟩ := h.typed hl
    obtain ⟨-, r, hr⟩ := h.typed hr
    obtain ⟨condition, hcond⟩ := comparisonCondition_comparison hop
    exact ⟨_, _, selectInstruction_comparison hfresh hcond hl hr, h.define _ hid⟩
  | sext hty ha =>
    obtain ⟨hty, l, hl⟩ := h.typed ha
    exact ⟨_, _, selectInstruction_sext hfresh hty hl, h.define _ hid⟩
  | zext ha =>
    obtain ⟨hty, l, hl⟩ := h.typed ha
    exact ⟨_, _, selectInstruction_zext hfresh hty hl, h.define _ hid⟩
  | trunc ha =>
    obtain ⟨-, l, hl⟩ := h.typed ha
    exact ⟨_, _, selectInstruction_trunc hfresh hl, h.define _ hid⟩
  | load hty ha =>
    obtain ⟨-, l, hl⟩ := h.typed ha
    exact ⟨_, _, selectInstruction_load hfresh hl, (h.define _ hid).skip 3⟩
  | store hty hv ha =>
    obtain ⟨hty, l, hl⟩ := h.typed hv
    obtain ⟨-, r, hr⟩ := h.typed ha
    exact ⟨_, _, selectInstruction_store hty hl hr, h.skip 3⟩
  | regRead hr => exact ⟨_, _, selectInstruction_regRead hfresh _, h.define _ hid⟩
  | regWrite hr hv =>
    obtain ⟨-, l, hl⟩ := h.typed hv
    exact ⟨_, _, selectInstruction_regWrite _ hl, h⟩

theorem selectAll_cons {inst : IR.Instruction} {rest : List IR.Instruction} {code : Code}
    {σ' : InstructionSelector} (h : σ.selectAll (inst :: rest) = .ok (code, σ')) :
    ∃ code₁ σ₁ code₂, σ.selectInstruction inst = .ok (code₁, σ₁) ∧
      σ₁.selectAll rest = .ok (code₂, σ') ∧ code = code₁ ++ code₂ := by
  obtain ⟨⟨code₁, σ₁⟩, hok₁, h⟩ := bind_eq_ok.mp h
  obtain ⟨⟨code₂, σ₂⟩, hok₂, h⟩ := bind_eq_ok.mp h
  cases h
  exact ⟨code₁, σ₁, code₂, hok₁, hok₂, rfl⟩

theorem selectInstructions_eq_ok {block : BasicBlock} {code : Code} {σ' : InstructionSelector} :
    σ.selectInstructions block = .ok (code, σ') ↔ ∃ code₁ σ₁ code₂,
      σ.selectAll block.instructions = .ok (code₁, σ₁) ∧
        σ₁.selectTerminator block.terminator = .ok (code₂, σ') ∧ code = code₁ ++ code₂ := by
  constructor
  · intro h
    obtain ⟨⟨code₁, σ₁⟩, hok₁, h⟩ := bind_eq_ok.mp h
    obtain ⟨⟨code₂, σ₂⟩, hok₂, h⟩ := bind_eq_ok.mp h
    cases h
    exact ⟨code₁, σ₁, code₂, hok₁, hok₂, rfl⟩
  · rintro ⟨code₁, σ₁, code₂, hok₁, hok₂, rfl⟩
    exact bind_eq_ok.mpr ⟨_, hok₁, bind_eq_ok.mpr ⟨_, hok₂, rfl⟩⟩

theorem selectAll_covers {instructions : List IR.Instruction} {Γ' : Types} (h : Covers σ Γ)
    (htyped : WellTyped Γ instructions Γ') :
    ∃ code σ', σ.selectAll instructions = .ok (code, σ') ∧ Covers σ' Γ' := by
  induction htyped generalizing σ with
  | nil Γ => exact ⟨[], σ, rfl, h⟩
  | cons hfresh hlow _ ih =>
    obtain ⟨code, σ', hok, h'⟩ := selectInstruction_covers h hfresh hlow
    obtain ⟨code', σ'', hok', h''⟩ := ih h'
    refine ⟨code ++ code', σ'', ?_, h''⟩
    simp only [selectAll, hok, hok', bind, Except.bind]
    rfl

/-- The registers of the two constants of a conditional branch and of the chosen one, and the
selector after them. Their ids are values of the block where the counter has met them before. -/
def branchTemps (s : InstructionSelector) :
    VirtualRegister × VirtualRegister × VirtualRegister × InstructionSelector :=
  let (trueTempReg, s') := (s.skip 1).assignVirtualRegister s.nextVirtualReg
  let (falseTempReg, s'') := (s'.skip 1).assignVirtualRegister s'.nextVirtualReg
  (trueTempReg, falseTempReg, s''.nextVirtualReg, s''.skip 1)

def branchCode (cond t f target : VirtualRegister) (trueBlock falseBlock : BitVec 64) : Code :=
  .twoOperand .cmp .x (.virtual cond) (.immediate 0#64) ::
    selectConstIntoRegister .i64 trueBlock (.virtual t) ++
    selectConstIntoRegister .i64 falseBlock (.virtual f) ++
    [.conditionalSelect .csel .x (.virtual target) (.virtual t) (.virtual f) .ne,
      .twoOperand .mov .x X0 (.virtual target)] ++ selectRet

theorem assign_again (s : InstructionSelector) (id : ValueId) :
    (s.assignVirtualRegister id).2.assignVirtualRegister id = s.assignVirtualRegister id := by
  unfold assignVirtualRegister
  cases hid : s.irToVReg id with
  | some vreg => simp [hid]
  | none => simp [takeVirtualReg]

theorem selectCondBranch_eq {cond : VirtualRegister} (hc : σ.irToVReg id = some cond)
    (trueBlock falseBlock : BitVec 64) :
    σ.selectCondBranch id trueBlock falseBlock =
      .ok (branchCode cond σ.branchTemps.1 σ.branchTemps.2.1 σ.branchTemps.2.2.1 trueBlock
        falseBlock, σ.branchTemps.2.2.2) := by
  simp only [selectCondBranch, getVirtualRegisterOrThrow_eq hc, bind, Except.bind, selectConst,
    assign_again]
  rfl

theorem assign_kept {k : ValueId} (h : σ.irToVReg k = some l) (id : ValueId) :
    (σ.assignVirtualRegister id).2.irToVReg k = some l := by
  unfold assignVirtualRegister
  cases hid : σ.irToVReg id with
  | some vreg => exact h
  | none =>
    have hki : k ≠ id := by
      rintro rfl
      rw [hid] at h
      cases h
    simpa [takeVirtualReg, Function.update_of_ne hki] using h

theorem assign_next (s : InstructionSelector) (id : ValueId) :
    s.nextVirtualReg ≤ (s.assignVirtualRegister id).2.nextVirtualReg := by
  unfold assignVirtualRegister
  cases s.irToVReg id with
  | some vreg => exact le_rfl
  | none => exact Nat.le_succ _

theorem branchTemps_distinct (h : Separate σ) : σ.branchTemps.1 ≠ σ.branchTemps.2.1 := by
  have ⟨h₁, ht⟩ := (h.skip 1).assign σ.nextVirtualReg
  simp only [branchTemps]
  set s' := ((σ.skip 1).assignVirtualRegister σ.nextVirtualReg).2
  have hnext : σ.nextVirtualReg + 1 ≤ s'.nextVirtualReg := assign_next (σ.skip 1) _
  have ⟨h₂, hf⟩ := (h₁.skip 1).assign s'.nextVirtualReg
  have ht' : ((s'.skip 1).assignVirtualRegister s'.nextVirtualReg).2.irToVReg σ.nextVirtualReg =
      some ((σ.skip 1).assignVirtualRegister σ.nextVirtualReg).1 := assign_kept (σ := s'.skip 1) ht _
  intro heq
  rw [heq] at ht'
  exact Nat.lt_irrefl _ (lt_of_lt_of_eq (Nat.lt_of_succ_le hnext) (h₂.injective ht' hf).symm)

theorem selectTerminator_covers {terminator : Terminator} (h : Covers σ Γ)
    (htyped : terminator.Typed Γ) : ∃ code σ', σ.selectTerminator terminator = .ok (code, σ') := by
  cases htyped with
  | branch target => exact ⟨_, _, rfl⟩
  | condBranch trueBlock falseBlock hc =>
    obtain ⟨-, c, hc⟩ := h.typed hc
    exact ⟨_, _, selectCondBranch_eq hc trueBlock falseBlock⟩
  | ret => exact ⟨_, _, rfl⟩
  | retValue hv =>
    obtain ⟨-, v, hv⟩ := h.typed hv
    refine ⟨.twoOperand .mov .x X0 (.virtual v) :: selectRet, σ, ?_⟩
    simp only [selectTerminator, getVirtualRegisterOrThrow_eq hv, bind, Except.bind]
    rfl

theorem selectInstructions_ok {block : BasicBlock} (h : block.WellTyped) :
    ∃ code σ', init.selectInstructions block = .ok (code, σ') := by
  obtain ⟨Γ, hinsts, hterm⟩ := h
  obtain ⟨code, σ, hok, hcovers⟩ := selectAll_covers .init hinsts
  obtain ⟨code', σ', hok'⟩ := selectTerminator_covers hcovers hterm
  exact ⟨code ++ code', σ', selectInstructions_eq_ok.mpr ⟨code, σ, code', hok, hok', rfl⟩⟩

end DinoRisc.InstructionSelector
