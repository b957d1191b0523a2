import DinoRisc.Lifter.ExactBlock
import DinoRisc.Lifter.Formed

/-! What follows the first control transfer of a list. -/

namespace DinoRisc.Lifter

open IR RiscV

variable {order : List ℕ → List ℕ} {before tail : List RiscV.Instruction} {inst : RiscV.Instruction}
  {l l' : Lifter} {opcode : BinaryOpcode} {ty : Ty} {i : ℕ}

/-! ### Which registers are modified -/

@[simp] theorem addInstruction_modified (kind : InstructionKind) (l : Lifter) :
    (l.addInstruction kind).2.modifiedRegisters = l.modifiedRegisters := rfl

@[simp] theorem getRegisterValue_modified (regNum : ℕ) (l : Lifter) :
    (l.getRegisterValue regNum).2.modifiedRegisters = l.modifiedRegisters := by
  unfold getRegisterValue
  split
  · rfl
  · split <;> rfl

theorem setRegisterValue_modified {regNum : ℕ} {valueId : ValueId} :
    (l.setRegisterValue regNum valueId).modifiedRegisters = [] ↔
      l.modifiedRegisters = [] ∧ regNum = 0 := by
  unfold setRegisterValue
  split
  · rename_i hne
    have hmem : regNum ∈ l.modifiedRegisters.insert regNum := List.mem_insert_self ..
    constructor
    · intro hnil
      have hnil' : l.modifiedRegisters.insert regNum = [] := hnil
      rw [hnil'] at hmem
      cases hmem
    · rintro ⟨-, hzero⟩
      exact absurd hzero hne
  · rename_i hzero
    simp [not_not.mp hzero, REG_ZERO]

/-! ### Which instructions are lifted -/

def HasRegister (inst : RiscV.Instruction) (i : ℕ) : Prop :=
  ∃ value, inst.operands[i]? = some (.register value)

def HasImmediate (inst : RiscV.Instruction) (i : ℕ) : Prop :=
  ∃ value, inst.operands[i]? = some (.immediate value)

/-- The operands that the format has, in their places. -/
def HasOperands (inst : RiscV.Instruction) : Prop :=
  match inst.opcode.format with
  | .r => HasRegister inst 0 ∧ HasRegister inst 1 ∧ HasRegister inst 2
  | .i | .s | .b => HasRegister inst 0 ∧ HasRegister inst 1 ∧ HasImmediate inst 2
  | .u | .j => HasRegister inst 0 ∧ HasImmediate inst 1
  | .none => False

/-- The instruction writes a register, and not to `x0`. -/
def WritesRegister (inst : RiscV.Instruction) : Prop :=
  inst.opcode.format ≠ .s ∧ inst.opcode.format ≠ .b ∧
    ∃ rd, inst.operands[0]? = some (.register rd) ∧ rd ≠ 0

theorem getRegister_eq {value : ℕ} :
    inst.getRegister i = .ok value ↔ inst.operands[i]? = some (.register value) := by
  unfold RiscV.Instruction.getRegister
  split <;> simp [*]

theorem getImmediate_eq {value : BitVec 64} :
    inst.getImmediate i = .ok value ↔ inst.operands[i]? = some (.immediate value) := by
  unfold RiscV.Instruction.getImmediate
  split <;> simp [*]

/-- The instruction is lifted if it has its operands, and modifies the register that it writes. -/
structure Lifts (inst : RiscV.Instruction) (l : Lifter) (result : Except Error Lifter) : Prop where
  ok : HasOperands inst → ∃ l', result = .ok l' ∧
    (l'.modifiedRegisters = [] ↔ l.modifiedRegisters = [] ∧ ¬ WritesRegister inst)
  operands : ∀ l', result = .ok l' → HasOperands inst

theorem not_writesRegister {rd : ℕ} (h : inst.operands[0]? = some (.register rd))
    (hs : inst.opcode.format ≠ .s) (hb : inst.opcode.format ≠ .b) :
    ¬ WritesRegister inst ↔ rd = 0 := by
  simp [WritesRegister, hs, hb, h]

section

variable (hformat : inst.opcode.format = .r)

include hformat

theorem hasOperands_register : HasOperands inst ↔ ∃ rd rs1 rs2, inst.getRegister 0 = .ok rd ∧
    inst.getRegister 1 = .ok rs1 ∧ inst.getRegister 2 = .ok rs2 := by
  simp [HasOperands, hformat, HasRegister, getRegister_eq]

theorem liftRTypeBinaryOp_lifts : Lifts inst l (l.liftRTypeBinaryOp inst opcode ty) where
  ok h := by
    obtain ⟨rd, rs1, rs2, hrd, hrs1, hrs2⟩ := (hasOperands_register hformat).mp h
    refine ⟨_, by
      simp only [liftRTypeBinaryOp, hrd, hrs1, hrs2, bind, Except.bind, pure, Except.pure]; rfl, ?_⟩
    rw [not_writesRegister (getRegister_eq.mp hrd) (by simp [hformat]) (by simp [hformat])]
    simp [setRegisterValue_modified, createBinaryOp]
  operands l' hok := by
    obtain ⟨rs1, hrs1, hok⟩ := bind_eq_ok.mp hok
    obtain ⟨rs2, hrs2, hok⟩ := bind_eq_ok.mp hok
    obtain ⟨rd, hrd, -⟩ := bind_eq_ok.mp hok
    exact (hasOperands_register hformat).mpr ⟨rd, rs1, rs2, hrd, hrs1, hrs2⟩

theorem liftWTypeBinaryOp_lifts : Lifts inst l (l.liftWTypeBinaryOp inst opcode) where
  ok h := by
    obtain ⟨rd, rs1, rs2, hrd, hrs1, hrs2⟩ := (hasOperands_register hformat).mp h
    refine ⟨_, by
      simp only [liftWTypeBinaryOp, hrd, hrs1, hrs2, bind, Except.bind, pure, Except.pure]; rfl, ?_⟩
    rw [not_writesRegister (getRegister_eq.mp hrd) (by simp [hformat]) (by simp [hformat])]
    simp [setRegisterValue_modified, createBinaryOp, createTrunc, createSext]
  operands l' hok := by
    obtain ⟨rs1, hrs1, hok⟩ := bind_eq_ok.mp hok
    obtain ⟨rs2, hrs2, hok⟩ := bind_eq_ok.mp hok
    obtain ⟨rd, hrd, -⟩ := bind_eq_ok.mp hok
    exact (hasOperands_register hformat).mpr ⟨rd, rs1, rs2, hrd, hrs1, hrs2⟩

end

section

variable (hformat : inst.opcode.format = .i)

include hformat

theorem hasOperands_immediate : HasOperands inst ↔ ∃ rd rs1 imm, inst.getRegister 0 = .ok rd ∧
    inst.getRegister 1 = .ok rs1 ∧ inst.getImmediate 2 = .ok imm := by
  simp [HasOperands, hformat, HasRegister, HasImmediate, getRegister_eq, getImmediate_eq]

theorem liftITypeBinaryOp_lifts : Lifts inst l (l.liftITypeBinaryOp inst opcode ty) where
  ok h := by
    obtain ⟨rd, rs1, imm, hrd, hrs1, himm⟩ := (hasOperands_immediate hformat).mp h
    refine ⟨_, by
      simp only [liftITypeBinaryOp, hrd, hrs1, himm, bind, Except.bind, pure, Except.pure]; rfl, ?_⟩
    rw [not_writesRegister (getRegister_eq.mp hrd) (by simp [hformat]) (by simp [hformat])]
    simp [setRegisterValue_modified, createBinaryOp, createConstant]
  operands l' hok := by
    obtain ⟨rs1, hrs1, hok⟩ := bind_eq_ok.mp hok
    obtain ⟨imm, himm, hok⟩ := bind_eq_ok.mp hok
    obtain ⟨rd, hrd, -⟩ := bind_eq_ok.mp hok
    exact (hasOperands_immediate hformat).mpr ⟨rd, rs1, imm, hrd, hrs1, himm⟩

theorem liftWTypeImmOp_lifts : Lifts inst l (l.liftWTypeImmOp inst opcode) where
  ok h := by
    obtain ⟨rd, rs1, imm, hrd, hrs1, himm⟩ := (hasOperands_immediate hformat).mp h
    refine ⟨_, by
      simp only [liftWTypeImmOp, hrd, hrs1, himm, bind, Except.bind, pure, Except.pure]; rfl, ?_⟩
    rw [not_writesRegister (getRegister_eq.mp hrd) (by simp [hformat]) (by simp [hformat])]
    simp [setRegisterValue_modified, createBinaryOp, createConstant, createTrunc, createSext]
  operands l' hok := by
    obtain ⟨rs1, hrs1, hok⟩ := bind_eq_ok.mp hok
    obtain ⟨imm, himm, hok⟩ := bind_eq_ok.mp hok
    obtain ⟨rd, hrd, -⟩ := bind_eq_ok.mp hok
    exact (hasOperands_immediate hformat).mpr ⟨rd, rs1, imm, hrd, hrs1, himm⟩

theorem liftLoadInstruction_lifts (sign : Bool) :
    Lifts inst l (l.liftLoadInstruction inst ty sign) where
  ok h := by
    obtain ⟨rd, rs1, imm, hrd, hrs1, himm⟩ := (hasOperands_immediate hformat).mp h
    refine ⟨_, by
      simp only [liftLoadInstruction, hrd, hrs1, himm, bind, Except.bind, pure, Except.pure]; rfl, ?_⟩
    rw [not_writesRegister (getRegister_eq.mp hrd) (by simp [hformat]) (by simp [hformat])]
    by_cases hty : ty = .i64
    · simp [setRegisterValue_modified, createBinaryOp, createConstant, createLoad, hty]
    · cases sign <;> simp [setRegisterValue_modified, createBinaryOp, createConstant, createLoad,
        createSext, createZext, hty]
  operands l' hok := by
    obtain ⟨rs1, hrs1, hok⟩ := bind_eq_ok.mp hok
    obtain ⟨imm, himm, hok⟩ := bind_eq_ok.mp hok
    obtain ⟨rd, hrd, -⟩ := bind_eq_ok.mp hok
    exact (hasOperands_immediate hformat).mpr ⟨rd, rs1, imm, hrd, hrs1, himm⟩

end

theorem liftStoreInstruction_lifts (hformat : inst.opcode.format = .s) :
    Lifts inst l (l.liftStoreInstruction inst ty) where
  ok h := by
    simp only [HasOperands, hformat, HasRegister, HasImmediate, ← getRegister_eq,
      ← getImmediate_eq] at h
    obtain ⟨⟨rs1, hrs1⟩, ⟨rs2, hrs2⟩, imm, himm⟩ := h
    refine ⟨_, by
      simp only [liftStoreInstruction, hrs1, hrs2, himm, bind, Except.bind, pure, Except.pure]; rfl, ?_⟩
    by_cases hty : ty = .i64 <;>
      simp [WritesRegister, hformat, createBinaryOp, createConstant, createTrunc, createStore, hty]
  operands l' hok := by
    obtain ⟨rs1, hrs1, hok⟩ := bind_eq_ok.mp hok
    obtain ⟨rs2, hrs2, hok⟩ := bind_eq_ok.mp hok
    obtain ⟨imm, himm, -⟩ := bind_eq_ok.mp hok
    simp only [HasOperands, hformat, HasRegister, HasImmediate, ← getRegister_eq, ← getImmediate_eq]
    exact ⟨⟨rs1, hrs1⟩, ⟨rs2, hrs2⟩, imm, himm⟩

theorem liftUpperImmediate_lifts (hop : inst.opcode = .lui ∨ inst.opcode = .auipc) :
    Lifts inst l (l.liftSingleInstruction inst) := by
  have hformat : inst.opcode.format = .u := by rcases hop with hop | hop <;> rw [hop] <;> rfl
  have hoperands : HasOperands inst ↔ ∃ rd imm, inst.getRegister 0 = .ok rd ∧
      inst.getImmediate 1 = .ok imm := by
    simp [HasOperands, hformat, HasRegister, HasImmediate, getRegister_eq, getImmediate_eq]
  constructor
  · intro h
    obtain ⟨rd, imm, hrd, himm⟩ := hoperands.mp h
    rw [not_writesRegister (getRegister_eq.mp hrd) (by simp [hformat]) (by simp [hformat])]
    rcases hop with hop | hop
    · refine ⟨_, by
        simp only [liftSingleInstruction, hop, hrd, himm, bind, Except.bind, pure, Except.pure]
        rfl, ?_⟩
      simp [setRegisterValue_modified, createConstant]
    · refine ⟨_, by
        simp only [liftSingleInstruction, hop, hrd, himm, bind, Except.bind, pure, Except.pure]
        rfl, ?_⟩
      simp [setRegisterValue_modified, createConstant, createBinaryOp]
  · intro l' hok
    rcases hop with hop | hop <;> rw [liftSingleInstruction, hop] at hok
    all_goals
      obtain ⟨imm, himm, hok⟩ := bind_eq_ok.mp hok
      obtain ⟨rd, hrd, -⟩ := bind_eq_ok.mp hok
      exact hoperands.mpr ⟨rd, imm, hrd, himm⟩

/-- What the lifter accepts: the opcodes that it knows, with their operands. -/
def Accepted (inst : RiscV.Instruction) : Prop :=
  inst.opcode.isSupported = true ∧ HasOperands inst

theorem liftSingleInstruction_lifts (hterm : isTerminator inst = false)
    (hsupported : inst.opcode.isSupported = true) : Lifts inst l (l.liftSingleInstruction inst) := by
  rw [isTerminator_eq] at hterm
  cases hop : inst.opcode
  case lui => exact liftUpperImmediate_lifts (.inl hop)
  case auipc => exact liftUpperImmediate_lifts (.inr hop)
  case sd | sw =>
    rw [liftSingleInstruction, hop]
    exact liftStoreInstruction_lifts (by rw [hop]; rfl)
  case lb | lh | lw | lwu | ld =>
    rw [liftSingleInstruction, hop]
    exact liftLoadInstruction_lifts (by rw [hop]; rfl) _
  case addiw | slliw =>
    rw [liftSingleInstruction, hop]
    exact liftWTypeImmOp_lifts (by rw [hop]; rfl)
  case addw =>
    rw [liftSingleInstruction, hop]
    exact liftWTypeBinaryOp_lifts (by rw [hop]; rfl)
  case addi | andi | ori | xori | slli | srli | srai | slti | sltiu =>
    rw [liftSingleInstruction, hop]
    exact liftITypeBinaryOp_lifts (by rw [hop]; rfl)
  case add | sub | and | or | xor | sll | srl | sra | slt | sltu =>
    rw [liftSingleInstruction, hop]
    exact liftRTypeBinaryOp_lifts (by rw [hop]; rfl)
  all_goals
    rw [hop] at hterm hsupported
    first
      | (cases hsupported; done)
      | cases hterm

theorem liftSingleInstruction_cases (hterm : isTerminator inst = false) (l : Lifter) :
    (Accepted inst ∧ ∃ l', l.liftSingleInstruction inst = .ok l' ∧
      (l'.modifiedRegisters = [] ↔ l.modifiedRegisters = [] ∧ ¬ WritesRegister inst)) ∨
    (¬ Accepted inst ∧ ∃ e, l.liftSingleInstruction inst = .error e) := by
  by_cases hacc : Accepted inst
  · exact .inl ⟨hacc, (liftSingleInstruction_lifts hterm hacc.1).ok hacc.2⟩
  · right
    refine ⟨hacc, ?_⟩
    cases hok : l.liftSingleInstruction inst with
    | error e => exact ⟨e, rfl⟩
    | ok l' =>
      have hsupported := isSupported_of_lifted hok
      exact absurd ⟨hsupported, (liftSingleInstruction_lifts hterm hsupported).operands l' hok⟩ hacc

theorem liftInstructions_cases (hbefore : ∀ i ∈ before, isTerminator i = false) (l : Lifter) :
    ((∀ i ∈ before, Accepted i) ∧ ∃ l', (∀ rest terminator,
        liftInstructions order (before ++ rest) terminator l =
          liftInstructions order rest terminator l') ∧
      (l'.modifiedRegisters = [] ↔ l.modifiedRegisters = [] ∧ ∀ i ∈ before, ¬ WritesRegister i)) ∨
    (∃ i ∈ before, ¬ Accepted i) ∧ ∃ e, ∀ rest terminator,
      liftInstructions order (before ++ rest) terminator l = .error e := by
  induction before generalizing l with
  | nil => exact .inl ⟨by simp, l, fun _ _ => rfl, by simp⟩
  | cons first before ih =>
    obtain ⟨hfirst, hrest⟩ := List.forall_mem_cons.mp hbefore
    simp only [List.cons_append, liftInstructions_cons hfirst]
    rcases liftSingleInstruction_cases hfirst l with ⟨hacc, l₁, hok, hmod⟩ | ⟨hacc, e, herr⟩
    · rcases ih hrest l₁ with ⟨hall, l', heq, hmod'⟩ | ⟨⟨i, hi, hbad⟩, e, herr⟩
      · refine .inl ⟨List.forall_mem_cons.mpr ⟨hacc, hall⟩, l', fun rest terminator => ?_, ?_⟩
        · rw [hok, ← heq]
          rfl
        · rw [hmod', hmod, List.forall_mem_cons, and_assoc]
      · refine .inr ⟨⟨i, List.mem_cons_of_mem _ hi, hbad⟩, e, fun rest terminator => ?_⟩
        rw [hok, ← herr rest terminator]
        rfl
    · refine .inr ⟨⟨first, List.mem_cons_self, hacc⟩, e, fun rest terminator => ?_⟩
      rw [herr]
      rfl

/-! ### The control transfer -/

def Jumps (inst : RiscV.Instruction) (target : BitVec 64) : Prop :=
  inst.opcode = .jal ∧ ∃ imm, inst.operands[1]? = some (.immediate imm) ∧
    inst.address + imm = target

structure LiftsTransfer (inst : RiscV.Instruction) (l : Lifter)
    (result : Except Error (Terminator × Lifter)) : Prop where
  ok : HasOperands inst → ∃ terminator l', result = .ok (terminator, l') ∧ ∀ target,
    (l'.modifiedRegisters = [] ∧ terminator = .branch target ↔
      l.modifiedRegisters = [] ∧ ¬ WritesRegister inst ∧ Jumps inst target)
  operands : ∀ r, result = .ok r → HasOperands inst

theorem createConditionalBranch_lifts (compareOp : BinaryOpcode) (fallThrough : BitVec 64)
    (hformat : inst.opcode.format = .b) :
    LiftsTransfer inst l (l.createConditionalBranch compareOp inst fallThrough) := by
  have hoperands : HasOperands inst ↔ ∃ rs1 rs2 imm, inst.getRegister 0 = .ok rs1 ∧
      inst.getRegister 1 = .ok rs2 ∧ inst.getImmediate 2 = .ok imm := by
    simp [HasOperands, hformat, HasRegister, HasImmediate, getRegister_eq, getImmediate_eq]
  constructor
  · intro h
    obtain ⟨rs1, rs2, imm, hrs1, hrs2, himm⟩ := hoperands.mp h
    refine ⟨_, _, by
      simp only [createConditionalBranch, hrs1, hrs2, himm, bind, Except.bind, pure, Except.pure]
      rfl, fun target => ?_⟩
    have hjal : inst.opcode ≠ .jal := by
      intro hop
      rw [hop] at hformat
      cases hformat
    simp [Jumps, hjal]
  · intro result hok
    obtain ⟨rs1, hrs1, hok⟩ := bind_eq_ok.mp hok
    obtain ⟨rs2, hrs2, hok⟩ := bind_eq_ok.mp hok
    obtain ⟨imm, himm, -⟩ := bind_eq_ok.mp hok
    exact hoperands.mpr ⟨rs1, rs2, imm, hrs1, hrs2, himm⟩

theorem liftJal_lifts (fallThrough : BitVec 64) (hop : inst.opcode = .jal) :
    LiftsTransfer inst l (l.liftTerminator inst fallThrough) := by
  have hoperands : HasOperands inst ↔ ∃ rd imm, inst.getRegister 0 = .ok rd ∧
      inst.getImmediate 1 = .ok imm := by
    simp [HasOperands, hop, Opcode.format, HasRegister, HasImmediate, getRegister_eq,
      getImmediate_eq]
  constructor
  · intro h
    obtain ⟨rd, imm, hrd, himm⟩ := hoperands.mp h
    refine ⟨_, _, by
      simp only [liftTerminator, hop, hrd, himm, bind, Except.bind, pure, Except.pure]
      rfl, fun target => ?_⟩
    rw [not_writesRegister (getRegister_eq.mp hrd) (by simp [hop, Opcode.format])
      (by simp [hop, Opcode.format])]
    simp [setRegisterValue_modified, createConstant, Jumps, hop, getImmediate_eq.mp himm, and_assoc]
  · intro result hok
    rw [liftTerminator, hop] at hok
    obtain ⟨rd, hrd, hok⟩ := bind_eq_ok.mp hok
    obtain ⟨imm, himm, -⟩ := bind_eq_ok.mp hok
    exact hoperands.mpr ⟨rd, imm, hrd, himm⟩

theorem liftJalr_lifts (fallThrough : BitVec 64) (hop : inst.opcode = .jalr) :
    LiftsTransfer inst l (l.liftTerminator inst fallThrough) := by
  have hoperands := hasOperands_immediate (show inst.opcode.format = .i by rw [hop]; rfl)
  constructor
  · intro h
    obtain ⟨rd, rs1, imm, hrd, hrs1, himm⟩ := hoperands.mp h
    by_cases hret : rd = REG_ZERO ∧ rs1 = REG_RA ∧ imm = 0#64
    · refine ⟨_, _, by
        simp only [liftTerminator, hop, hrd, hrs1, himm, bind, Except.bind, pure, Except.pure, hret]
        rfl, fun target => ?_⟩
      simp [Jumps, hop]
    · refine ⟨_, _, by
        simp only [liftTerminator, hop, hrd, hrs1, himm, bind, Except.bind, pure, Except.pure, hret]
        rfl, fun target => ?_⟩
      simp [Jumps, hop]
  · intro result hok
    rw [liftTerminator, hop] at hok
    obtain ⟨rd, hrd, hok⟩ := bind_eq_ok.mp hok
    obtain ⟨rs1, hrs1, hok⟩ := bind_eq_ok.mp hok
    obtain ⟨imm, himm, -⟩ := bind_eq_ok.mp hok
    exact hoperands.mpr ⟨rd, rs1, imm, hrd, hrs1, himm⟩

theorem liftTerminator_lifts (fallThrough : BitVec 64) (hterm : isTerminator inst = true) :
    LiftsTransfer inst l (l.liftTerminator inst fallThrough) := by
  rw [isTerminator_eq] at hterm
  cases hop : inst.opcode
  case jal => exact liftJal_lifts fallThrough hop
  case jalr => exact liftJalr_lifts fallThrough hop
  case beq | bne | blt | bge | bltu | bgeu =>
    rw [liftTerminator, hop]
    exact createConditionalBranch_lifts _ fallThrough (by rw [hop]; rfl)
  all_goals
    rw [hop] at hterm
    cases hterm

theorem liftTerminator_cases (fallThrough : BitVec 64) (hterm : isTerminator inst = true)
    (l : Lifter) :
    (Accepted inst ∧ ∃ terminator l', l.liftTerminator inst fallThrough = .ok (terminator, l') ∧
      ∀ target, (l'.modifiedRegisters = [] ∧ terminator = .branch target ↔
        l.modifiedRegisters = [] ∧ ¬ WritesRegister inst ∧ Jumps inst target)) ∨
    (¬ Accepted inst ∧ ∃ e, l.liftTerminator inst fallThrough = .error e) := by
  have hlifts := liftTerminator_lifts (l := l) fallThrough hterm
  have hsupported : inst.opcode.isSupported = true := by
    rw [isTerminator_eq] at hterm
    simp [Opcode.isSupported, hterm]
  by_cases hacc : Accepted inst
  · exact .inl ⟨hacc, hlifts.ok hacc.2⟩
  · right
    refine ⟨hacc, ?_⟩
    cases hok : l.liftTerminator inst fallThrough with
    | error e => exact ⟨e, rfl⟩
    | ok result => exact absurd ⟨hsupported, hlifts.operands result hok⟩ hacc

/-! ### The tail -/

theorem finalizeRegisterWrites_modified (order : List ℕ → List ℕ) (l : Lifter) :
    (l.finalizeRegisterWrites order).modifiedRegisters = l.modifiedRegisters := by
  rw [finalizeRegisterWrites]
  generalize order l.modifiedRegisters = rs
  induction rs generalizing l with
  | nil => rfl
  | cons r rs ih =>
    rw [List.foldl_cons, ih]
    rfl

theorem finalizeRegisterWrites_keeps (horder : ∀ rs, (order rs).Perm rs) (l : Lifter) :
    (l.finalizeRegisterWrites order).currentInstructions = l.currentInstructions ↔
      l.modifiedRegisters = [] := by
  have hlength : (l.finalizeRegisterWrites order).currentInstructions.length =
      l.currentInstructions.length + l.modifiedRegisters.length := by
    rw [← (horder l.modifiedRegisters).length_eq, finalizeRegisterWrites]
    generalize order l.modifiedRegisters = rs
    induction rs generalizing l with
    | nil => rfl
    | cons r rs ih =>
      rw [List.foldl_cons, ih]
      simp [addInstruction]
      omega
  constructor
  · intro heq
    rw [heq] at hlength
    exact List.length_eq_zero_iff.mp (by omega)
  · intro hnil
    rw [finalizeRegisterWrites, hnil, List.perm_nil.mp (horder [])]
    rfl

theorem fallThroughAddress_consecutive (h : Consecutive (before ++ inst :: tail)) :
    fallThroughAddress inst tail = inst.address + 4#64 := by
  cases tail with
  | nil => rfl
  | cons next rest =>
    obtain ⟨-, hchain, -⟩ := List.isChain_append.mp h
    exact (List.isChain_cons_cons.mp hchain).1

/-- The tail is ignored if and only if the lifter rejects the list before it comes to the tail, or
the tail ends in a control transfer, or the block writes no register and jumps behind the tail. -/
theorem liftBasicBlock_tail_iff (horder : ∀ rs, (order rs).Perm rs)
    (hconsecutive : Consecutive (before ++ inst :: tail))
    (hbefore : ∀ i ∈ before, isTerminator i = false) (hterm : isTerminator inst = true) :
    (liftBasicBlock order (before ++ inst :: tail) init).map Prod.fst =
        (liftBasicBlock order (before ++ [inst]) init).map Prod.fst ↔
      (∃ i ∈ before ++ [inst], ¬ Accepted i) ∨
        isTerminator ((inst :: tail).getLast (List.cons_ne_nil inst tail)) = true ∨
        ((∀ i ∈ before ++ [inst], ¬ WritesRegister i) ∧
          Jumps inst (((inst :: tail).getLast (List.cons_ne_nil inst tail)).address + 4#64)) := by
  obtain ⟨last, hlast⟩ : ∃ last, (inst :: tail).getLast (List.cons_ne_nil inst tail) = last :=
    ⟨_, rfl⟩
  have hwhole : (before ++ inst :: tail).getLast? = some last := by
    rw [List.getLast?_append_of_ne_nil _ (List.cons_ne_nil inst tail),
      List.getLast?_eq_getLast_of_ne_nil (List.cons_ne_nil inst tail), hlast]
  have hfirst : (before ++ [inst]).getLast? = some inst := List.getLast?_concat ..
  have hfall := fallThroughAddress_consecutive hconsecutive
  rw [hlast, liftBasicBlock_eq, liftBasicBlock_eq, hwhole, hfirst]
  rcases liftInstructions_cases hbefore init.cleared with
    ⟨hall, l₁, heq, hmod⟩ | ⟨⟨i, hi, hbad⟩, e, herr⟩
  · rw [heq, heq, liftInstructions_transfer hterm, liftInstructions_transfer hterm, hfall]
    rcases liftTerminator_cases (inst.address + 4#64) hterm (l₁.finalizeRegisterWrites order) with
      ⟨hacc, terminator, l₂, hok, hjump⟩ | ⟨hbad, e, herr⟩
    · have haccepted : ¬ ∃ i ∈ before ++ [inst], ¬ Accepted i := by
        rintro ⟨i, hi, hbad⟩
        rcases List.mem_append.mp hi with hi | hi
        · exact hbad (hall i hi)
        · exact hbad (List.mem_singleton.mp hi ▸ hacc)
      have hwrites : l₂.modifiedRegisters = [] ∧ terminator = .branch (last.address + 4#64) ↔
          (∀ i ∈ before ++ [inst], ¬ WritesRegister i) ∧ Jumps inst (last.address + 4#64) := by
        have hfresh : init.cleared.modifiedRegisters = [] := rfl
        simp only [hjump, finalizeRegisterWrites_modified, hmod, hfresh, List.forall_mem_append,
          List.forall_mem_singleton, true_and, and_assoc]
      simp only [fallThroughAddress, hok, Except.bind, hterm, haccepted, false_or, Bool.not_true,
        Bool.false_eq_true, if_false]
      cases isTerminator last with
      | true => simp
      | false =>
        simp only [Bool.not_false, if_true, Except.map, Except.ok.injEq, BasicBlock.mk.injEq,
          finalizeRegisterWrites_keeps horder, Bool.false_eq_true, false_or, ← hwrites]
        rw [eq_comm (a := terminator)]
    · have hrejected : ∃ i ∈ before ++ [inst], ¬ Accepted i := ⟨inst, by simp, hbad⟩
      simp only [fallThroughAddress, herr, hrejected, true_or, iff_true]
      rfl
  · have hrejected : ∃ i ∈ before ++ [inst], ¬ Accepted i := ⟨i, by simp [hi], hbad⟩
    simp only [herr, hrejected, true_or, iff_true]
    rfl

def beqForward (address : BitVec 64) : RiscV.Instruction :=
  ⟨.beq, [.register 1, .register 2, .immediate 8#64], 0#32, address⟩

theorem liftBasicBlock_tail_iff_beq :
    (liftBasicBlock id ([] ++ beqForward 0x1000#64 :: [beqForward 0x1004#64]) init).map Prod.fst =
        (liftBasicBlock id ([] ++ [beqForward 0x1000#64]) init).map Prod.fst ↔
      (∃ i ∈ [] ++ [beqForward 0x1000#64], ¬ Accepted i) ∨
        isTerminator ([beqForward 0x1000#64, beqForward 0x1004#64].getLast (by simp)) = true ∨
        ((∀ i ∈ [] ++ [beqForward 0x1000#64], ¬ WritesRegister i) ∧
          Jumps (beqForward 0x1000#64)
            (([beqForward 0x1000#64, beqForward 0x1004#64].getLast (by simp)).address + 4#64)) :=
  liftBasicBlock_tail_iff (fun _ => .refl _) (by simp [Consecutive, beqForward]) (by simp) rfl

/-- A branch before an addition: the block goes behind the addition, whatever the branch does. -/
theorem liftBasicBlock_beq_addi :
    (liftBasicBlock id [beqForward 0x1000#64,
      ⟨.addi, [.register 1, .register 0, .immediate 5#64], 0#32, 0x1004#64⟩] init).map Prod.fst ≠
        (liftBasicBlock id [beqForward 0x1000#64] init).map Prod.fst := by
  intro heq
  have hterminator := congrArg BasicBlock.terminator (Except.ok.inj heq)
  cases hterminator

end DinoRisc.Lifter
