import DinoRisc.Lowering.Inversion
import DinoRisc.Lowering.Translated

/-! Which blocks the encoder can follow the selector on. -/

namespace DinoRisc

open Arm64 Encoder IR LivenessAnalysis RegisterAllocator InstructionSelector

namespace IR

/-- The type of the last instruction that produces `id`, which the selector remembers. -/
def recordedType (instructions : List Instruction) (id : ValueId) : Ty :=
  (instructions.reverse.findSome? fun inst =>
    if inst.valueId = id then inst.kind.type else none).getD .i64

/-- No division, and no unsigned extension of 8 or 16 bits. -/
def Instruction.Encodes (before : List Instruction) (inst : Instruction) : Prop :=
  match inst.kind with
  | .binaryOp opcode _ _ _ => opcode ≠ .div ∧ opcode ≠ .divU
  | .zext _ operand =>
    recordedType (before ++ [inst]) operand ≠ .i8 ∧ recordedType (before ++ [inst]) operand ≠ .i16
  | _ => True

def BasicBlock.Encodes (block : BasicBlock) : Prop :=
  ∀ before inst after, block.instructions = before ++ inst :: after → inst.Encodes before

theorem recordedType_append (instructions : List Instruction) (inst : Instruction) (id : ValueId) :
    recordedType (instructions ++ [inst]) id =
      if inst.valueId = id then inst.kind.type.getD (recordedType instructions id)
      else recordedType instructions id := by
  rw [recordedType, List.reverse_append]
  by_cases hid : inst.valueId = id
  · cases htype : inst.kind.type <;> simp [hid, htype, recordedType]
  · simp [hid, recordedType]

end IR

namespace InstructionSelector

variable {σ σ' σ₁ : InstructionSelector} {inst : IR.Instruction} {code final : Code}
  {id : ValueId} {ty : Ty} {d : VirtualRegister} {ρ : VirtualRegister → Register}
  {before : List IR.Instruction}

/-! ### The types that the selector records -/

theorem enter_getValueType (henter : σ.enter id ty = (d, σ₁)) (k : ValueId) :
    σ₁.getValueType k = if id = k then ty else σ.getValueType k := by
  have htypes : σ₁.valueTypes = Function.update σ.valueTypes id (some ty) := by
    rw [enter, assignVirtualRegister] at henter
    split at henter <;> cases henter <;> rfl
  rw [getValueType, htypes, getValueType]
  by_cases hk : id = k
  · rw [if_pos hk, ← hk, Function.update_self, Option.getD_some]
  · rw [if_neg hk, Function.update_of_ne (Ne.symm hk)]

def Records (σ : InstructionSelector) (before : List IR.Instruction) : Prop :=
  ∀ id, σ.getValueType id = recordedType before id

theorem Records.init : Records init [] := fun _ => rfl

theorem Records.enter (h : Records σ before) {kind : InstructionKind} (hty : kind.type = some ty)
    (henter : σ.enter id ty = (d, σ₁)) : Records σ₁ (before ++ [⟨id, kind⟩]) := by
  intro k
  rw [enter_getValueType henter, recordedType_append, hty, Option.getD_some, h k]

theorem Records.keep (h : Records σ before) {kind : InstructionKind} (hty : kind.type = none) :
    Records σ (before ++ [⟨id, kind⟩]) := by
  intro k
  rw [recordedType_append, hty, Option.getD_none, ite_self, h k]

theorem Lowered.records (h : Lowered σ inst code σ') (hrecords : Records σ before) :
    Records σ' (before ++ [inst]) := by
  cases h with
  | const henter | comparison henter | arithmetic henter | sext henter | zext henter
  | trunc henter | regRead henter => exact hrecords.enter rfl henter
  | @load id ty a d l σ₁ henter hl =>
    have hentered : Records σ₁ (before ++ [⟨id, .load ty a⟩]) := hrecords.enter rfl henter
    exact hentered
  | store | regWrite => exact hrecords.keep rfl

/-! ### What the encoder accepts after the allocation `ρ` -/

def Accepts (ρ : VirtualRegister → Register) (inst : Arm64.Instruction) : Prop :=
  ∃ bytes, encodeInstruction (inst.rename ρ) = .ok bytes

theorem accepts_emitted (hρ : ∀ v, ∃ n, ρ v = .x n) {inst : Arm64.Instruction} (h : inst.Emitted) :
    Accepts ρ inst := by
  obtain ⟨bytes, hbytes, -⟩ := encodeInstruction_ok (h.rename fun v _ => hρ v)
    (Arm64.Instruction.rename_hasVirtual ρ inst)
  exact ⟨bytes, hbytes⟩

theorem accepts_compute (hρ : ∀ v, ∃ n, ρ v = .x n) {opcode : BinaryOpcode} {op : Arm64.Opcode}
    (hcond : comparisonCondition opcode = none) (hop : irBinaryOpToARM64 opcode = .ok op)
    (size : DataSize) (d l r : VirtualRegister) :
    Accepts ρ (.threeOperand op size (.virtual d) (.virtual l) (.virtual r)) ↔
      opcode ≠ .div ∧ opcode ≠ .divU := by
  obtain ⟨rd, hrd⟩ := hρ d
  obtain ⟨rn, hrn⟩ := hρ l
  obtain ⟨rm, hrm⟩ := hρ r
  simp only [Accepts, Arm64.Instruction.rename, Operand.rename, hrd, hrn, hrm]
  cases opcode <;> cases hop
  case div | divU =>
    refine iff_of_false ?_ (by simp)
    rintro ⟨bytes, hbytes⟩
    cases hbytes
  all_goals exact iff_of_true ⟨_, rfl⟩ (by simp)

theorem accepts_zext (hρ : ∀ v, ∃ n, ρ v = .x n) (ty : Ty) (size : DataSize)
    (d l : VirtualRegister) :
    Accepts ρ (.twoOperand (zextOpcode ty) size (.virtual d) (.virtual l)) ↔
      ty ≠ .i8 ∧ ty ≠ .i16 := by
  obtain ⟨rd, hrd⟩ := hρ d
  obtain ⟨rn, hrn⟩ := hρ l
  simp only [Accepts, Arm64.Instruction.rename, Operand.rename, hrd, hrn]
  cases ty
  case i8 | i16 =>
    refine iff_of_false ?_ (by simp)
    rintro ⟨bytes, hbytes⟩
    cases hbytes
  all_goals exact iff_of_true ⟨_, rfl⟩ (by simp)

theorem registerOffset_small {regNumber : ℕ} (h : regNumber < 32) :
    (BitVec.ofNat 32 (regNumber * REGISTER_SIZE_BYTES)).toNat ≤ 280 ∧
      (BitVec.ofNat 32 (regNumber * REGISTER_SIZE_BYTES)).toNat % 8 = 0 := by
  rw [BitVec.toNat_ofNat, REGISTER_SIZE_BYTES]
  omega

theorem Lowered.accepts_iff (h : Lowered σ inst code σ') (hρ : ∀ v, ∃ n, ρ v = .x n)
    (hrecords : Records σ before) (hreg : ∀ r, inst.kind.register = some r → r < 32) :
    (∀ i ∈ code, Accepts ρ i) ↔ inst.Encodes before := by
  have hafter := h.records hrecords
  have hemitted (h : ∀ i ∈ code, i.Emitted) : ∀ i ∈ code, Accepts ρ i :=
    fun i hi => accepts_emitted hρ (h i hi)
  cases h with
  | const henter =>
    exact iff_of_true (hemitted (selectConstIntoRegister_loads (.virtual _) rfl _ _).emitted) trivial
  | @comparison _ opcode _ _ _ condition _ _ _ _ henter hcond hl hr =>
    apply iff_of_true
    · apply hemitted
      simp only [List.forall_mem_cons]
      exact ⟨.compare (.virtual _) (.inl (.virtual _)), .set (.virtual _), by simp⟩
    · cases opcode <;> first | (cases hcond; done) | simp [IR.Instruction.Encodes]
  | arithmetic henter hcond hop hl hr =>
    rw [List.forall_mem_singleton]
    exact accepts_compute hρ hcond hop _ _ _ _
  | sext henter hl =>
    refine iff_of_true (hemitted ?_) trivial
    rw [List.forall_mem_singleton]
    exact .convert (by cases σ'.getValueType _ <;> simp [sextOpcode]) (.virtual _) (.virtual _)
  | zext henter hl =>
    rw [List.forall_mem_singleton, accepts_zext hρ, hafter]
    rfl
  | trunc henter hl =>
    refine iff_of_true (hemitted ?_) trivial
    rw [List.forall_mem_singleton]
    exact .convert (by simp) (.virtual _) (.virtual _)
  | load henter hl =>
    refine iff_of_true (hemitted ?_) trivial
    rw [List.forall_mem_append, List.forall_mem_singleton]
    exact ⟨generateAddressTranslation_emitted _ _,
      .memory (by simp) (.virtual _) (.virtual _) (by decide) (by decide)⟩
  | store hl hr =>
    refine iff_of_true (hemitted ?_) trivial
    rw [List.forall_mem_append, List.forall_mem_singleton]
    exact ⟨generateAddressTranslation_emitted _ _,
      .memory (by simp) (.virtual _) (.virtual _) (by decide) (by decide)⟩
  | regRead henter =>
    obtain ⟨hle, hmod⟩ := registerOffset_small (hreg _ rfl)
    refine iff_of_true (hemitted ?_) trivial
    rw [List.forall_mem_singleton]
    exact .memory (by simp) (.virtual _) (.general 0) hle hmod
  | regWrite hl =>
    obtain ⟨hle, hmod⟩ := registerOffset_small (hreg _ rfl)
    refine iff_of_true (hemitted ?_) trivial
    rw [List.forall_mem_singleton]
    exact .memory (by simp) (.virtual _) (.general 0) hle hmod

theorem selectAll_accepts_iff (hρ : ∀ v, ∃ n, ρ v = .x n) {instructions : List IR.Instruction}
    (hreg : ∀ inst ∈ instructions, ∀ r, inst.kind.register = some r → r < 32)
    (hrecords : Records σ before) (hok : σ.selectAll instructions = .ok (code, σ')) :
    (∀ i ∈ code, Accepts ρ i) ↔ ∀ front inst back, instructions = front ++ inst :: back →
      inst.Encodes (before ++ front) := by
  induction instructions generalizing σ before code with
  | nil =>
    cases hok
    simp
  | cons first rest ih =>
    obtain ⟨code₁, σ₁, code₂, hok₁, hok₂, rfl⟩ := selectAll_cons hok
    have hlowered := selectInstruction_lowered hok₁
    obtain ⟨hfirst, hrest⟩ := List.forall_mem_cons.mp hreg
    rw [List.forall_mem_append, hlowered.accepts_iff hρ hrecords hfirst,
      ih hrest (hlowered.records hrecords) hok₂]
    constructor
    · rintro ⟨hhead, htail⟩ front inst back hsplit
      cases front with
      | nil =>
        cases hsplit
        simpa using hhead
      | cons x front =>
        cases hsplit
        simpa using htail front inst back rfl
    · intro hall
      refine ⟨by simpa using hall [] first rest rfl, fun front inst back hsplit => ?_⟩
      simpa using hall (first :: front) inst back (by rw [hsplit, List.cons_append])

theorem selectTerminator_accepts (hρ : ∀ v, ∃ n, ρ v = .x n) {terminator : Terminator}
    (hok : σ.selectTerminator terminator = .ok (code, σ')) : ∀ i ∈ code, Accepts ρ i := by
  have hret : ∀ i ∈ selectRet, Accepts ρ i := by
    intro i hi
    obtain rfl := List.mem_singleton.mp hi
    exact ⟨_, rfl⟩
  have hconst {target : Arm64.Operand} (htarget : target.IsSlot) (value : BitVec 64) :
      ∀ i ∈ selectConstIntoRegister .i64 value target, Accepts ρ i := by
    obtain ⟨p, hp⟩ := htarget.place
    exact fun i hi =>
      accepts_emitted hρ ((selectConstIntoRegister_loads htarget hp _ _).emitted i hi)
  cases terminator with
  | branch targetBlock =>
    cases hok
    exact List.forall_mem_append.mpr ⟨hconst (.general 0) _, hret⟩
  | condBranch condition trueBlock falseBlock =>
    obtain ⟨cond, hcond, -⟩ := bind_eq_ok.mp hok
    cases hok.symm.trans
      (selectCondBranch_eq (getVirtualRegisterOrThrow_ok hcond) trueBlock falseBlock)
    simp only [branchCode, List.cons_append, List.forall_mem_cons, List.forall_mem_append]
    exact ⟨accepts_emitted hρ (.compare (.virtual _) (.inr rfl)), ⟨⟨hconst (.virtual _) _,
      hconst (.virtual _) _⟩, accepts_emitted hρ (.select (.virtual _) (.virtual _) (.virtual _)),
      accepts_emitted hρ (.convert (by simp) (.general 0) (.virtual _)), by simp⟩, hret⟩
  | ret value =>
    cases value with
    | none =>
      cases hok
      exact List.forall_mem_append.mpr ⟨hconst (.general 0) _, hret⟩
    | some value =>
      obtain ⟨l, hl, hok⟩ := bind_eq_ok.mp hok
      cases hok
      exact List.forall_mem_cons.mpr
        ⟨accepts_emitted hρ (.convert (by simp) (.general 0) (.virtual _)), hret⟩

end InstructionSelector

/-! ### The allocation -/

namespace RegisterAllocator

variable {s : RegisterAllocator} {code final : Code}

theorem mapM_eq_map {α β : Type} {f : α → Except Error β} {g : α → β}
    (hf : ∀ a b, f a = .ok b → b = g a) {l : List α} {l' : List β} (h : l.mapM f = .ok l') :
    l' = l.map g := by
  induction l generalizing l' with
  | nil =>
    cases h
    rfl
  | cons a rest ih =>
    rw [List.mapM_cons] at h
    obtain ⟨b, hb, h⟩ := bind_eq_ok.mp h
    obtain ⟨rest', hrest, h⟩ := bind_eq_ok.mp h
    cases h
    rw [List.map_cons, hf a b hb, ih hrest]

theorem replaceOperandRegister_renamed {operand operand' : Arm64.Operand}
    (h : s.replaceOperandRegister operand = .ok operand') :
    operand' = operand.rename s.registerOf := by
  cases operand with
  | virtual vreg =>
    rw [replaceOperandRegister, getPhysicalRegisterOrThrow] at h
    cases hr : s.allocation vreg with
    | none =>
      rw [hr] at h
      cases h
    | some r =>
      rw [hr] at h
      cases h
      rw [Operand.rename, registerOf, hr, Option.getD_some]
  | register | immediate =>
    cases h
    rfl

theorem replaceVirtualRegisters_renamed {inst inst' : Arm64.Instruction}
    (h : s.replaceVirtualRegisters inst = .ok inst') : inst' = inst.rename s.registerOf := by
  cases inst with
  | branch =>
    cases h
    rfl
  | threeOperand | conditionalSelect =>
    obtain ⟨dest, hdest, h⟩ := bind_eq_ok.mp h
    obtain ⟨src1, hsrc1, h⟩ := bind_eq_ok.mp h
    obtain ⟨src2, hsrc2, h⟩ := bind_eq_ok.mp h
    cases h
    rw [replaceOperandRegister_renamed hdest, replaceOperandRegister_renamed hsrc1,
      replaceOperandRegister_renamed hsrc2, Instruction.rename]
  | twoOperand | memory =>
    obtain ⟨dest, hdest, h⟩ := bind_eq_ok.mp h
    obtain ⟨src, hsrc, h⟩ := bind_eq_ok.mp h
    cases h
    rw [replaceOperandRegister_renamed hdest, replaceOperandRegister_renamed hsrc,
      Instruction.rename]
  | moveWide | conditional =>
    obtain ⟨dest, hdest, h⟩ := bind_eq_ok.mp h
    cases h
    rw [replaceOperandRegister_renamed hdest, Instruction.rename]

theorem allocateRegisters_renamed
    (h : allocateRegisters code (computeLiveIntervals code) = .ok (true, final)) :
    ∃ ρ : VirtualRegister → Register, (∀ v, ∃ n, ρ v = .x n) ∧
      final = code.map (Instruction.rename ρ) := by
  rcases allocateIntervals_ordered (computeLiveIntervals_ordered code) with
    ⟨s, hscan, halloc, -⟩ | ⟨hnone, -⟩
  · rw [allocateRegisters, hscan] at h
    obtain ⟨code', hcode, h⟩ := bind_eq_ok.mp h
    cases h
    exact ⟨s.registerOf, halloc.registerOf_general,
      mapM_eq_map (fun a b => replaceVirtualRegisters_renamed) hcode⟩
  · rw [allocateRegisters, hnone] at h
    cases h

/-- The encoder accepts the final code if and only if the block encodes. -/
theorem allocateRegisters_encodes_iff {block : BasicBlock} {σ : InstructionSelector}
    (hreg : ∀ inst ∈ block.instructions, ∀ r, inst.kind.register = some r → r < 32)
    (hselect : InstructionSelector.init.selectInstructions block = .ok (code, σ))
    (halloc : allocateRegisters code (computeLiveIntervals code) = .ok (true, final)) :
    (∀ inst ∈ final, ∃ bytes, encodeInstruction inst = .ok bytes) ↔ block.Encodes := by
  obtain ⟨ρ, hρ, rfl⟩ := allocateRegisters_renamed halloc
  obtain ⟨body, σ₁, ending, hbody, hending, rfl⟩ := selectInstructions_eq_ok.mp hselect
  have hend := selectTerminator_accepts hρ hending
  have hall := selectAll_accepts_iff hρ hreg Records.init hbody
  simp only [List.nil_append] at hall
  rw [List.forall_mem_map, List.forall_mem_append]
  exact ⟨fun h => hall.mp h.1, fun h => ⟨hall.mpr h, hend⟩⟩

def divBlock : BasicBlock where
  instructions := [⟨1, .regRead 1⟩, ⟨2, .regRead 2⟩, ⟨3, .binaryOp .divU .i64 1 2⟩, ⟨4, .regWrite 3 3⟩]
  terminator := .ret none

def divCode : Code :=
  [.memory .ldr .x (.register (.x 1)) X0 8#32, .memory .ldr .x (.register (.x 2)) X0 16#32,
    .threeOperand .udiv .x (.register (.x 3)) (.register (.x 1)) (.register (.x 2)),
    .memory .str .x (.register (.x 3)) X0 24#32, .twoOperand .mov .x X0 (.immediate 0#64),
    .twoOperand .ret .x X30 X30]

theorem allocateRegisters_encodes_iff_div :
    (∀ inst ∈ divCode, ∃ bytes, encodeInstruction inst = .ok bytes) ↔ divBlock.Encodes :=
  allocateRegisters_encodes_iff (by decide) rfl rfl

/-- The encoder has no UDIV. -/
theorem encodeInstruction_div : ∃ code σ,
    InstructionSelector.init.selectInstructions divBlock = .ok (code, σ) ∧
      allocateRegisters code (computeLiveIntervals code) = .ok (true, divCode) ∧
      ∃ inst ∈ divCode, encodeInstruction inst =
        .error (.encoding "Unsupported three-operand instruction opcode") :=
  ⟨_, _, rfl, rfl, _, .tail _ (.tail _ (.head _)), rfl⟩

end RegisterAllocator

end DinoRisc
