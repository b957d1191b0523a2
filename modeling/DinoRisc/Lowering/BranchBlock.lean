import DinoRisc.Lowering.BranchAllocation

/-!
Blocks that end in a conditional branch: linear scan keeps what they do where the constants of the
branch take no register that is still to be read.
-/

namespace DinoRisc

open Arm64 Encoder IR ByteMemory InstructionSelector LivenessAnalysis RegisterAllocator

namespace InstructionSelector

variable {σ σ' σ₁ : InstructionSelector} {code : Code} {id c : ValueId} {v d : VirtualRegister}
  {temps : List VirtualRegister} {instructions front rest : List IR.Instruction}

/-- The ids that `selectCondBranch` takes for its two constants. -/
def constantIds (instructions : List IR.Instruction) : List ValueId :=
  let trueTemp := constantId instructions
  [trueTemp, if trueTemp ∈ valueIds instructions then trueTemp + 1 else trueTemp + 2]

/-- A constant of the branch takes no register of a value of the block, other than that of the
condition, where the block ends in the comparison. -/
def SparesOperands (block : BasicBlock) : Prop :=
  ∀ condition trueBlock falseBlock, block.terminator = .condBranch condition trueBlock falseBlock →
    ∀ id ∈ constantIds block.instructions, id ∈ valueIds block.instructions →
      id = condition ∧ ∃ front opcode ty lhs rhs, opcode.isComparison = true ∧
        block.instructions = front ++ [⟨condition, .binaryOp opcode ty lhs rhs⟩]

theorem sparesOperands_of_branch (front : List IR.Instruction) {condition lhs rhs : ValueId} {trueBlock falseBlock : BitVec 64}
    {opcode : BinaryOpcode} {ty : Ty} (hop : opcode.isComparison = true)
    (hids : ∀ id ∈ constantIds (front ++ [⟨condition, .binaryOp opcode ty lhs rhs⟩]),
      id ∈ valueIds (front ++ [⟨condition, .binaryOp opcode ty lhs rhs⟩]) → id = condition) :
    SparesOperands ⟨front ++ [⟨condition, .binaryOp opcode ty lhs rhs⟩],
      .condBranch condition trueBlock falseBlock⟩ := by
  intro c t f hterm id hid hmem
  cases hterm
  exact ⟨hids id hid hmem, front, opcode, ty, lhs, rhs, hop, rfl⟩

theorem sparesOperands_of_ne {block : BasicBlock}
    (h : ∀ c t f, block.terminator ≠ .condBranch c t f) : SparesOperands block :=
  fun c t f hterm => absurd hterm (h c t f)

theorem selectAll_append (hok : σ.selectAll (front ++ rest) = .ok (code, σ')) :
    ∃ code₁ σ₁ code₂, σ.selectAll front = .ok (code₁, σ₁) ∧ σ₁.selectAll rest = .ok (code₂, σ') ∧
      code = code₁ ++ code₂ := by
  induction front generalizing σ code with
  | nil => exact ⟨[], σ, code, rfl, hok, rfl⟩
  | cons inst front ih =>
    obtain ⟨code₁, σ₁, code₂, hok₁, hok₂, rfl⟩ := selectAll_cons hok
    obtain ⟨code₂, σ₂, code₃, hfront, hrest, rfl⟩ := ih hok₂
    refine ⟨code₁ ++ code₂, σ₂, code₃, ?_, hrest, (List.append_assoc ..).symm⟩
    simp only [selectAll, hok₁, hfront, bind, Except.bind]
    rfl

theorem LastWrite.append_left (code₁ : Code) (h : LastWrite v code) : LastWrite v (code₁ ++ code) := by
  obtain ⟨front, last, rfl, htarget, hsources⟩ := h
  exact ⟨code₁ ++ front, last, (List.append_assoc ..).symm, htarget, hsources⟩

theorem lastWrite_of_comparison {opcode : BinaryOpcode} {ty : Ty} {lhs rhs : ValueId}
    (hop : opcode.isComparison = true)
    (hok : σ.selectAll (front ++ [⟨c, .binaryOp opcode ty lhs rhs⟩]) = .ok (code, σ'))
    (hv : σ'.irToVReg c = some v) : LastWrite v code := by
  obtain ⟨code₁, σ₁, code₂, -, hlast, rfl⟩ := selectAll_append hok
  obtain ⟨code₂, σ₂, code₃, hinst, hnil, rfl⟩ := selectAll_cons hlast
  cases hnil
  obtain ⟨condition, hcondition⟩ := comparisonCondition_comparison hop
  cases selectInstruction_lowered hinst with
  | comparison henter =>
    obtain rfl := Option.some.inj ((enter_register henter).symm.trans hv)
    refine LastWrite.append_left code₁ ⟨[_], _, rfl, rfl, ?_⟩
    simp [Arm64.Instruction.sources, Arm64.Instruction.reads]
  | arithmetic _ hnone => cases hcondition.symm.trans hnone

theorem branchTemps_lt (h : Separate σ) : σ.branchTemps.1 < σ.branchTemps.2.2.1 ∧
    σ.nextVirtualReg ≤ σ.branchTemps.2.2.1 := by
  obtain ⟨h₁, ht⟩ := (h.skip 1).assign σ.nextVirtualReg
  simp only [branchTemps]
  have hnext := assign_next (σ.skip 1) σ.nextVirtualReg
  have hlt := h₁.bound ht
  set s' := ((σ.skip 1).assignVirtualRegister σ.nextVirtualReg).2
  have hnext' : s'.nextVirtualReg + 1 ≤ _ := assign_next (s'.skip 1) s'.nextVirtualReg
  constructor
  · exact hlt.trans_le ((Nat.le_succ _).trans hnext')
  · exact (Nat.le_succ _).trans (hnext.trans ((Nat.le_succ _).trans hnext'))

theorem branchTemps_taken (h : σ.irToVReg σ.nextVirtualReg = none) :
    σ.branchTemps.1 = σ.nextVirtualReg + 1 := by
  simp [branchTemps, assignVirtualRegister, takeVirtualReg, InstructionSelector.skip, h]

theorem branchTemps_fallThrough_some (h : σ.irToVReg σ.nextVirtualReg = some v) :
    σ.branchTemps.2.1 = (σ.irToVReg (σ.nextVirtualReg + 1)).getD (σ.nextVirtualReg + 2) := by
  simp only [branchTemps, assignVirtualRegister, takeVirtualReg, InstructionSelector.skip, h]
  cases σ.irToVReg (σ.nextVirtualReg + 1) <;> rfl

theorem eq_of_getD {o : Option VirtualRegister} {n : ℕ} (hn : σ.nextVirtualReg ≤ n)
    (hv : v = o.getD n) (hlt : v < σ.nextVirtualReg) : o = some v := by
  cases o with
  | none =>
    rw [Option.getD_none] at hv
    subst hv
    exact absurd hlt (Nat.not_lt.mpr hn)
  | some w => rw [hv, Option.getD_some]

/-- A register of a value that a constant of the branch takes is that of the constant's id. -/
theorem exists_constantId (halloc : Allocated σ (valueIds instructions) temps)
    (hnext : σ.nextVirtualReg = constantId instructions)
    (hv : v = σ.branchTemps.1 ∨ v = σ.branchTemps.2.1) (hlt : v < σ.nextVirtualReg) :
    ∃ id ∈ constantIds instructions, σ.irToVReg id = some v := by
  have hsecond : constantIds instructions = [σ.nextVirtualReg,
      if σ.irToVReg σ.nextVirtualReg = none then σ.nextVirtualReg + 2
        else σ.nextVirtualReg + 1] := by
    have hmem := halloc.mem_ids σ.nextVirtualReg
    rw [constantIds, ← hnext]
    cases hid : σ.irToVReg σ.nextVirtualReg with
    | none => simp [← hmem, hid]
    | some w => simp [← hmem, hid]
  rw [hsecond]
  cases hid : σ.irToVReg σ.nextVirtualReg with
  | none =>
    rw [branchTemps_taken hid, branchTemps_fallThrough hid] at hv
    rcases hv with rfl | hv
    · exact absurd hlt (Nat.not_lt.mpr (Nat.le_add_right _ 1))
    · exact ⟨σ.nextVirtualReg + 2, by simp, eq_of_getD (Nat.le_add_right _ 3) hv hlt⟩
  | some w =>
    rw [branchTemps_some hid, branchTemps_fallThrough_some hid] at hv
    rcases hv with rfl | hv
    · exact ⟨σ.nextVirtualReg, by simp, hid⟩
    · exact ⟨σ.nextVirtualReg + 1, by simp, eq_of_getD (Nat.le_add_right _ 2) hv hlt⟩

end InstructionSelector

section

variable {s : RegisterAllocator} {block : BasicBlock} {code : Code} {σ : InstructionSelector}

theorem compatible_of_spares (hblock : block.WellTyped) (hspares : SparesOperands block)
    (hselect : init.selectInstructions block = .ok (code, σ))
    (halloc : Allocates s (computeLiveIntervals code)) (straight : Code)
    (hstraight : code = straight ++ selectRet) :
    Compatible s.registerOf {.physical (.x 0)} straight := by
  obtain ⟨body, ending, heq, hbody, -, hending⟩ := selectInstructions_shape hblock hselect
  obtain rfl := List.append_cancel_right (hstraight.symm.trans heq)
  subst hstraight
  by_cases hbranch : ∃ c t f, block.terminator = .condBranch c t f
  · obtain ⟨c, t, f, hterm⟩ := hbranch
    obtain ⟨Γ, hinsts, htyped⟩ := hblock
    obtain ⟨code₁, σ₁, code₂, hok₁, hok₂, hcode⟩ := selectInstructions_eq_ok.mp hselect
    obtain ⟨hselects, hcovers⟩ := selectAll_selects .init hinsts hok₁
    have halloc' := Allocated.init.all hok₁
    rw [hterm] at hok₂ htyped
    obtain ⟨cond, hcond, -⟩ := bind_eq_ok.mp hok₂
    replace hcond := getVirtualRegisterOrThrow_ok hcond
    rw [selectTerminator, selectCondBranch_eq hcond, branchCode_eq] at hok₂
    cases hok₂
    obtain hstraight : body ++ ending = code₁ ++ branchBody cond σ₁.branchTemps.1 σ₁.branchTemps.2.1
        σ₁.branchTemps.2.2.1 t f ++ [.twoOperand .mov .x X0 (.virtual σ₁.branchTemps.2.2.1)] := by
      apply (List.append_left_inj selectRet).mp
      rw [hcode]
      simp
    have hemitted := List.forall_mem_append.mpr ⟨hbody.emitted, hending.emitted⟩
    rw [hstraight] at hemitted halloc ⊢
    have hfresh {v : VirtualRegister} (hv : .virtual v ∈ targets code₁) :
        v < σ₁.nextVirtualReg := by
      obtain ⟨w, heq, -, hlt⟩ := hselects.fresh _ hv
      cases heq
      exact hlt
    have hnext : σ₁.nextVirtualReg = constantId block.instructions := by
      rw [halloc'.next, List.nil_append, List.nil_append, length_allAddressTemps hok₁]
      rfl
    obtain ⟨hlt, hle⟩ := branchTemps_lt hcovers.toSeparate
    refine compatible_of_branch hemitted halloc (branchTemps_distinct hcovers.toSeparate)
      (Nat.ne_of_lt hlt) hselects.clustered ?_ ?_ ?_ ?_ ?_
    · intro hx
      exact absurd (hfresh hx) (Nat.not_lt.mpr hle)
    · intro v hv htargets
      obtain ⟨id, hid, hidv⟩ := exists_constantId halloc' hnext hv (hfresh htargets)
      obtain ⟨rfl, front, opcode, ty, lhs, rhs, hop, hlast⟩ :=
        hspares _ _ _ hterm id hid ((halloc'.mem_ids id).mp ⟨v, hidv⟩)
      obtain rfl := Option.some.inj (hcond.symm.trans hidv)
      rw [hlast] at hok₁
      exact ⟨rfl, lastWrite_of_comparison hop hok₁ hidv⟩
    · exact scope_init ▸ hselects.closed
    · exact hselects.body.fresh
    · refine (hselects.scope (mem_scope hcond)).resolve_left ?_
      rw [scope_init]
      rintro heq
      cases heq
  · push Not at hbranch
    exact compatible_of_interferes hbody hending halloc
      (separate_of_no_branch hblock hbranch hselect halloc _ rfl)

theorem X30_not_mem_selected {body ending : Code} (hbody : Body {.physical (.x 0)} body)
    (hending : Ending ({.physical (.x 0)} ∪ targets body) ending) :
    .physical (.x 30) ∉ targets (body ++ ending) := by
  rw [targets_append]
  rintro (hx | ⟨inst, hinst, hx⟩)
  · obtain ⟨vreg, hvreg⟩ := hbody.fresh _ hx
    cases hvreg
  · cases (hending.target inst hinst).symm.trans hx

theorem run_allocated {final : Code} (hblock : block.WellTyped)
    (hselect : init.selectInstructions block = .ok (code, σ))
    (hok : allocateRegisters code (computeLiveIntervals code) = .ok (true, final))
    (hcompat : ∀ s, allocateIntervals (computeLiveIntervals code) RegisterAllocator.init = some s →
      Allocates s (computeLiveIntervals code) → ∀ straight, code = straight ++ selectRet →
        Compatible s.registerOf {.physical (.x 0)} straight)
    (m : Machine) : ∃ n n', run code m = some (n, m.reg (.physical (.x 30))) ∧
      run final m = some (n', m.reg (.physical (.x 30))) ∧
      n'.reg (.physical (.x 0)) = n.reg (.physical (.x 0)) ∧ n'.mem = n.mem := by
  rcases allocateIntervals_ordered (computeLiveIntervals_ordered code) with
    ⟨s, hscan, halloc, -⟩ | ⟨hnone, -⟩
  swap
  · rw [allocateRegisters, hnone] at hok
    cases hok
  replace hcompat := hcompat s hscan halloc
  obtain ⟨body, ending, rfl, hbody, -, hending⟩ := selectInstructions_shape hblock hselect
  have hemitted := List.forall_mem_append.mpr ⟨hbody.emitted, hending.emitted⟩
  rw [allocateRegisters_eq hscan (allocated hbody hending halloc)] at hok
  cases hok
  obtain ⟨n, n', hrun, hrun', hX0, hmem, -⟩ := run_rename hbody hending (hcompat _ rfl) m
  obtain ⟨n₁, hreach, hkeep⟩ := reaches_of_emitted hemitted m
  obtain ⟨n₂, -, hrun₂, hkeep'⟩ := run_final hbody hending halloc m
  obtain rfl : n' = n₂ := (Prod.mk.inj (Option.some.inj (hrun'.symm.trans hrun₂))).1
  obtain rfl : n = n₁ := by
    have hrun₁ := (hreach.run selectRet).symm.trans hrun
    exact (Prod.mk.inj (Option.some.inj hrun₁)).1.symm
  rw [hkeep _ (X30_not_mem_selected hbody hending)] at hrun
  rw [hkeep' _ (X30_not_mem_targets hbody hending halloc)] at hrun'
  exact ⟨n, n', hrun, hrun', hX0, hmem⟩

/-- Linear scan keeps what a block does: the code and the allocated code return to the same address
with the same next program counter and the same memory. -/
theorem allocateRegisters_block {final : Code} (hblock : block.WellTyped)
    (hspares : SparesOperands block) (hselect : init.selectInstructions block = .ok (code, σ))
    (hok : allocateRegisters code (computeLiveIntervals code) = .ok (true, final)) (m : Machine) :
    ∃ n n', run code m = some (n, m.reg (.physical (.x 30))) ∧
      run final m = some (n', m.reg (.physical (.x 30))) ∧
      n'.reg (.physical (.x 0)) = n.reg (.physical (.x 0)) ∧ n'.mem = n.mem := by
  refine run_allocated hblock hselect hok ?_ m
  intro s _ halloc straight hcode
  exact compatible_of_spares hblock hspares hselect halloc straight hcode

theorem beqBlock_wellTyped : beqBlock.WellTyped := by
  let Γ : Types := ((Types.extend (fun _ => none) 1 (some .i64)).extend 2 (some .i64))
  have hcompare : WellTyped Γ [⟨3, .binaryOp .eq .i1 1 2⟩] (Γ.extend 3 (some .i1)) :=
    .cons rfl (.comparison rfl (.inl rfl) rfl rfl) (.nil _)
  exact ⟨_, .cons rfl (.regRead (by decide)) (.cons rfl (.regRead (by decide)) hcompare),
    .condBranch _ _ rfl⟩

theorem allocateRegisters_block_beq :
    ∃ code σ final, init.selectInstructions beqBlock = .ok (code, σ) ∧
      allocateRegisters code (computeLiveIntervals code) = .ok (true, final) ∧
      ∀ m, ∃ n n', run code m = some (n, m.reg (.physical (.x 30))) ∧
        run final m = some (n', m.reg (.physical (.x 30))) ∧
        n'.reg (.physical (.x 0)) = n.reg (.physical (.x 0)) ∧ n'.mem = n.mem :=
  ⟨_, _, _, rfl, rfl, allocateRegisters_block beqBlock_wellTyped
    (sparesOperands_of_branch [_, _] rfl (by decide)) rfl rfl⟩

end

end DinoRisc
