import DinoRisc.Arm64.MachineCode
import DinoRisc.Lowering.AllocationSound
import DinoRisc.Lowering.Inversion

/-! The code of a block without XOR and logical shifts to the right, word by word. -/

namespace DinoRisc

open Arm64 IR

/-- The operations that are not `XOR` and `Shr`. -/
def IR.InstructionKind.Exact : InstructionKind → Prop
  | .binaryOp opcode _ _ _ => opcode ≠ .xor ∧ opcode ≠ .shr
  | _ => True

namespace InstructionSelector

variable {σ σ' : InstructionSelector} {Γ : Types} {code : Code} {target : Arm64.Operand}

theorem selectConstIntoRegister_exact (value : BitVec 64) (target : Arm64.Operand) :
    ∀ inst ∈ selectConstIntoRegister .i64 value target, inst.Exact := by
  have hchunks (firstChunk : Bool) (shifts : List ℕ) :
      ∀ inst ∈ selectChunks .x target value firstChunk shifts, inst.Exact := by
    induction shifts generalizing firstChunk with
    | nil => cases firstChunk <;> simp [selectChunks, Instruction.Exact]
    | cons shift shifts ih =>
      rw [selectChunks]
      split
      · exact ih firstChunk
      · exact List.forall_mem_cons.mpr ⟨rfl, ih false⟩
  rw [selectConstIntoRegister]
  split
  · simp [Instruction.Exact, irTypeToDataSize]
  split
  · simp [Instruction.Exact, irTypeToDataSize]
  · exact hchunks _ _

theorem selectConstIntoRegister_exact_i32 {value : BitVec 64} (hlow : -65536 ≤ value.toInt)
    (hhigh : value.toInt < 65536) (target : Arm64.Operand) :
    ∀ inst ∈ selectConstIntoRegister .i32 value target, inst.Exact := by
  rw [selectConstIntoRegister]
  split
  · simp [Instruction.Exact, irTypeToDataSize]
  · rw [if_pos (by omega)]
    simp [Instruction.Exact, irTypeToDataSize]

theorem generateAddressTranslation_exact (σ : InstructionSelector) (l : VirtualRegister) :
    ∀ inst ∈ (σ.generateAddressTranslation l).1, inst.Exact := by
  rw [generateAddressTranslation_eq]
  simp [baseLoads, hostAddress, Instruction.Exact]

theorem comparisonCondition_exact {opcode : BinaryOpcode} {condition : Condition}
    (h : comparisonCondition opcode = some condition) : condition ≠ .al ∧ condition ≠ .nv := by
  cases opcode <;> cases h <;> simp

theorem irBinaryOpToARM64_exact {opcode : BinaryOpcode} {o : Arm64.Opcode}
    (hexact : opcode ≠ .xor ∧ opcode ≠ .shr) (h : irBinaryOpToARM64 opcode = .ok o) :
    o ≠ .eor ∧ o ≠ .lsr := by
  obtain ⟨hxor, hshr⟩ := hexact
  cases opcode <;> cases h <;> simp_all

theorem Lowered.exact {inst : IR.Instruction} {type : Option Ty} (h : Lowered σ inst code σ')
    (hlow : Lowerable Γ inst.kind type) (hexact : inst.kind.Exact) : ∀ inst ∈ code, inst.Exact := by
  cases h with
  | const henter =>
    cases hlow with
    | const64 => exact selectConstIntoRegister_exact _ _
    | const32 _ hlow hhigh => exact selectConstIntoRegister_exact_i32 hlow hhigh _
  | comparison henter hcond hl hr =>
    simpa [Instruction.Exact] using comparisonCondition_exact hcond
  | @arithmetic _ opcode ty _ _ o _ _ _ _ henter hcond hop hl hr =>
    have hsize : irTypeToDataSize ty = .w ∨ irTypeToDataSize ty = .x := by
      cases hlow with
      | arithmetic _ hty =>
        rcases hty with rfl | rfl
        · exact .inl rfl
        · exact .inr rfl
      | comparison hcmp =>
        obtain ⟨condition, hsome⟩ := comparisonCondition_comparison hcmp
        cases hcond.symm.trans hsome
    simpa using ⟨hsize, irBinaryOpToARM64_exact hexact hop⟩
  | sext henter hl =>
    cases hlow
    simp [Instruction.Exact, irTypeToDataSize]
  | zext henter hl =>
    cases hlow
    simp [Instruction.Exact, irTypeToDataSize]
  | trunc henter hl =>
    cases hlow
    simp [Instruction.Exact, irTypeToDataSize]
  | load | store =>
    exact List.forall_mem_append.mpr
      ⟨generateAddressTranslation_exact _ _, by simp [Instruction.Exact]⟩
  | regRead | regWrite => simp [Instruction.Exact]

theorem selectAll_exact {instructions : List IR.Instruction} {Γ' : Types}
    (htyped : WellTyped Γ instructions Γ') (hexact : ∀ inst ∈ instructions, inst.kind.Exact)
    (hok : σ.selectAll instructions = .ok (code, σ')) : ∀ inst ∈ code, inst.Exact := by
  induction htyped generalizing σ code with
  | nil Γ =>
    cases hok
    simp
  | cons hfresh hlow _ ih =>
    obtain ⟨hinst, hrest⟩ := List.forall_mem_cons.mp hexact
    obtain ⟨code₁, σ₁, code₂, hok₁, hok₂, rfl⟩ := selectAll_cons hok
    exact List.forall_mem_append.mpr
      ⟨(selectInstruction_lowered hok₁).exact hlow hinst, ih hrest hok₂⟩

theorem selectTerminator_exact {terminator : Terminator}
    (hok : σ.selectTerminator terminator = .ok (code, σ')) : ∀ inst ∈ code, inst.Exact := by
  have hret : ∀ inst ∈ selectRet, inst.Exact := by simp [selectRet, Instruction.Exact]
  have hconst (value : BitVec 64) :
      ∀ inst ∈ selectConstIntoRegister .i64 value X0 ++ selectRet, inst.Exact :=
    List.forall_mem_append.mpr ⟨selectConstIntoRegister_exact value X0, hret⟩
  cases terminator with
  | branch target =>
    cases hok
    exact hconst target
  | condBranch c t f =>
    rw [selectTerminator] at hok
    cases hc : σ.irToVReg c with
    | none => simp [selectCondBranch, getVirtualRegisterOrThrow, hc, bind, Except.bind] at hok
    | some cond =>
      rw [selectCondBranch_eq hc] at hok
      cases hok
      simp only [branchCode, List.cons_append, List.forall_mem_cons, List.forall_mem_append]
      exact ⟨.inr rfl, ⟨⟨selectConstIntoRegister_exact t _, selectConstIntoRegister_exact f _⟩,
        by simp [Instruction.Exact]⟩, hret⟩
  | ret value =>
    cases value with
    | none =>
      cases hok
      exact hconst 0#64
    | some value =>
      simp only [selectTerminator, bind, Except.bind] at hok
      split at hok
      · cases hok
      · cases hok
        exact List.forall_mem_cons.mpr ⟨.inr rfl, hret⟩

theorem selectInstructions_exact {block : BasicBlock} (hblock : block.WellTyped)
    (hexact : ∀ inst ∈ block.instructions, inst.kind.Exact)
    (hok : init.selectInstructions block = .ok (code, σ)) : ∀ inst ∈ code, inst.Exact := by
  obtain ⟨Γ, hinsts, -⟩ := hblock
  obtain ⟨code₁, σ₁, code₂, hok₁, hok₂, rfl⟩ := selectInstructions_eq_ok.mp hok
  exact List.forall_mem_append.mpr
    ⟨selectAll_exact hinsts hexact hok₁, selectTerminator_exact hok₂⟩

end InstructionSelector

end DinoRisc
