import DinoRisc.Arm64.Emitted
import DinoRisc.BinaryTranslator
import DinoRisc.Lowering.AllocatorCorrect

/-! A block whose registers cannot be allocated is rejected by the encoder, and never executed. -/

namespace DinoRisc

open Arm64 Encoder IR LivenessAnalysis RegisterAllocator

namespace Arm64

namespace Encoder

theorem encodeInstruction_error {inst : Instruction} {e : Error}
    (h : encodeInstruction inst = .error e) : ∃ message, e = .encoding message := by
  refine encodeWord_encodingOnly inst e ?_
  rw [encodeInstruction] at h
  cases hword : encodeWord inst with
  | error e' =>
    rw [hword] at h
    cases h
    rfl
  | ok word =>
    rw [hword] at h
    cases h

theorem mapM_encodeInstruction_error (before after : List Instruction) {inst : Instruction}
    {message : String} (h : encodeInstruction inst = .error (.encoding message)) :
    ∃ bad ∈ before ++ [inst], ∃ message, encodeInstruction bad = .error (.encoding message) ∧
      (before ++ inst :: after).mapM encodeInstruction = .error (.encoding message) := by
  induction before with
  | nil =>
    refine ⟨inst, by simp, message, h, ?_⟩
    rw [List.nil_append, List.mapM_cons, h]
    rfl
  | cons first rest ih =>
    cases hfirst : encodeInstruction first with
    | error e =>
      obtain ⟨m, rfl⟩ := encodeInstruction_error hfirst
      refine ⟨first, by simp, m, hfirst, ?_⟩
      rw [List.cons_append, List.mapM_cons, hfirst]
      rfl
    | ok bytes =>
      obtain ⟨bad, hmem, m, hbad, hrest⟩ := ih
      refine ⟨bad, List.mem_cons_of_mem first hmem, m, hbad, ?_⟩
      rw [List.cons_append, List.mapM_cons, hfirst, hrest]
      rfl

end Encoder

end Arm64

theorem getVirtualRegisterFromOperand_eq_some {operand : Operand} {vreg : VirtualRegister} :
    getVirtualRegisterFromOperand operand = some vreg ↔ operand = .virtual vreg := by
  cases operand <;> simp [getVirtualRegisterFromOperand]

theorem mem_operands_of_defined {inst : Arm64.Instruction} {vreg : VirtualRegister}
    (h : getDefinedVirtualRegisters inst = some vreg) : .virtual vreg ∈ inst.operands := by
  cases inst with
  | branch => cases h
  | twoOperand | memory =>
    simp only [getDefinedVirtualRegisters, Option.ite_none_right_eq_some,
      getVirtualRegisterFromOperand_eq_some] at h
    simp [Instruction.operands, h.2]
  | _ =>
    simp only [getDefinedVirtualRegisters, getVirtualRegisterFromOperand_eq_some] at h
    simp [Instruction.operands, h]

theorem exists_hasVirtual {code : List Arm64.Instruction}
    (h : allocateIntervals (computeLiveIntervals code) init = none) :
    ∃ inst ∈ code, inst.hasVirtual = true := by
  rcases allocateIntervals_ordered (computeLiveIntervals_ordered code) with
    ⟨s, hok, -⟩ | ⟨-, interval, hmem, -⟩
  · rw [h] at hok
    cases hok
  · obtain ⟨vreg, ⟨i, inst, hi, hdef⟩, -⟩ := mem_computeLiveIntervals.mp hmem
    exact ⟨inst, List.mem_of_getElem? hi,
      Instruction.hasVirtual_iff.mpr ⟨vreg, mem_operands_of_defined hdef⟩⟩

theorem allocateRegisters_false {code code' : List Arm64.Instruction}
    {intervals : List LiveInterval} (h : allocateRegisters code intervals = .ok (false, code')) :
    allocateIntervals intervals init = none ∧ code' = code := by
  rw [allocateRegisters] at h
  cases hscan : allocateIntervals intervals init with
  | none =>
    rw [hscan] at h
    cases h
    exact ⟨rfl, rfl⟩
  | some s =>
    rw [hscan] at h
    cases hreplace : code.mapM s.replaceVirtualRegisters with
    | error e =>
      simp only [hreplace] at h
      cases h
    | ok code'' =>
      simp only [hreplace] at h
      cases h

/-- The encoder rejects the code no later than at its first virtual register. -/
theorem encode_unallocated {code : List Arm64.Instruction}
    (h : allocateIntervals (computeLiveIntervals code) init = none) :
    ∃ before inst after bad message, code = before ++ inst :: after ∧ inst.hasVirtual = true ∧
      (∀ other ∈ before, other.hasVirtual = false) ∧
      (∃ message, encodeInstruction inst = .error (.encoding message)) ∧
      bad ∈ before ++ [inst] ∧ encodeInstruction bad = .error (.encoding message) ∧
      code.mapM encodeInstruction = .error (.encoding message) := by
  obtain ⟨first, hfirst⟩ : ∃ first, code.find? Instruction.hasVirtual = some first := by
    rw [← Option.isSome_iff_exists, List.find?_isSome]
    exact exists_hasVirtual h
  obtain ⟨hvirtual, before, after, rfl, hbefore⟩ := List.find?_eq_some_iff_append.mp hfirst
  obtain ⟨vreg, hvreg⟩ := Instruction.hasVirtual_iff.mp hvirtual
  obtain ⟨m, hm⟩ := encodeInstruction_virtual hvreg
  obtain ⟨bad, hmem, message, hbad, hencode⟩ :=
    mapM_encodeInstruction_error before after hm
  exact ⟨before, first, after, bad, message, rfl, hvirtual, by simpa using hbefore, ⟨m, hm⟩, hmem,
    hbad, hencode⟩

theorem translateToARM64_unallocated {block : BasicBlock} {code : List Arm64.Instruction}
    {s : InstructionSelector}
    (hselect : InstructionSelector.init.selectInstructions block = .ok (code, s))
    (halloc : allocateRegisters code (computeLiveIntervals code) = .ok (false, code)) :
    BinaryTranslator.translateToARM64 block = .ok code := by
  simp only [BinaryTranslator.translateToARM64, hselect, bind, Except.bind, halloc]
  rfl

namespace BinaryTranslator

/-- If the allocation fails, the code is returned as it was selected, the encoder rejects it no
later than at the first instruction with a virtual register, and no block that lifts to
`block` reaches the execution engine. -/
theorem executeBlock_allocation_failure {block : BasicBlock} {code code' : List Arm64.Instruction}
    {s : InstructionSelector} (hselect : InstructionSelector.init.selectInstructions block = .ok (code, s))
    (halloc : allocateRegisters code (computeLiveIntervals code) = .ok (false, code')) :
    code' = code ∧ translateToARM64 block = .ok code ∧
    ∃ before inst after bad message, code = before ++ inst :: after ∧ inst.hasVirtual = true ∧
      (∀ other ∈ before, other.hasVirtual = false) ∧
      (∃ message, encodeInstruction inst = .error (.encoding message)) ∧
      bad ∈ before ++ [inst] ∧ encodeInstruction bad = .error (.encoding message) ∧
      code.mapM encodeInstruction = .error (.encoding message) ∧
      ∀ (t : BinaryTranslator) (pc : BitVec 64) (order : List ℕ → List ℕ)
        (instructions : List RiscV.Instruction) (l : Lifter), t.isValidPC pc = true →
        decodeBlock t.textSectionData (offsets (pc - t.textBaseAddress).toNat t.textSectionData.length)
          pc = .ok instructions →
        instructions.isEmpty = false →
        Lifter.init.liftBasicBlock order instructions = .ok (block, l) →
        t.translateBlock order pc = .error (.encoding message) ∧
          t.executeBlock order pc = .error (.encoding message) := by
  obtain ⟨hnone, rfl⟩ := allocateRegisters_false halloc
  have htranslate := translateToARM64_unallocated hselect halloc
  obtain ⟨before, first, after, bad, message, hsplit, hvirtual, hbefore, hfirst, hmem, hbad,
    hencode⟩ := encode_unallocated hnone
  refine ⟨rfl, htranslate, before, first, after, bad, message, hsplit, hvirtual, hbefore, hfirst,
    hmem, hbad, hencode, ?_⟩
  intro t pc order instructions l hpc hdecode hne hlift
  have hblock : t.translateBlock order pc = .error (.encoding message) := by
    simp only [translateBlock, hpc, hdecode, hne, hlift, htranslate, hencode, bind, Except.bind]
    rfl
  refine ⟨hblock, ?_⟩
  rw [executeBlock, hblock]
  rfl

def crowdedBlock : BasicBlock where
  instructions := ((List.range 29).map fun i => ⟨i, .regRead (i + 1)⟩) ++
    (List.range 29).map fun i => ⟨29 + i, .regWrite (i + 1) i⟩
  terminator := .ret none

theorem executeBlock_allocation_failure_crowded :
    ∃ code s, InstructionSelector.init.selectInstructions crowdedBlock = .ok (code, s) ∧
      allocateRegisters code (computeLiveIntervals code) = .ok (false, code) ∧
      translateToARM64 crowdedBlock = .ok code ∧
      ∃ message, code.mapM encodeInstruction = .error (.encoding message) := by
  obtain ⟨code, s, hselect, hscan⟩ : ∃ code s,
      InstructionSelector.init.selectInstructions crowdedBlock = .ok (code, s) ∧
        (allocateIntervals (computeLiveIntervals code) init).isNone = true := by
    refine ⟨_, _, rfl, ?_⟩
    decide +kernel
  have halloc : allocateRegisters code (computeLiveIntervals code) = .ok (false, code) := by
    rw [allocateRegisters, Option.isNone_iff_eq_none.mp hscan]
  obtain ⟨-, htranslate, _, _, _, _, message, -, -, -, -, -, -, hencode, -⟩ :=
    executeBlock_allocation_failure hselect halloc
  exact ⟨code, s, hselect, halloc, htranslate, message, hencode⟩

end BinaryTranslator

end DinoRisc
