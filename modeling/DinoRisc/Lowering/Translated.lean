import DinoRisc.Lowering.AllocationFailure
import DinoRisc.Lowering.SelectedCode
import DinoRisc.Lowering.ValueFlow

/-!
The final code of a well-typed block: the selected code with its registers renamed, if they fit into
the available ones.
-/

namespace DinoRisc

open Arm64 Encoder IR InstructionSelector LivenessAnalysis RegisterAllocator

namespace LivenessAnalysis

variable {inst : Arm64.Instruction} {vreg : VirtualRegister} {code : Code}

theorem defined_iff (h : inst.Emitted) :
    getDefinedVirtualRegisters inst = some vreg ↔ inst.target = some (.virtual vreg) := by
  constructor
  · intro hdef
    rcases target_of_defined hdef with htarget | ⟨size, src1, src2, rfl⟩ | ⟨size, src, rfl⟩
    · exact htarget
    · cases h with
      | compute hop => simp at hop
    · cases h with
      | convert hop | constant hop => simp at hop
  · intro htarget
    obtain ⟨m', hstep⟩ := h.exec_next ⟨fun _ => 0#64, ⟨false, false, false, false⟩, fun _ => 0#8⟩
    have hwrites : Writes [inst] 0 vreg := writes_of_exec rfl hstep htarget
    obtain ⟨_, hinst, hdef⟩ := hwrites.defines
    cases hinst
    exact hdef

theorem defines_of_target {i : ℕ} (hemitted : ∀ inst ∈ code, inst.Emitted)
    (hi : code[i]? = some inst) (htarget : inst.target = some (.virtual vreg)) :
    Defines code i vreg :=
  ⟨inst, hi, (defined_iff (hemitted inst (List.mem_of_getElem? hi))).mpr htarget⟩

end LivenessAnalysis

namespace Arm64.Instruction

theorem Emitted.operand {inst : Arm64.Instruction} {vreg : VirtualRegister}
    (h : inst.Emitted) (hmem : .virtual vreg ∈ inst.operands) :
    .virtual vreg ∈ inst.sources ∨ inst.target = some (.virtual vreg) := by
  have hsource (hread : .virtual vreg ∈ inst.reads) : .virtual vreg ∈ inst.sources :=
    List.mem_filterMap.mpr ⟨_, hread, rfl⟩
  cases h with
  | @compute opcode size dest src1 src2 hop hdest hsrc1 hsrc2 =>
    simp only [operands, List.mem_cons, List.not_mem_nil, or_false] at hmem hop
    rcases hmem with rfl | hmem
    · right
      rcases hop with rfl | rfl | rfl | rfl | rfl | rfl | rfl | rfl <;> rfl
    · exact .inl (hsource (by simpa [reads] using hmem))
  | @convert opcode size dest src hop hdest hsrc =>
    simp only [operands, List.mem_cons, List.not_mem_nil, or_false] at hmem hop
    rcases hmem with rfl | rfl
    · right
      rcases hop with rfl | rfl | rfl | rfl <;> rfl
    · left
      rcases hop with rfl | rfl | rfl | rfl <;> exact hsource (by simp [reads])
  | @constant opcode size dest value hop hdest hvalue =>
    simp only [operands, List.mem_cons, List.not_mem_nil, or_false, reduceCtorEq] at hmem hop
    subst hmem
    right
    rcases hop with rfl | rfl <;> rfl
  | compare hsrc1 hsrc2 => exact .inl (hsource (by simpa [operands, reads] using hmem))
  | @memory opcode size reg baseReg offset hop hreg hbase hoffset haligned =>
    simp only [operands, List.mem_cons, List.not_mem_nil, or_false] at hmem hop
    rcases hop with rfl | rfl
    · rcases hmem with rfl | rfl
      · exact .inr rfl
      · exact .inl (hsource (by simp [reads]))
    · exact .inl (hsource (by simpa [reads] using hmem))
  | chunk hop hdest hshift =>
    simp only [operands, List.mem_cons, List.not_mem_nil, or_false] at hmem
    subst hmem
    exact .inr rfl
  | set hdest =>
    simp only [operands, List.mem_cons, List.not_mem_nil, or_false] at hmem
    subst hmem
    exact .inr rfl
  | select hdest hsrc1 hsrc2 =>
    simp only [operands, List.mem_cons, List.not_mem_nil, or_false] at hmem
    rcases hmem with rfl | hmem
    · exact .inr rfl
    · exact .inl (hsource (by simpa [reads] using hmem))

end Arm64.Instruction

namespace RegisterAllocator

variable {s : RegisterAllocator} {inst : Arm64.Instruction} {code : Code}

def registerOf (s : RegisterAllocator) (vreg : VirtualRegister) : Register :=
  (s.allocation vreg).getD (.x 1)

theorem replaceOperandRegister_eq {operand : Arm64.Operand}
    (h : ∀ vreg, operand = .virtual vreg → ∃ r, s.allocation vreg = some r) :
    s.replaceOperandRegister operand = .ok (operand.rename s.registerOf) := by
  cases operand with
  | virtual vreg =>
    obtain ⟨r, hr⟩ := h vreg rfl
    simp only [replaceOperandRegister, getPhysicalRegisterOrThrow, hr, bind, Except.bind, pure,
      Except.pure, Operand.rename, registerOf, Option.getD_some]
  | register | immediate => rfl

theorem replaceVirtualRegisters_eq
    (h : ∀ vreg, .virtual vreg ∈ inst.operands → ∃ r, s.allocation vreg = some r) :
    s.replaceVirtualRegisters inst = .ok (inst.rename s.registerOf) := by
  have hoperand {o : Arm64.Operand} (hmem : o ∈ inst.operands) :
      s.replaceOperandRegister o = .ok (o.rename s.registerOf) :=
    replaceOperandRegister_eq fun vreg hv => h vreg (hv ▸ hmem)
  cases inst with
  | branch opcode target => rfl
  | threeOperand opcode size dest src1 src2 | conditionalSelect opcode size dest src1 src2 cond =>
    simp only [replaceVirtualRegisters, bind, Except.bind,
      hoperand (o := dest) (by simp [Instruction.operands]),
      hoperand (o := src1) (by simp [Instruction.operands]),
      hoperand (o := src2) (by simp [Instruction.operands])]
    rfl
  | twoOperand opcode size dest src | memory opcode size dest src offset =>
    simp only [replaceVirtualRegisters, bind, Except.bind,
      hoperand (o := dest) (by simp [Instruction.operands]),
      hoperand (o := src) (by simp [Instruction.operands])]
    rfl
  | moveWide opcode size dest | conditional opcode size dest =>
    simp only [replaceVirtualRegisters, bind, Except.bind,
      hoperand (o := dest) (by simp [Instruction.operands])]
    rfl

theorem allocateRegisters_eq {intervals : List LiveInterval}
    (hscan : allocateIntervals intervals init = some s)
    (h : ∀ inst ∈ code, ∀ vreg, .virtual vreg ∈ inst.operands →
      ∃ r, s.allocation vreg = some r) :
    allocateRegisters code intervals = .ok (true, code.map (Instruction.rename s.registerOf)) := by
  rw [allocateRegisters, hscan]
  dsimp only
  rw [mapM_ok fun inst hinst => replaceVirtualRegisters_eq (h inst hinst)]
  rfl

theorem mem_availableRegisters {r : Register} (h : r ∈ availableRegisters) :
    ∃ n : Fin 31, r = .x n ∧ 1 ≤ n.val ∧ n.val ≤ 28 := by
  revert r
  decide

theorem Allocates.registerOf {intervals : List LiveInterval} (h : Allocates s intervals)
    (vreg : VirtualRegister) : s.registerOf vreg ∈ availableRegisters := by
  rw [RegisterAllocator.registerOf]
  cases hr : s.allocation vreg with
  | none => decide
  | some r => exact (h.available hr).1

theorem Allocates.registerOf_general {intervals : List LiveInterval} (h : Allocates s intervals)
    (vreg : VirtualRegister) : ∃ n, s.registerOf vreg = .x n := by
  obtain ⟨n, hn, -⟩ := mem_availableRegisters (h.registerOf vreg)
  exact ⟨n, hn⟩

theorem Allocates.registerOf_ne_X0 {intervals : List LiveInterval} (h : Allocates s intervals)
    (vreg : VirtualRegister) : s.registerOf vreg ≠ .x 0 := by
  intro heq
  obtain ⟨n, hn, hpos, -⟩ := mem_availableRegisters (h.registerOf vreg)
  rw [heq] at hn
  cases hn
  exact absurd hpos (by decide)

end RegisterAllocator

/-! ### The final code -/

section

variable {s : RegisterAllocator} {block : BasicBlock} {code body ending : Code}
  {σ : InstructionSelector}

theorem rename_ret (ρ : VirtualRegister → Register) :
    selectRet.map (Instruction.rename ρ) = selectRet := by
  simp [selectRet, Instruction.rename, Operand.rename, X30]

theorem mem_targets_of_source (hbody : Body {.physical (.x 0)} body)
    (hending : Ending ({.physical (.x 0)} ∪ targets body) ending) {inst : Arm64.Instruction}
    (hmem : inst ∈ body ++ ending) {vreg : VirtualRegister}
    (hsource : .virtual vreg ∈ inst.sources) : .virtual vreg ∈ targets (body ++ ending) := by
  obtain ⟨before, after, hsplit⟩ := List.append_of_mem hmem
  have hclosed := hbody.closed.append hending.closed
  rw [hsplit] at hclosed ⊢
  rcases hclosed.split _ hsource with hX0 | ⟨other, hother, htarget⟩
  · cases hX0
  · exact ⟨other, by simp [hother], htarget⟩

theorem allocated (hbody : Body {.physical (.x 0)} body)
    (hending : Ending ({.physical (.x 0)} ∪ targets body) ending)
    (halloc : Allocates s (computeLiveIntervals (body ++ ending ++ selectRet))) :
    ∀ inst ∈ body ++ ending ++ selectRet, ∀ vreg, .virtual vreg ∈ inst.operands →
      ∃ r, s.allocation vreg = some r := by
  intro inst hmem vreg hoperand
  have hemitted : ∀ inst ∈ body ++ ending, inst.Emitted :=
    List.forall_mem_append.mpr ⟨hbody.emitted, hending.emitted⟩
  rcases List.mem_append.mp hmem with hmem | hmem
  · have htarget : .virtual vreg ∈ targets (body ++ ending) := by
      rcases (hemitted inst hmem).operand hoperand with hsource | htarget
      · exact mem_targets_of_source hbody hending hmem hsource
      · exact ⟨inst, hmem, htarget⟩
    obtain ⟨other, hother, htarget⟩ := htarget
    obtain ⟨i, hi⟩ := List.mem_iff_getElem?.mp hother
    obtain ⟨other', hi', hdef⟩ := defines_of_target hemitted hi htarget
    have hdefines : Defines (body ++ ending ++ selectRet) i vreg :=
      ⟨other', List.getElem?_append_left (List.getElem?_eq_some_iff.mp hi').1 ▸ hi', hdef⟩
    exact halloc.assigned _ (mem_computeLiveIntervals.mpr ⟨vreg, ⟨i, hdefines⟩, rfl⟩)
  · obtain rfl := List.mem_singleton.mp hmem
    simp [Instruction.operands, X30] at hoperand

theorem mapM_encodeInstruction_ok (hbody : Body {.physical (.x 0)} body)
    (hending : Ending ({.physical (.x 0)} ∪ targets body) ending)
    (halloc : Allocates s (computeLiveIntervals (body ++ ending ++ selectRet))) :
    ∃ encoded, ((body ++ ending ++ selectRet).map (Instruction.rename s.registerOf)).mapM
      encodeInstruction = .ok encoded ∧ encoded.flatten ≠ [] := by
  have hone : ∀ inst ∈ (body ++ ending ++ selectRet).map (Instruction.rename s.registerOf),
      ∃ bytes, encodeInstruction inst = .ok bytes ∧ bytes.length = 4 := by
    intro renamed hrenamed
    obtain ⟨inst, hmem, rfl⟩ := List.mem_map.mp hrenamed
    rcases List.mem_append.mp hmem with hmem | hmem
    · have hemitted : inst.Emitted :=
        List.forall_mem_append.mpr ⟨hbody.emitted, hending.emitted⟩ inst hmem
      refine encodeInstruction_ok (hemitted.rename fun vreg _ => ?_) (Instruction.rename_hasVirtual _ _)
      exact halloc.registerOf_general vreg
    · obtain rfl := List.mem_singleton.mp hmem
      exact ⟨_, rfl, rfl⟩
  choose! bytes hbytes using hone
  refine ⟨_, mapM_ok fun inst hmem => (hbytes inst hmem).1, ?_⟩
  intro hnil
  have hret := List.flatten_eq_nil_iff.mp hnil (bytes (.twoOperand .ret .x X30 X30))
    (by simp [selectRet, Instruction.rename, Operand.rename, X30])
  have hlength := (hbytes (.twoOperand .ret .x X30 X30)
    (by simp [selectRet, Instruction.rename, Operand.rename, X30])).2
  rw [hret] at hlength
  cases hlength

/-- The selected code is renamed and encoded if fewer than 28 intervals overlap each start, and
rejected by the encoder otherwise. -/
theorem translateToARM64_cases (hblock : block.WellTyped)
    (hok : InstructionSelector.init.selectInstructions block = .ok (code, σ)) :
    ((∀ interval ∈ computeLiveIntervals code,
        pressure (computeLiveIntervals code) interval.start < 28) ∧
      ∃ s encoded, allocateIntervals (computeLiveIntervals code) RegisterAllocator.init = some s ∧
        Allocates s (computeLiveIntervals code) ∧
        BinaryTranslator.translateToARM64 block =
          .ok (code.map (Instruction.rename s.registerOf)) ∧
        (code.map (Instruction.rename s.registerOf)).mapM encodeInstruction = .ok encoded ∧
        encoded.flatten ≠ []) ∨
    ((∃ interval ∈ computeLiveIntervals code,
        28 ≤ pressure (computeLiveIntervals code) interval.start) ∧
      BinaryTranslator.translateToARM64 block = .ok code ∧
      ∃ message, code.mapM encodeInstruction = .error (.encoding message)) := by
  rcases allocateIntervals_ordered (computeLiveIntervals_ordered code) with
    ⟨s, hscan, halloc, hpressure⟩ | ⟨hscan, hpressure⟩
  · left
    obtain ⟨body, ending, rfl, hbody, -, hending⟩ := selectInstructions_shape hblock hok
    have hregisters := allocateRegisters_eq hscan (allocated hbody hending halloc)
    obtain ⟨encoded, hencode, hne⟩ := mapM_encodeInstruction_ok hbody hending halloc
    refine ⟨hpressure, s, encoded, hscan, halloc, ?_, hencode, hne⟩
    simp only [BinaryTranslator.translateToARM64, hok, bind, Except.bind, hregisters]
    rfl
  · right
    have hregisters : allocateRegisters code (computeLiveIntervals code) = .ok (false, code) := by
      rw [allocateRegisters, hscan]
    obtain ⟨_, _, _, _, message, -, -, -, -, -, -, hencode⟩ := encode_unallocated hscan
    exact ⟨hpressure, translateToARM64_unallocated hok hregisters, message, hencode⟩

theorem allocated_of_encoded {final : Code} {encoded : List (List (BitVec 8))}
    (hblock : block.WellTyped)
    (hok : InstructionSelector.init.selectInstructions block = .ok (code, σ))
    (htranslate : BinaryTranslator.translateToARM64 block = .ok final)
    (hencode : final.mapM encodeInstruction = .ok encoded) :
    ∃ s, Allocates s (computeLiveIntervals code) ∧
      final = code.map (Instruction.rename s.registerOf) := by
  rcases translateToARM64_cases hblock hok with
    ⟨-, s, -, -, halloc, htranslate', -, -⟩ | ⟨-, htranslate', message, herror⟩
  · cases htranslate.symm.trans htranslate'
    exact ⟨s, halloc, rfl⟩
  · cases htranslate.symm.trans htranslate'
    cases hencode.symm.trans herror

end

end DinoRisc
