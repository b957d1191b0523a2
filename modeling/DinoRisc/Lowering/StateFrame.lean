import DinoRisc.Lifter.Formed
import DinoRisc.Lowering.Translated

/-! What the final code of a block does to the `GuestState`. -/

namespace DinoRisc

open Arm64 Encoder IR InstructionSelector LivenessAnalysis RegisterAllocator

section

variable {ρ : VirtualRegister → Register} {inst : Arm64.Instruction} {code : Code}

theorem rename_eq_X0_iff (hρ : ∀ vreg, ρ vreg ≠ .x 0) {operand : Arm64.Operand} :
    operand.rename ρ = X0 ↔ operand = X0 := by
  cases operand with
  | virtual vreg => simp [Operand.rename, X0, hρ vreg]
  | register | immediate => rfl

theorem stateAccess_rename (hρ : ∀ vreg, ρ vreg ≠ .x 0) (inst : Arm64.Instruction) :
    (inst.rename ρ).stateAccess = inst.stateAccess := by
  cases inst with
  | memory opcode size reg baseReg offset =>
    simp only [Instruction.rename, Instruction.stateAccess, rename_eq_X0_iff hρ]
  | _ => rfl

theorem filterMap_stateAccess_rename (hρ : ∀ vreg, ρ vreg ≠ .x 0) (code : Code) :
    (code.map (Instruction.rename ρ)).filterMap Instruction.stateAccess =
      code.filterMap Instruction.stateAccess := by
  rw [List.filterMap_map]
  congr 1
  funext inst
  exact stateAccess_rename hρ inst

end

theorem registerOffset_inj {r r' : ℕ} (hr : r < 32) (hr' : r' < 32)
    (h : registerOffset r = registerOffset r') : r = r' := by
  have hnat := congrArg BitVec.toNat h
  simp only [registerOffset, REGISTER_SIZE_BYTES, BitVec.toNat_ofNat] at hnat
  omega

theorem count_stateAccesses {instructions : List IR.Instruction}
    (hregisters : ∀ inst ∈ instructions, ∀ r, inst.kind.register = some r → r < 32) {r : ℕ}
    (hr : r < 32) :
    (instructions.flatMap fun inst => inst.kind.stateAccesses).count (.str, .x, registerOffset r) =
      (Lifter.writes instructions).count r := by
  induction instructions with
  | nil => rfl
  | cons inst rest ih =>
    obtain ⟨hinst, hrest⟩ := List.forall_mem_cons.mp hregisters
    have hone : inst.kind.stateAccesses.count (.str, .x, registerOffset r) =
        inst.kind.written.toList.count r := by
      cases hkind : inst.kind with
      | regWrite r' value =>
        have hr' : r' < 32 := hinst r' (by rw [hkind]; rfl)
        by_cases heq : r' = r
        · simp [InstructionKind.stateAccesses, InstructionKind.written, heq]
        · have hne : registerOffset r' ≠ registerOffset r := fun h => heq (registerOffset_inj hr' hr h)
          simp [InstructionKind.stateAccesses, InstructionKind.written, heq, hne]
      | _ => simp [InstructionKind.stateAccesses, InstructionKind.written]
    have hwrites : Lifter.writes (inst :: rest) = inst.kind.written.toList ++ Lifter.writes rest := by
      rw [Lifter.writes, List.filterMap_cons]
      cases inst.kind.written <;> rfl
    rw [List.flatMap_cons, List.count_append, hone, ih hrest, hwrites, List.count_append]

theorem register_of_written {kind : InstructionKind} {r : ℕ} (h : kind.written = some r) :
    kind.register = some r := by
  cases kind <;> first
    | exact h
    | cases h

theorem mem_stateAccesses {kind : InstructionKind} {access : Opcode × DataSize × BitVec 32}
    (h : access ∈ kind.stateAccesses) :
    (∃ r, kind = .regRead r ∧ access = (.ldr, .x, registerOffset r)) ∨
      access = (.ldr, .x, BitVec.ofNat 32 GUEST_MEMORY_BASE_OFFSET) ∨
      access = (.ldr, .x, BitVec.ofNat 32 SHADOW_MEMORY_OFFSET) ∨
      ∃ r, kind.written = some r ∧ access = (.str, .x, registerOffset r) := by
  cases kind with
  | regRead r =>
    rw [InstructionKind.stateAccesses, List.mem_singleton] at h
    exact .inl ⟨r, rfl, h⟩
  | regWrite r value =>
    rw [InstructionKind.stateAccesses, List.mem_singleton] at h
    exact .inr (.inr (.inr ⟨r, rfl, h⟩))
  | load | store =>
    simp only [InstructionKind.stateAccesses, List.mem_cons, List.not_mem_nil, or_false] at h
    exact h.elim (fun h => .inr (.inl h)) fun h => .inr (.inr (.inl h))
  | _ => cases h

section

variable {order : List ℕ → List ℕ} {instructions : List RiscV.Instruction}

/-- The destination of an instruction that the block writes back. -/
def WrittenBack (instructions : List RiscV.Instruction) (r : ℕ) : Prop :=
  r ≠ 0 ∧ ∃ i ∈ instructions, Lifter.isTerminator i = false ∧ Lifter.destination i = some r

/-- The final code accesses the `GuestState` through an unchanged `X0`: it loads registers and the
two bases, and stores once to each register that the block writes back. -/
theorem translated_frame (horder : ∀ rs, (order rs).Perm rs) (l : Lifter)
    (hsup : ∀ i ∈ instructions, i.Supported)
    (hlast : ∀ i ∈ instructions.dropLast, i.opcode.isControlTransfer = false)
    {block : BasicBlock} {l' : Lifter}
    (hlift : Lifter.liftBasicBlock order instructions l = .ok (block, l')) {final : Code}
    (htranslate : BinaryTranslator.translateToARM64 block = .ok final)
    {encoded : List (List (BitVec 8))} (hencode : final.mapM encodeInstruction = .ok encoded) :
    ∃ body ending, final = body ++ ending ++ selectRet ∧
      (∀ inst ∈ body, inst.target ≠ some (.physical (.x 0))) ∧ ending ≠ [] ∧
      (∀ inst ∈ ending, inst.target = some (.physical (.x 0)) ∧ inst.stateAccess = none) ∧
      (∀ access ∈ final.filterMap Instruction.stateAccess,
        (∃ r, 1 ≤ r ∧ r ≤ 31 ∧ access = (.ldr, .x, registerOffset r)) ∨
        access = (.ldr, .x, BitVec.ofNat 32 GUEST_MEMORY_BASE_OFFSET) ∨
        access = (.ldr, .x, BitVec.ofNat 32 SHADOW_MEMORY_OFFSET) ∨
        ∃ r, r ≤ 31 ∧ WrittenBack instructions r ∧ access = (.str, .x, registerOffset r)) ∧
      ∀ r, WrittenBack instructions r →
        (final.filterMap Instruction.stateAccess).count (.str, .x, registerOffset r) = 1 := by
  obtain ⟨hformed, -, -⟩ := Lifter.formed horder l hsup hlast hlift
  obtain ⟨block', l'', hlift', hblock⟩ := Lifter.liftBasicBlock_wellTyped horder l hsup hlast
  cases hlift.symm.trans hlift'
  obtain ⟨code, σ, hselect⟩ := selectInstructions_ok hblock
  obtain ⟨s, halloc, rfl⟩ := allocated_of_encoded hblock hselect htranslate hencode
  have hX0 := halloc.registerOf_ne_X0
  obtain ⟨body, ending, rfl, hbody, haccesses, hending⟩ := selectInstructions_shape hblock hselect
  have hlist : ((body ++ ending ++ selectRet).map (Instruction.rename s.registerOf)).filterMap
      Instruction.stateAccess = block.instructions.flatMap fun inst => inst.kind.stateAccesses := by
    have hnone : ending.filterMap Instruction.stateAccess = [] :=
      List.filterMap_eq_nil_iff.mpr hending.access
    rw [filterMap_stateAccess_rename hX0, List.filterMap_append, List.filterMap_append, haccesses,
      hnone]
    simp [selectRet, Instruction.stateAccess]
  rw [hlist]
  refine ⟨body.map (Instruction.rename s.registerOf), ending.map (Instruction.rename s.registerOf),
    by simp [selectRet, Instruction.rename, Operand.rename, X30], ?_, by simpa using hending.ne, ?_, ?_, ?_⟩
  · intro renamed hrenamed
    obtain ⟨inst, hmem, rfl⟩ := List.mem_map.mp hrenamed
    rw [Instruction.target_rename]
    intro heq
    obtain ⟨p, htarget, hp⟩ := Option.map_eq_some_iff.mp heq
    obtain ⟨vreg, rfl⟩ := hbody.fresh p ⟨inst, hmem, htarget⟩
    exact hX0 vreg (Place.physical.inj hp)
  · intro renamed hrenamed
    obtain ⟨inst, hmem, rfl⟩ := List.mem_map.mp hrenamed
    rw [Instruction.target_rename, hending.target inst hmem, stateAccess_rename hX0]
    exact ⟨rfl, hending.access inst hmem⟩
  · intro access hmem
    obtain ⟨inst, hinst, haccess⟩ := List.mem_flatMap.mp hmem
    have hregister := hformed.registers inst hinst
    rcases mem_stateAccesses haccess with ⟨r, hkind, rfl⟩ | h | h | ⟨r, hwritten, rfl⟩
    · obtain ⟨hpos, hle⟩ := hregister r (by rw [hkind]; rfl)
      exact .inl ⟨r, hpos, hle, rfl⟩
    · exact .inr (.inl h)
    · exact .inr (.inr (.inl h))
    · refine .inr (.inr (.inr ⟨r, (hregister r (register_of_written hwritten)).2, ?_, rfl⟩))
      exact (hformed.written r).mp (List.mem_filterMap.mpr ⟨inst, hinst, hwritten⟩)
  · intro r hr
    have hmem := (hformed.written r).mpr hr
    obtain ⟨inst, hinst, hwritten⟩ := List.mem_filterMap.mp hmem
    have hlt (inst : IR.Instruction) (hinst : inst ∈ block.instructions) (r : ℕ)
        (hr : inst.kind.register = some r) : r < 32 :=
      Nat.lt_succ_of_le (hformed.registers inst hinst r hr).2
    rw [count_stateAccesses hlt (hlt inst hinst r (register_of_written hwritten))]
    exact List.count_eq_one_of_mem hformed.writtenOnce hmem

theorem translated_frame_add :
    ∃ block l' final encoded, Lifter.liftBasicBlock id [Lifter.addThree] Lifter.init =
        .ok (block, l') ∧
      BinaryTranslator.translateToARM64 block = .ok final ∧
      final.mapM encodeInstruction = .ok encoded ∧
      (final.filterMap Instruction.stateAccess).count (.str, .x, registerOffset 3) = 1 := by
  have hsup : ∀ i ∈ [Lifter.addThree], i.Supported := by
    intro i hi
    obtain rfl := List.mem_singleton.mp hi
    exact ⟨rfl, .r (by decide) (by decide) (by decide)⟩
  obtain ⟨_, _, -, -, -, -, -, hstore⟩ := translated_frame (fun rs => List.Perm.refl (id rs))
    Lifter.init hsup (by simp) rfl rfl rfl
  exact ⟨_, _, _, _, rfl, rfl, rfl, hstore 3 ⟨by decide, _, List.mem_singleton_self _, rfl, rfl⟩⟩

end

end DinoRisc
