import DinoRisc.Arm64.Renaming
import DinoRisc.Lifter.Terminator
import DinoRisc.Lowering.Translated

/-! Which registers of the host the final code of a block changes. -/

namespace DinoRisc

open Arm64 Encoder IR InstructionSelector LivenessAnalysis RegisterAllocator

/-- The registers that a function of the host leaves as they are: `X19` to `X30` and the stack
pointer. -/
def calleeSaved : List Register := ((List.finRange 31).drop 19).map .x ++ [.xsp]

section

variable {s : RegisterAllocator} {body ending : Code} {r : Register}

theorem run_final (hbody : Body {.physical (.x 0)} body)
    (hending : Ending ({.physical (.x 0)} ∪ targets body) ending)
    (halloc : Allocates s (computeLiveIntervals (body ++ ending ++ selectRet))) (m : Machine) :
    ∃ n, Reaches ((body ++ ending).map (Instruction.rename s.registerOf)) m n ∧
      run ((body ++ ending ++ selectRet).map (Instruction.rename s.registerOf)) m =
        some (n, n.reg (.physical (.x 30))) ∧
      ∀ p, p ∉ targets ((body ++ ending).map (Instruction.rename s.registerOf)) →
        n.reg p = m.reg p := by
  have hemitted : ∀ inst ∈ (body ++ ending).map (Instruction.rename s.registerOf),
      inst.Emitted := by
    intro renamed hrenamed
    obtain ⟨inst, hmem, rfl⟩ := List.mem_map.mp hrenamed
    refine (List.forall_mem_append.mpr ⟨hbody.emitted, hending.emitted⟩ inst hmem).rename ?_
    exact fun vreg _ => halloc.registerOf_general vreg
  obtain ⟨n, hreach, hframe⟩ := reaches_of_emitted hemitted m
  refine ⟨n, hreach, ?_, hframe⟩
  rw [List.map_append, rename_ret, hreach.run]
  rfl

theorem mem_targets_final (hbody : Body {.physical (.x 0)} body)
    (hending : Ending ({.physical (.x 0)} ∪ targets body) ending)
    (halloc : Allocates s (computeLiveIntervals (body ++ ending ++ selectRet)))
    (hr : r ≠ .x 0) :
    .physical r ∈ targets ((body ++ ending).map (Instruction.rename s.registerOf)) ↔
      ∃ vreg, s.allocation vreg = some r := by
  constructor
  · rintro ⟨renamed, hrenamed, htarget⟩
    obtain ⟨inst, hmem, rfl⟩ := List.mem_map.mp hrenamed
    rw [Instruction.target_rename] at htarget
    obtain ⟨p, hp, hpr⟩ := Option.map_eq_some_iff.mp htarget
    rcases List.mem_append.mp hmem with hmem' | hmem'
    · obtain ⟨vreg, rfl⟩ := hbody.fresh p ⟨inst, hmem', hp⟩
      obtain ⟨reg, hreg⟩ := allocated hbody hending halloc inst (List.mem_append_left _ hmem) vreg
        (Instruction.mem_operands_of_target hp)
      refine ⟨vreg, ?_⟩
      rw [Place.rename, registerOf, hreg, Option.getD_some] at hpr
      rw [hreg, Place.physical.inj hpr]
    · rw [hending.target inst hmem'] at hp
      cases hp
      exact absurd (Place.physical.inj hpr).symm hr
  · rintro ⟨vreg, hvreg⟩
    obtain ⟨-, interval, hinterval, rfl⟩ := halloc.available hvreg
    obtain ⟨vreg, ⟨i, inst, hi, hdef⟩, rfl⟩ := mem_computeLiveIntervals.mp hinterval
    rcases List.mem_append.mp (List.mem_of_getElem? hi) with hmem | hmem
    · have htarget := (defined_iff
        (List.forall_mem_append.mpr ⟨hbody.emitted, hending.emitted⟩ inst hmem)).mp hdef
      refine ⟨inst.rename s.registerOf, List.mem_map_of_mem hmem, ?_⟩
      rw [Instruction.target_rename, htarget, Option.map_some, Place.rename, registerOf]
      have hallocated : s.allocation vreg = some r := hvreg
      rw [hallocated, Option.getD_some]
    · obtain rfl := List.mem_singleton.mp hmem
      cases hdef

/-- The code keeps the value of a register, from every initial state, if and only if the allocator
has not used it. -/
theorem preserved_iff (hbody : Body {.physical (.x 0)} body)
    (hending : Ending ({.physical (.x 0)} ∪ targets body) ending)
    (halloc : Allocates s (computeLiveIntervals (body ++ ending ++ selectRet))) (hr : r ≠ .x 0) :
    (∀ m n target, run ((body ++ ending ++ selectRet).map (Instruction.rename s.registerOf)) m =
        some (n, target) → n.reg (.physical r) = m.reg (.physical r)) ↔
      ¬ ∃ vreg, s.allocation vreg = some r := by
  rw [← mem_targets_final hbody hending halloc hr]
  constructor
  · intro hkeep hmem
    obtain ⟨n, hreach, -⟩ := run_final hbody hending halloc
      ⟨fun _ => 0#64, ⟨false, false, false, false⟩, fun _ => 0#8⟩
    have hclosed := ((hbody.closed.append hending.closed).rename s.registerOf)
    rw [Set.image_singleton] at hclosed
    have hX0 : .physical r ∉ ({Place.rename s.registerOf (.physical (.x 0))} : Set Place) := by
      rintro heq
      cases heq
      exact hr rfl
    -- whatever the register holds at first, it ends with the same value
    obtain ⟨n', hreach', heq⟩ := reaches_independent rfl hclosed hX0 hmem hreach
      (n.reg (.physical r) + 1#64)
    have hrun := hreach'.run selectRet
    rw [← rename_ret s.registerOf, ← List.map_append] at hrun
    have hsame := hkeep _ _ _ hrun
    rw [heq, Machine.set_reg_self] at hsame
    exact absurd hsame (by simp)
  · rintro hnot m n target hrun
    obtain ⟨n', -, hrun', hframe⟩ := run_final hbody hending halloc m
    cases hrun.symm.trans hrun'
    exact hframe _ hnot

theorem mem_calleeSaved : ∀ n : Fin 31, 19 ≤ n.val → .x n ∈ calleeSaved := by decide

theorem calleeSaved_available : ∀ r ∈ calleeSaved, r ∈ availableRegisters →
    r ∈ availableRegisters.drop 18 := by decide

theorem drop_calleeSaved : ∀ r ∈ availableRegisters.drop 18, r ∈ calleeSaved ∧ r ≠ .x 0 := by
  decide

/-- With fewer than 18 others live, no register that the host expects back is written. -/
theorem calleeSaved_not_mem (hbody : Body {.physical (.x 0)} body)
    (hending : Ending ({.physical (.x 0)} ∪ targets body) ending)
    (halloc : Allocates s (computeLiveIntervals (body ++ ending ++ selectRet)))
    (hpressure : ∀ interval ∈ computeLiveIntervals (body ++ ending ++ selectRet),
      pressure (computeLiveIntervals (body ++ ending ++ selectRet)) interval.start < 18) :
    ∀ r ∈ calleeSaved,
      .physical r ∉ targets ((body ++ ending).map (Instruction.rename s.registerOf)) := by
  intro r hr
  have hne : r ≠ .x 0 := by
    rintro rfl
    exact absurd hr (by decide)
  rw [mem_targets_final hbody hending halloc hne]
  rintro ⟨vreg, hvreg⟩
  have hdrop := calleeSaved_available r hr (halloc.available hvreg).1
  obtain ⟨interval, hmem, hle⟩ := (halloc.used 18).mp ⟨vreg, r, hvreg, hdrop⟩
  exact absurd (hpressure interval hmem) (not_lt.mpr hle)

variable {order : List ℕ → List ℕ} {instructions : List RiscV.Instruction}

/-- The final code keeps the registers that the host expects back if and only if at the definition
of each virtual register fewer than 18 others are live. -/
theorem translated_calleeSaved_iff (horder : ∀ rs, (order rs).Perm rs) (l : Lifter)
    (hsup : ∀ i ∈ instructions, i.Supported)
    (hlast : ∀ i ∈ instructions.dropLast, i.opcode.isControlTransfer = false)
    {block : BasicBlock} {l' : Lifter}
    (hlift : Lifter.liftBasicBlock order instructions l = .ok (block, l')) {final : Code}
    (htranslate : BinaryTranslator.translateToARM64 block = .ok final)
    {encoded : List (List (BitVec 8))} (hencode : final.mapM encodeInstruction = .ok encoded) :
    ∃ code σ, InstructionSelector.init.selectInstructions block = .ok (code, σ) ∧
      ((∀ m, ∃ n target, run final m = some (n, target) ∧
          ∀ r ∈ calleeSaved, n.reg (.physical r) = m.reg (.physical r)) ↔
        ∀ interval ∈ computeLiveIntervals code,
          pressure (computeLiveIntervals code) interval.start < 18) := by
  obtain ⟨block', l'', hlift', hblock⟩ := Lifter.liftBasicBlock_wellTyped horder l hsup hlast
  cases hlift.symm.trans hlift'
  obtain ⟨code, σ, hselect⟩ := selectInstructions_ok hblock
  refine ⟨code, σ, hselect, ?_⟩
  obtain ⟨s, halloc, rfl⟩ := allocated_of_encoded hblock hselect htranslate hencode
  obtain ⟨body, ending, rfl, hbody, -, hending⟩ := selectInstructions_shape hblock hselect
  constructor
  · intro hkeep
    by_contra hle
    simp only [not_forall, not_lt, exists_prop] at hle
    obtain ⟨vreg, r, hvreg, hr⟩ := (halloc.used 18).mpr hle
    obtain ⟨hsaved, hne⟩ := drop_calleeSaved r hr
    refine (preserved_iff hbody hending halloc hne).mp ?_ ⟨vreg, hvreg⟩
    intro m n target hrun
    obtain ⟨n', target', hrun', hsame⟩ := hkeep m
    cases hrun.symm.trans hrun'
    exact hsame r hsaved
  · intro hpressure m
    obtain ⟨n, -, hrun, hkeep⟩ := run_final hbody hending halloc m
    exact ⟨n, _, hrun, fun r hr =>
      hkeep _ (calleeSaved_not_mem hbody hending halloc hpressure r hr)⟩

def ones (k : ℕ) : List RiscV.Instruction := (List.range k).map fun i =>
  ⟨.addi, [.register (i + 1), .register 0, .immediate 1#64], 0#32, 0x1000#64 + BitVec.ofNat 64 (4 * i)⟩

theorem ones_supported {k : ℕ} (hk : k ≤ 31) : ∀ i ∈ ones k, i.Supported := by
  intro i hi
  obtain ⟨n, hn, rfl⟩ := List.mem_map.mp hi
  have hlt := List.mem_range.mp hn
  exact ⟨rfl, .i (by omega) (by decide) 1#12⟩

theorem ones_dropLast (k : ℕ) : ∀ i ∈ (ones k).dropLast, i.opcode.isControlTransfer = false := by
  intro i hi
  obtain ⟨n, -, rfl⟩ := List.mem_map.mp (List.dropLast_subset _ hi)
  rfl

def finalX19 (instructions : List RiscV.Instruction) : Except Error (Option (BitVec 64)) := do
  let (block, _) ← Lifter.liftBasicBlock id instructions Lifter.init
  let final ← BinaryTranslator.translateToARM64 block
  let _ ← final.mapM encodeInstruction
  return (run final ⟨fun _ => 0#64, ⟨false, false, false, false⟩, fun _ => 0#8⟩).map
    fun (r : Machine × BitVec 64) => r.1.reg (.physical (.x 19))

theorem finalX19_eq_some {value : BitVec 64} (h : finalX19 instructions = .ok (some value)) :
    ∃ block l' final encoded, Lifter.liftBasicBlock id instructions Lifter.init = .ok (block, l') ∧
      BinaryTranslator.translateToARM64 block = .ok final ∧
      final.mapM encodeInstruction = .ok encoded ∧
      ∃ n target, run final ⟨fun _ => 0#64, ⟨false, false, false, false⟩, fun _ => 0#8⟩ =
          some (n, target) ∧ n.reg (.physical (.x 19)) = value := by
  simp only [finalX19, bind, Except.bind] at h
  cases hlift : Lifter.liftBasicBlock id instructions Lifter.init with
  | error e => simp [hlift] at h
  | ok lifted =>
    cases htranslate : BinaryTranslator.translateToARM64 lifted.1 with
    | error e => simp [hlift, htranslate] at h
    | ok final =>
      cases hencode : final.mapM encodeInstruction with
      | error e => simp [hlift, htranslate, hencode] at h
      | ok encoded =>
        simp only [hlift, htranslate, hencode, pure, Except.pure, Except.ok.injEq,
          Option.map_eq_some_iff] at h
        obtain ⟨⟨n, target⟩, hrun, hvalue⟩ := h
        exact ⟨_, _, final, encoded, rfl, htranslate, hencode, n, target, hrun, hvalue⟩

theorem translated_calleeSaved_iff_ones :
    ∃ block l' final encoded code σ, Lifter.liftBasicBlock id (ones 16) Lifter.init = .ok (block, l') ∧
      BinaryTranslator.translateToARM64 block = .ok final ∧
      final.mapM encodeInstruction = .ok encoded ∧
      InstructionSelector.init.selectInstructions block = .ok (code, σ) ∧
      ((∀ m, ∃ n target, run final m = some (n, target) ∧
          ∀ r ∈ calleeSaved, n.reg (.physical r) = m.reg (.physical r)) ↔
        ∀ interval ∈ computeLiveIntervals code,
          pressure (computeLiveIntervals code) interval.start < 18) := by
  have hX19 : finalX19 (ones 16) = .ok (some 0#64) := by decide +kernel
  obtain ⟨block, l', final, encoded, hlift, htranslate, hencode, -⟩ := finalX19_eq_some hX19
  obtain ⟨code, σ, hselect, hiff⟩ := translated_calleeSaved_iff (fun rs => List.Perm.refl (id rs))
    Lifter.init (ones_supported (by decide : 16 ≤ 31)) (ones_dropLast 16) hlift htranslate hencode
  exact ⟨block, l', final, encoded, code, σ, hlift, htranslate, hencode, hselect, hiff⟩

/-- Seventeen registers that are written are enough to overwrite `X19`. -/
theorem translated_ones : ∃ block l' final encoded,
    Lifter.liftBasicBlock id (ones 17) Lifter.init = .ok (block, l') ∧
      BinaryTranslator.translateToARM64 block = .ok final ∧
      final.mapM encodeInstruction = .ok encoded ∧ .x 19 ∈ calleeSaved ∧
      ∃ n target, run final ⟨fun _ => 0#64, ⟨false, false, false, false⟩, fun _ => 0#8⟩ =
          some (n, target) ∧ n.reg (.physical (.x 19)) = 1#64 := by
  have hX19 : finalX19 (ones 17) = .ok (some 1#64) := by decide +kernel
  obtain ⟨block, l', final, encoded, hlift, htranslate, hencode, hrun⟩ := finalX19_eq_some hX19
  exact ⟨block, l', final, encoded, hlift, htranslate, hencode, by decide, hrun⟩

end

end DinoRisc
