import DinoRisc.Lifter.Terminator
import DinoRisc.Lowering.AllocationSound
import DinoRisc.Lowering.BranchTemps

/-! The translation of supported instructions fails only for want of registers. -/

namespace DinoRisc

open Arm64 IR InstructionSelector LivenessAnalysis RegisterAllocator

namespace InstructionSelector

theorem constantId_le (instructions : List IR.Instruction) :
    constantId instructions ≤ instructions.length + 3 * instructions.countP isAccess :=
  Nat.add_le_add_right
    ((valueIds instructions).dedup_sublist.length_le.trans (List.length_filterMap_le _ _)) _

/-- What is evaluated without a valid access makes none. -/
theorem countP_isAccess_of_eval {instructions : List IR.Instruction} {s s' : EvalState}
    (h : evalInstructions (fun _ _ => false) instructions s = some s') :
    instructions.countP isAccess = 0 := by
  induction instructions generalizing s with
  | nil => rfl
  | cons inst rest ih =>
    obtain ⟨s₁, hstep, h⟩ := Option.bind_eq_some_iff.mp h
    have hinst : ¬ isAccess inst = true := by
      obtain ⟨id, kind⟩ := inst
      cases kind <;> simp_all [isAccess, evalInstruction, Option.bind_eq_some_iff]
    rw [List.countP_cons_of_neg hinst, ih h]

end InstructionSelector

namespace LivenessAnalysis

variable {code : Code} {n : ℕ}

theorem computeLiveIntervals_length (h : ∀ i vreg, Defines code i vreg → vreg < n) :
    (computeLiveIntervals code).length ≤ n := by
  have hsubset : (computeUseDef code).defined ⊆ List.range n := by
    intro vreg hvreg
    obtain ⟨i, hi⟩ := mem_defined.mp hvreg
    exact List.mem_range.mpr (h i vreg hi)
  have hlength := ((defined_nodup code).subperm hsubset).length_le
  rw [List.length_range] at hlength
  rwa [computeLiveIntervals, List.length_insertionSort, List.length_map]

theorem pressure_lt_length {intervals : List LiveInterval} {interval : LiveInterval}
    (h : interval ∈ intervals) : pressure intervals interval.start < intervals.length := by
  refine lt_of_le_of_ne List.countP_le_length fun heq => ?_
  have hall := List.countP_eq_length.mp heq interval h
  simp at hall

theorem pressure_of_few {block : BasicBlock} {σ : InstructionSelector} (hblock : block.WellTyped)
    (hbranch : ∀ c t f, block.terminator ≠ .condBranch c t f)
    (hselect : InstructionSelector.init.selectInstructions block = .ok (code, σ))
    {interval : LiveInterval} (hmem : interval ∈ computeLiveIntervals code) :
    pressure (computeLiveIntervals code) interval.start < constantId block.instructions := by
  refine (pressure_lt_length hmem).trans_le (computeLiveIntervals_length fun i vreg hi => ?_)
  obtain ⟨body, ending, heq, hbody, -, hending⟩ := selectInstructions_shape hblock hselect
  obtain ⟨code₁, σ₁, code₂, hok₁, hok₂, rfl⟩ := selectInstructions_eq_ok.mp hselect
  obtain ⟨Γ, hinsts, -⟩ := hblock
  obtain ⟨hselects, -⟩ := selectAll_selects .init hinsts hok₁
  rw [heq, defines_selectRet] at hi
  obtain ⟨inst, hinst, htarget⟩ := target_of_defines
    (List.forall_mem_append.mpr ⟨hbody.emitted, hending.emitted⟩) hi
  have hmem : inst ∈ code₁ ++ code₂ := by
    rw [heq]
    exact List.mem_append_left _ (List.mem_of_getElem? hinst)
  rcases List.mem_append.mp hmem with hmem | hmem
  · obtain ⟨v, hv, -, hlt⟩ := hselects.fresh _ ⟨inst, hmem, htarget⟩
    cases hv
    have hnext := (Allocated.init.all hok₁).next
    rw [List.nil_append, List.nil_append, length_allAddressTemps hok₁] at hnext
    exact hlt.trans_eq hnext
  · exact absurd ⟨inst, hmem, htarget⟩ (selectTerminator_targets hbranch hok₂ vreg)

end LivenessAnalysis

namespace BinaryTranslator

variable {data : List (BitVec 8)} {os : List ℕ} {pc : BitVec 64} {t : BinaryTranslator}
  {instructions : List RiscV.Instruction} {order : List ℕ → List ℕ}

/-- Only the last instruction of a decoded block can transfer control. -/
theorem decodeBlock_ok (h : decodeBlock data os pc = .ok instructions) :
    (∀ i ∈ instructions.dropLast, Lifter.isTerminator i = false) ∧ (os ≠ [] → instructions ≠ []) := by
  induction os generalizing pc instructions with
  | nil =>
    cases h
    simp
  | cons offset rest ih =>
    simp only [decodeBlock, bind, Except.bind, pure, Except.pure] at h
    cases hdecode : RiscV.Decoder.decode data offset pc with
    | error e =>
      rw [hdecode] at h
      cases h
    | ok inst =>
      rw [hdecode] at h
      dsimp only at h
      cases hvalid : inst.isValid with
      | false =>
        rw [hvalid] at h
        cases h
      | true =>
        simp only [hvalid, Bool.not_true, Bool.false_eq_true, if_false] at h
        cases hterm : Lifter.isTerminator inst with
        | true =>
          simp only [hterm, if_true] at h
          cases h
          simp
        | false =>
          simp only [hterm, Bool.false_eq_true, if_false] at h
          cases hrest : decodeBlock data rest (pc + 4#64) with
          | error e =>
            rw [hrest] at h
            cases h
          | ok blockInstructions =>
            rw [hrest] at h
            cases h
            refine ⟨?_, fun _ => List.cons_ne_nil _ _⟩
            intro i hi
            cases blockInstructions with
            | nil => cases hi
            | cons next others =>
              rw [List.dropLast_cons_cons, List.mem_cons] at hi
              rcases hi with rfl | hi
              · exact hterm
              · exact (ih hrest).1 i hi

theorem offsets_ne_nil (hpc : t.isValidPC pc = true) :
    offsets (pc - t.textBaseAddress).toNat t.textSectionData.length ≠ [] := by
  simp only [isValidPC, ge_iff_le, Bool.and_eq_true, decide_eq_true_eq, BitVec.le_def,
    BitVec.lt_def, BitVec.toNat_add, BitVec.toNat_ofNat] at hpc
  obtain ⟨hlow, hhigh⟩ := hpc
  have hsub : (pc - t.textBaseAddress).toNat = pc.toNat - t.textBaseAddress.toNat :=
    BitVec.toNat_sub_of_le hlow
  have hlt : (pc - t.textBaseAddress).toNat < t.textSectionData.length := by
    have hmod := Nat.mod_le (t.textBaseAddress.toNat + t.textSectionData.length % 2 ^ 64) (2 ^ 64)
    have hsize := Nat.mod_le t.textSectionData.length (2 ^ 64)
    omega
  rw [offsets, ne_eq, List.range'_eq_nil_iff]
  omega

theorem translateBlock_eq {block : BasicBlock} {l : Lifter} {final : Code}
    (hpc : t.isValidPC pc = true)
    (hdecode : decodeBlock t.textSectionData
      (offsets (pc - t.textBaseAddress).toNat t.textSectionData.length) pc = .ok instructions)
    (hlift : Lifter.init.liftBasicBlock order instructions = .ok (block, l))
    (htranslate : translateToARM64 block = .ok final) : t.translateBlock order pc =
      (final.mapM Encoder.encodeInstruction).bind fun encoded =>
        if encoded.flatten.isEmpty then .error (.encoding "Failed to encode machine code")
        else .ok encoded.flatten := by
  have hempty : instructions.isEmpty = false := by
    simpa using (decodeBlock_ok hdecode).2 (offsets_ne_nil hpc)
  simp only [translateBlock, hpc, hdecode, hempty, hlift, htranslate, bind, Except.bind]
  cases final.mapM Encoder.encodeInstruction with
  | error e => rfl
  | ok encoded => cases hflat : encoded.flatten.isEmpty <;> simp [hflat] <;> rfl

/-- Lifting and selection go through, and so does the rest if and only if at the definition of each
register fewer than 28 others are live; otherwise the encoder fails. -/
theorem translateBlock_ok_iff (horder : ∀ rs, (order rs).Perm rs) (hpc : t.isValidPC pc = true)
    (hdecode : decodeBlock t.textSectionData
      (offsets (pc - t.textBaseAddress).toNat t.textSectionData.length) pc = .ok instructions)
    (hsup : ∀ i ∈ instructions, i.Supported) :
    ∃ block l code σ, Lifter.init.liftBasicBlock order instructions = .ok (block, l) ∧
      InstructionSelector.init.selectInstructions block = .ok (code, σ) ∧
      ((∃ machineCode, t.translateBlock order pc = .ok machineCode) ↔
        ∀ interval ∈ computeLiveIntervals code,
          pressure (computeLiveIntervals code) interval.start < 28) ∧
      ∀ e, t.translateBlock order pc = .error e → ∃ message, e = .encoding message := by
  obtain ⟨hlast, -⟩ := decodeBlock_ok hdecode
  have htransfer : ∀ i ∈ instructions.dropLast, i.opcode.isControlTransfer = false := by
    intro i hi
    rw [← Lifter.isTerminator_eq]
    exact hlast i hi
  obtain ⟨block, l, hlift, hblock⟩ :=
    Lifter.liftBasicBlock_wellTyped horder Lifter.init hsup htransfer
  obtain ⟨code, σ, hselect⟩ := selectInstructions_ok hblock
  refine ⟨block, l, code, σ, hlift, hselect, ?_⟩
  rcases translateToARM64_cases hblock hselect with
    ⟨hpressure, s, encoded, -, -, htranslate, hencode, hcode⟩ |
    ⟨⟨interval, hmem, hle⟩, htranslate, message, hencode⟩
  · have hok : t.translateBlock order pc = .ok encoded.flatten := by
      rw [translateBlock_eq hpc hdecode hlift htranslate, hencode]
      simp [Except.bind, hcode]
    rw [hok]
    exact ⟨⟨fun _ => hpressure, fun _ => ⟨_, rfl⟩⟩, fun e he => by cases he⟩
  · have herror : t.translateBlock order pc = .error (.encoding message) := by
      rw [translateBlock_eq hpc hdecode hlift htranslate, hencode]
      rfl
    rw [herror]
    refine ⟨⟨?_, fun h => absurd (h interval hmem) (not_lt.mpr hle)⟩, ?_⟩
    · rintro ⟨machineCode, hok⟩
      cases hok
    · rintro e he
      cases he
      exact ⟨message, rfl⟩

def translatorOf (text : List (BitVec 8)) : BinaryTranslator where
  textSectionData := text
  textBaseAddress := 0x1000#64
  guestState := 0#64
  host := ⟨fun _ => 0#64, 0#64, ⟨false, false, false, false⟩, fun _ => 0#8⟩
  mappings := fun _ => .executable

/-- `addi x1, x0, 1`, `addi x2, x0, 1`, and so on. -/
def crowded (n : ℕ) : List RiscV.Instruction := (List.range n).map fun i =>
  ⟨.addi, [.register (i + 1), .register 0, .immediate 1#64],
    0x00100013#32 ||| (BitVec.ofNat 32 (i + 1) <<< 7), 0x1000#64 + BitVec.ofNat 64 (4 * i)⟩

def crowdedText (n : ℕ) : List (BitVec 8) :=
  (crowded n).flatMap fun inst => RiscV.Encoding.littleEndian inst.rawInstruction

theorem crowded_supported {n : ℕ} (hn : n ≤ 31) : ∀ i ∈ crowded n, i.Supported := by
  intro inst hinst
  obtain ⟨i, hi, rfl⟩ := List.mem_map.mp hinst
  have hlt := List.mem_range.mp hi
  exact ⟨rfl, .i (by omega) (by decide) 1#12⟩

/-- As many results as the registers hold. -/
theorem translateBlock_ok_iff_crowded :
    ∃ block l code σ, Lifter.init.liftBasicBlock id (crowded 26) = .ok (block, l) ∧
      InstructionSelector.init.selectInstructions block = .ok (code, σ) ∧
      (∃ machineCode, (translatorOf (crowdedText 26)).translateBlock id 0x1000#64 =
          .ok machineCode) ∧
      (∀ interval ∈ computeLiveIntervals code,
          pressure (computeLiveIntervals code) interval.start < 28) ∧
      ∀ e, (translatorOf (crowdedText 26)).translateBlock id 0x1000#64 = .error e →
        ∃ message, e = .encoding message := by
  have hdecode : decodeBlock (crowdedText 26) (offsets 0 (crowdedText 26).length) 0x1000#64 =
      .ok (crowded 26) := by decide +kernel
  have hpc : (translatorOf (crowdedText 26)).isValidPC 0x1000#64 = true := by decide +kernel
  obtain ⟨block, l, code, σ, hlift, hselect, hiff, herror⟩ := translateBlock_ok_iff
    (fun rs => List.Perm.refl (id rs)) hpc hdecode (crowded_supported (by decide))
  have hsome : ((translatorOf (crowdedText 26)).translateBlock id 0x1000#64).toOption.isSome =
      true := by decide +kernel
  have hok : ∃ machineCode, (translatorOf (crowdedText 26)).translateBlock id 0x1000#64 =
      .ok machineCode := by
    cases hresult : (translatorOf (crowdedText 26)).translateBlock id 0x1000#64 with
    | error e =>
      rw [hresult] at hsome
      cases hsome
    | ok machineCode => exact ⟨machineCode, rfl⟩
  exact ⟨block, l, code, σ, hlift, hselect, hok, hiff.mp hok, herror⟩

/-- A block of supported instructions that is not translated. -/
theorem translateBlock_crowded :
    (∃ instructions, decodeBlock (crowdedText 28) (offsets 0 (crowdedText 28).length) 0x1000#64 =
        .ok instructions ∧ ∀ i ∈ instructions, i.Supported) ∧
      (translatorOf (crowdedText 28)).translateBlock id 0x1000#64 = .error (.encoding
        "Cannot encode virtual register - register allocation required") := by
  constructor
  · exact ⟨crowded 28, by decide +kernel, crowded_supported (by decide)⟩
  · decide +kernel

end BinaryTranslator

end DinoRisc
