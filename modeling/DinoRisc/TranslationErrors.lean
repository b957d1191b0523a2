import DinoRisc.Fetch
import DinoRisc.Lifter.Formed
import DinoRisc.Lowering.Capacity

/-! When the translation of a block fails, for any text section and any program counter. -/

namespace DinoRisc

open RiscV RiscV.Encoding IR LivenessAnalysis RegisterAllocator

namespace RiscV.Decoder

variable {data : List (BitVec 8)} {offset : ℕ} {pc : BitVec 64} {e : Error} {inst : Instruction}

theorem littleEndian_append (b0 b1 b2 b3 : BitVec 8) :
    littleEndian (b3 ++ b2 ++ b1 ++ b0) = [b0, b1, b2, b3] := by
  simp only [littleEndian, List.cons.injEq, and_true]
  refine ⟨?_, ?_, ?_, ?_⟩ <;>
  · ext i hi
    simp [BitVec.getElem_extractLsb']
    grind

theorem exists_holds (h : offset + 4 ≤ data.length) : ∃ w, Holds data offset w := by
  obtain ⟨b0, b1, b2, b3, rest, hdrop⟩ : ∃ b0 b1 b2 b3 rest,
      data.drop offset = b0 :: b1 :: b2 :: b3 :: rest := by
    have hlength : 4 ≤ (data.drop offset).length := by
      rw [List.length_drop]
      omega
    generalize data.drop offset = bytes at hlength
    rcases bytes with _ | ⟨b0, _ | ⟨b1, _ | ⟨b2, _ | ⟨b3, rest⟩⟩⟩⟩
    · simp at hlength
    · simp at hlength
    · simp at hlength
    · simp at hlength
    · exact ⟨b0, b1, b2, b3, rest, rfl⟩
  refine ⟨b3 ++ b2 ++ b1 ++ b0, ?_⟩
  rw [Holds, littleEndian_append, hdrop]
  exact ⟨rest, rfl⟩

theorem decodeWord_error {w : BitVec 32} :
    decodeWord w pc = .error e ↔ determineOpcode (extractFields w) = .error e := by
  rw [decodeWord]
  cases hop : determineOpcode (extractFields w) with
  | error e' => simp [bind, Except.bind]
  | ok op =>
    obtain ⟨operands, hops⟩ := extractOperands_ok (extractFields w) w (determineOpcode_ne_invalid hop)
    simp only [bind, Except.bind, hops]
    constructor
    all_goals
      intro h
      cases h

/-- A fetch fails outside the text, and at a word that no format fits. -/
theorem decode_error : decode data offset pc = .error e ↔
    data.length < offset + 4 ∧ e = .outOfBounds ∨
      ∃ w, Holds data offset w ∧ determineOpcode (extractFields w) = .error e := by
  by_cases hout : data.length < offset + 4
  · have hnone (w : BitVec 32) : ¬ Holds data offset w := fun hw => by
      have hle := hw.length_le
      rw [List.length_drop] at hle
      have hfour : (littleEndian w).length = 4 := rfl
      omega
    rw [BinaryTranslator.decode_outside hout]
    simp [hout, hnone, eq_comm]
  · obtain ⟨w, hw⟩ := exists_holds (Nat.not_lt.mp hout)
    rw [decode_holds hw, decodeWord_error]
    constructor
    · intro h
      exact .inr ⟨w, hw, h⟩
    · rintro (⟨h, -⟩ | ⟨w', hw', h⟩)
      · exact absurd h hout
      · have hread := (readInstruction_holds hw).symm.trans (readInstruction_holds hw')
        rwa [Except.ok.inj hread]

theorem decode_isValid (h : decode data offset pc = .ok inst) : inst.isValid = true := by
  obtain ⟨raw, -, h⟩ := bind_eq_ok.mp h
  obtain ⟨op, hop, h⟩ := bind_eq_ok.mp h
  obtain ⟨operands, -, h⟩ := bind_eq_ok.mp h
  cases h
  simpa [Instruction.isValid] using determineOpcode_ne_invalid hop

theorem decode_shaped (h : decode data offset pc = .ok inst) :
    Shaped inst.opcode.format inst.operands := by
  by_cases hout : data.length < offset + 4
  · rw [BinaryTranslator.decode_outside hout] at h
    cases h
  · obtain ⟨w, hw⟩ := exists_holds (Nat.not_lt.mp hout)
    rw [decode_holds hw] at h
    rw [(decodeWord_operands h).1]
    exact Format.operands_shaped w _

end RiscV.Decoder

namespace BinaryTranslator

variable {data : List (BitVec 8)} {offset count : ℕ} {pc : BitVec 64} {e : Error}
  {os : List ℕ} {instructions : List RiscV.Instruction}

theorem decodeBlock_cons {rest : List ℕ} {inst : RiscV.Instruction}
    (h : Decoder.decode data offset pc = .ok inst) : decodeBlock data (offset :: rest) pc =
      if Lifter.isTerminator inst then .ok [inst]
      else (decodeBlock data rest (pc + 4#64)).map (inst :: ·) := by
  simp only [decodeBlock, h, bind, Except.bind, Decoder.decode_isValid h, Bool.not_true,
    Bool.false_eq_true, if_false]
  split
  · rfl
  · cases decodeBlock data rest (pc + 4#64) <;> rfl

theorem decodeBlock_error_cons {rest : List ℕ} : decodeBlock data (offset :: rest) pc = .error e ↔
    Decoder.decode data offset pc = .error e ∨
      endsBlock data offset pc = false ∧ decodeBlock data rest (pc + 4#64) = .error e := by
  cases hdecode : Decoder.decode data offset pc with
  | error e' => simp [decodeBlock, endsBlock, hdecode, bind, Except.bind]
  | ok inst =>
    rw [decodeBlock_cons hdecode]
    cases hterm : Lifter.isTerminator inst <;>
      cases decodeBlock data rest (pc + 4#64) <;>
        simp [endsBlock, hdecode, hterm, Decoder.decode_isValid hdecode, Except.map]

/-- The block fails with the error of the first fetch that fails. -/
theorem decodeBlock_error : decodeBlock data (List.range' offset count 4) pc = .error e ↔
    ∃ k < count, (∀ j < k, endsBlock data (offset + 4 * j) (pcAt pc j) = false) ∧
      Decoder.decode data (offset + 4 * k) (pcAt pc k) = .error e := by
  induction count generalizing offset pc with
  | zero => simp [decodeBlock]
  | succ count ih =>
    have hzero : pcAt pc 0 = pc := by simp [pcAt]
    have hshift (j : ℕ) : offset + 4 * (j + 1) = offset + 4 + 4 * j := by ring
    rw [List.range'_succ, decodeBlock_error_cons, ih]
    constructor
    · rintro (herror | ⟨hends, k, hk, hrun, herror⟩)
      · exact ⟨0, Nat.succ_pos _, by simp, by rwa [hzero]⟩
      · refine ⟨k + 1, Nat.succ_lt_succ hk, fun j hj => ?_, by rwa [hshift, ← pcAt_succ]⟩
        cases j with
        | zero => rwa [hzero]
        | succ j =>
          rw [hshift, ← pcAt_succ]
          exact hrun j (Nat.lt_of_succ_lt_succ hj)
    · rintro ⟨k, hk, hrun, herror⟩
      cases k with
      | zero => exact .inl (by rwa [hzero] at herror)
      | succ k =>
        have hends := hrun 0 (Nat.succ_pos k)
        rw [hzero] at hends
        refine .inr ⟨hends, k, Nat.lt_of_succ_lt_succ hk, fun j hj => ?_, by rwa [pcAt_succ, ← hshift]⟩
        rw [pcAt_succ, ← hshift]
        exact hrun (j + 1) (Nat.succ_lt_succ hj)

theorem decodeBlock_shaped (h : decodeBlock data os pc = .ok instructions) :
    ∀ i ∈ instructions, Shaped i.opcode.format i.operands := by
  induction os generalizing pc instructions with
  | nil =>
    cases h
    simp
  | cons offset rest ih =>
    cases hdecode : Decoder.decode data offset pc with
    | error e =>
      simp only [decodeBlock, hdecode, bind, Except.bind] at h
      cases h
    | ok inst =>
      rw [decodeBlock_cons hdecode] at h
      have hinst := Decoder.decode_shaped hdecode
      split at h
      · cases h
        simpa using hinst
      · cases hrest : decodeBlock data rest (pc + 4#64) with
        | error e =>
          rw [hrest] at h
          cases h
        | ok tail =>
          rw [hrest] at h
          cases h
          exact List.forall_mem_cons.mpr ⟨hinst, ih hrest⟩

end BinaryTranslator

namespace Lifter

variable {order : List ℕ → List ℕ} {before after : List RiscV.Instruction} {inst : RiscV.Instruction}

theorem liftSingleInstruction_unsupported (h : inst.opcode.isSupported = false) (l : Lifter) :
    l.liftSingleInstruction inst = .error (unsupported inst) := by
  obtain ⟨op, operands, raw, address⟩ := inst
  cases op <;> first
    | rfl
    | cases h

theorem liftBasicBlock_unsupported (order : List ℕ → List ℕ) (hbefore : ∀ i ∈ before, Liftable i)
    (h : inst.opcode.isSupported = false) (after : List RiscV.Instruction) (l : Lifter) :
    l.liftBasicBlock order (before ++ inst :: after) = .error (unsupported inst) := by
  have hterm : isTerminator inst = false := by
    rw [isTerminator_eq]
    simp only [Opcode.isSupported, Bool.or_eq_false_iff] at h
    exact h.2
  obtain ⟨l', heq, -, -, -⟩ := liftInstructions_coherent order hbefore (coherent_cleared l)
  rw [liftBasicBlock_eq, heq, liftInstructions_cons hterm, liftSingleInstruction_unsupported h]
  rfl

end Lifter

namespace BinaryTranslator

open Arm64.Encoder InstructionSelector

theorem mapM_encodeInstruction_unallocated {block : BasicBlock} {code : Code}
    {σ : InstructionSelector} {e : Error} (hblock : block.WellTyped)
    (hselect : init.selectInstructions block = .ok (code, σ))
    (h : code.mapM encodeInstruction = .error e) : e = unallocated := by
  obtain ⟨inst, hmem, herror⟩ := mapM_error h
  obtain ⟨body, ending, rfl, hbody, -, hending⟩ := selectInstructions_shape hblock hselect
  rcases List.mem_append.mp hmem with hmem | hmem
  · have hemitted := List.forall_mem_append.mpr ⟨hbody.emitted, hending.emitted⟩ inst hmem
    refine encodeWord_raises hemitted e ?_
    rw [encodeInstruction] at herror
    cases hword : Arm64.Encoder.encodeWord inst with
    | error e' =>
      rw [hword] at herror
      cases herror
      rfl
    | ok word =>
      rw [hword] at herror
      cases herror
  · obtain rfl := List.mem_singleton.mp hmem
    cases herror

def offsetOf (t : BinaryTranslator) (pc : BitVec 64) : ℕ := (pc - t.textBaseAddress).toNat

/-- The first `k` instructions from `pc` on are decoded and none of them ends the block. -/
def Passes (t : BinaryTranslator) (pc : BitVec 64) (k : ℕ) : Prop :=
  ∀ j < k, endsBlock t.textSectionData (t.offsetOf pc + 4 * j) (pcAt pc j) = false

/-- The instructions of the block at `pc`. -/
def Decodes (t : BinaryTranslator) (pc : BitVec 64) (instructions : List RiscV.Instruction) : Prop :=
  decodeBlock t.textSectionData (offsets (t.offsetOf pc) t.textSectionData.length) pc =
    .ok instructions

/-- The ways in which the translation of the block at `pc` fails. -/
inductive Fails (order : List ℕ → List ℕ) (t : BinaryTranslator) (pc : BitVec 64) : Error → Prop
  | bounds (hpc : t.isValidPC pc = false) :
    Fails order t pc (.runtime ("PC out of bounds: 0x" ++ hex pc.toNat))
  | fetch {k : ℕ} (hpc : t.isValidPC pc = true) (hpasses : t.Passes pc k)
    (hinside : t.offsetOf pc + 4 * k < t.textSectionData.length)
    (hout : t.textSectionData.length < t.offsetOf pc + 4 * k + 4) : Fails order t pc .outOfBounds
  | decode {k : ℕ} {w : BitVec 32} (hpc : t.isValidPC pc = true) (hpasses : t.Passes pc k)
    (hword : Decoder.Holds t.textSectionData (t.offsetOf pc + 4 * k) w)
    (hop : Decoder.determineOpcode (Decoder.extractFields w) =
      .error (Decoder.unrecognized (Decoder.extractFields w))) :
    Fails order t pc (Decoder.unrecognized (Decoder.extractFields w))
  | lift {before after : List RiscV.Instruction} {inst : RiscV.Instruction}
    (hpc : t.isValidPC pc = true) (hdecodes : t.Decodes pc (before ++ inst :: after))
    (hbefore : ∀ i ∈ before, i.opcode.isSupported = true)
    (hinst : inst.opcode.isSupported = false) : Fails order t pc (Lifter.unsupported inst)
  | allocate {instructions : List RiscV.Instruction} {block : BasicBlock} {l : Lifter} {code : Code}
    {σ : InstructionSelector} {interval : LiveInterval} (hpc : t.isValidPC pc = true)
    (hdecodes : t.Decodes pc instructions)
    (hlift : Lifter.init.liftBasicBlock order instructions = .ok (block, l))
    (hselect : init.selectInstructions block = .ok (code, σ))
    (hmem : interval ∈ computeLiveIntervals code)
    (hpressure : 28 ≤ pressure (computeLiveIntervals code) interval.start) :
    Fails order t pc unallocated

section

variable {order : List ℕ → List ℕ} {t : BinaryTranslator} {pc : BitVec 64} {e : Error}
  {instructions : List RiscV.Instruction}

theorem translateBlock_decode_error (hpc : t.isValidPC pc = true)
    (h : decodeBlock t.textSectionData (offsets (t.offsetOf pc) t.textSectionData.length) pc =
      .error e) : t.translateBlock order pc = .error e := by
  rw [offsetOf] at h
  simp only [translateBlock, hpc, h, bind, Except.bind]
  rfl

theorem translateBlock_lift_error (hpc : t.isValidPC pc = true) (hdecodes : t.Decodes pc instructions)
    (h : Lifter.init.liftBasicBlock order instructions = .error e) :
    t.translateBlock order pc = .error e := by
  have hempty : instructions.isEmpty = false := by
    simpa using (decodeBlock_ok hdecodes).2 (offsets_ne_nil hpc)
  rw [Decodes, offsetOf] at hdecodes
  simp only [translateBlock, hpc, hdecodes, hempty, h, bind, Except.bind]
  rfl

theorem decodeBlock_offsets_error :
    decodeBlock t.textSectionData (offsets (t.offsetOf pc) t.textSectionData.length) pc = .error e ↔
      ∃ k, t.offsetOf pc + 4 * k < t.textSectionData.length ∧ t.Passes pc k ∧
        Decoder.decode t.textSectionData (t.offsetOf pc + 4 * k) (pcAt pc k) = .error e := by
  have hcount (k : ℕ) : k < (t.textSectionData.length - t.offsetOf pc + 3) / 4 ↔
      t.offsetOf pc + 4 * k < t.textSectionData.length := by omega
  simp only [offsets, decodeBlock_error, hcount, Passes]

theorem Decodes.supported (h : t.Decodes pc instructions)
    (hall : ∀ i ∈ instructions, i.opcode.isSupported = true) : ∀ i ∈ instructions, i.Supported :=
  fun i hi => ⟨hall i hi, decodeBlock_shaped h i hi⟩

theorem Decodes.liftable {before after : List RiscV.Instruction} {inst : RiscV.Instruction}
    (h : t.Decodes pc (before ++ inst :: after))
    (hbefore : ∀ i ∈ before, i.opcode.isSupported = true) : ∀ i ∈ before, Lifter.Liftable i := by
  intro i hi
  have hsupported : i.Supported :=
    ⟨hbefore i hi, decodeBlock_shaped h i (List.mem_append_left _ hi)⟩
  refine .of_supported hsupported ((decodeBlock_ok h).1 i ?_)
  rw [List.dropLast_append_of_ne_nil (List.cons_ne_nil inst after)]
  exact List.mem_append_left _ hi

theorem Decodes.transfer (h : t.Decodes pc instructions) :
    ∀ i ∈ instructions.dropLast, i.opcode.isControlTransfer = false := by
  intro i hi
  rw [← Lifter.isTerminator_eq]
  exact (decodeBlock_ok h).1 i hi

theorem Decodes.wellTyped (horder : ∀ rs, (order rs).Perm rs) (h : t.Decodes pc instructions)
    {block : BasicBlock} {l : Lifter}
    (hlift : Lifter.init.liftBasicBlock order instructions = .ok (block, l)) : block.WellTyped := by
  have hsup := Lifter.supported_of_lifted (decodeBlock_shaped h) h.transfer hlift
  obtain ⟨block', l', hlift', hblock⟩ :=
    Lifter.liftBasicBlock_wellTyped horder Lifter.init hsup h.transfer
  cases hlift.symm.trans hlift'
  exact hblock

/-- A block that is lifted is translated, or crowded. -/
theorem Decodes.cases (horder : ∀ rs, (order rs).Perm rs) (hpc : t.isValidPC pc = true)
    (h : t.Decodes pc instructions) {block : BasicBlock} {l : Lifter} {code : Code}
    {σ : InstructionSelector} (hlift : Lifter.init.liftBasicBlock order instructions = .ok (block, l))
    (hselect : init.selectInstructions block = .ok (code, σ)) :
    ((∀ interval ∈ computeLiveIntervals code,
        pressure (computeLiveIntervals code) interval.start < 28) ∧
      ∃ machineCode, t.translateBlock order pc = .ok machineCode) ∨
    ((∃ interval ∈ computeLiveIntervals code,
        28 ≤ pressure (computeLiveIntervals code) interval.start) ∧
      t.translateBlock order pc = .error unallocated) := by
  have hblock := h.wellTyped horder hlift
  rcases translateToARM64_cases hblock hselect with
    ⟨hpressure, s, encoded, -, -, htranslate, hencode, hcode⟩ |
    ⟨hpressure, htranslate, message, hencode⟩
  · refine .inl ⟨hpressure, encoded.flatten, ?_⟩
    rw [translateBlock_eq hpc h hlift htranslate, hencode]
    simp [Except.bind, hcode]
  · refine .inr ⟨hpressure, ?_⟩
    rw [translateBlock_eq hpc h hlift htranslate, hencode,
      mapM_encodeInstruction_unallocated hblock hselect hencode]
    rfl

theorem Fails.error (horder : ∀ rs, (order rs).Perm rs) (h : Fails order t pc e) :
    t.translateBlock order pc = .error e := by
  cases h with
  | bounds hpc =>
    simp only [translateBlock, hpc, bind, Except.bind]
    rfl
  | fetch hpc hpasses hinside hout =>
    exact translateBlock_decode_error hpc (decodeBlock_outside_iff.mpr
      ⟨_, mem_decodeCalls.mpr ⟨_, by omega, rfl, hpasses⟩, hout⟩)
  | @decode k w hpc hpasses hword hop =>
    have hinside : t.offsetOf pc + 4 * k < t.textSectionData.length := by
      have hle := hword.length_le
      rw [List.length_drop] at hle
      have hfour : (littleEndian w).length = 4 := rfl
      omega
    exact translateBlock_decode_error hpc (decodeBlock_offsets_error.mpr
      ⟨_, hinside, hpasses, Decoder.decode_error.mpr (.inr ⟨_, hword, hop⟩)⟩)
  | lift hpc hdecodes hbefore hinst =>
    exact translateBlock_lift_error hpc hdecodes
      (Lifter.liftBasicBlock_unsupported order (hdecodes.liftable hbefore) hinst _ _)
  | @allocate _ _ _ _ _ interval hpc hdecodes hlift hselect hmem hpressure =>
    rcases hdecodes.cases horder hpc hlift hselect with ⟨hlow, -⟩ | ⟨-, herror⟩
    · exact absurd hpressure (Nat.not_le.mpr (hlow interval hmem))
    · exact herror

theorem Fails.of_error (horder : ∀ rs, (order rs).Perm rs) (h : t.translateBlock order pc = .error e) :
    Fails order t pc e := by
  suffices hcases : (∃ e', Fails order t pc e') ∨
      ∃ machineCode, t.translateBlock order pc = .ok machineCode by
    obtain ⟨e', hfails⟩ | ⟨machineCode, hok⟩ := hcases
    · cases h.symm.trans (hfails.error horder)
      exact hfails
    · cases h.symm.trans hok
  cases hpc : t.isValidPC pc with
  | false => exact .inl ⟨_, .bounds hpc⟩
  | true =>
    cases hdecodes : decodeBlock t.textSectionData
        (offsets (t.offsetOf pc) t.textSectionData.length) pc with
    | error e' =>
      obtain ⟨k, hinside, hpasses, herror⟩ := decodeBlock_offsets_error.mp hdecodes
      rcases Decoder.decode_error.mp herror with ⟨hout, -⟩ | ⟨w, hword, hop⟩
      · exact .inl ⟨_, .fetch hpc hpasses hinside hout⟩
      · exact .inl ⟨_, .decode hpc hpasses hword (Decoder.determineOpcode_error hop ▸ hop)⟩
    | ok instructions =>
      replace hdecodes : t.Decodes pc instructions := hdecodes
      cases hfind : instructions.find? fun i => !i.opcode.isSupported with
      | some inst =>
        obtain ⟨hinst, before, after, rfl, hbefore⟩ := List.find?_eq_some_iff_append.mp hfind
        exact .inl ⟨_, .lift hpc hdecodes (by simpa using hbefore) (by simpa using hinst)⟩
      | none =>
        have hall : ∀ i ∈ instructions, i.opcode.isSupported = true := by
          simpa using List.find?_eq_none.mp hfind
        obtain ⟨block, l, hlift, hblock⟩ := Lifter.liftBasicBlock_wellTyped horder Lifter.init
          (hdecodes.supported hall) hdecodes.transfer
        obtain ⟨code, σ, hselect⟩ := selectInstructions_ok hblock
        rcases hdecodes.cases horder hpc hlift hselect with ⟨-, hok⟩ | ⟨⟨interval, hmem, hle⟩, -⟩
        · exact .inr hok
        · exact .inl ⟨_, .allocate hpc hdecodes hlift hselect hmem hle⟩

/-- The translation of a block fails in one of five ways, for every text and every address. -/
theorem translateBlock_error_iff (horder : ∀ rs, (order rs).Perm rs) :
    t.translateBlock order pc = .error e ↔ Fails order t pc e :=
  ⟨Fails.of_error horder, Fails.error horder⟩

theorem translateBlock_error_iff_crowded :
    (translatorOf (crowdedText 28)).translateBlock id 0x1000#64 = .error unallocated ↔
      Fails id (translatorOf (crowdedText 28)) 0x1000#64 unallocated :=
  translateBlock_error_iff fun rs => List.Perm.refl (id rs)

end

end BinaryTranslator

end DinoRisc
