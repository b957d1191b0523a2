import DinoRisc.WholeRun

/-!
Programs without calls: no instruction of the text puts anything into the link register, so that every
return ends the function.
-/

namespace DinoRisc

open RiscV RiscV.Encoding ByteMemory BinaryTranslator

namespace RiscV.Program

/-- The register that an instruction writes. -/
def destination : Instr → Option ℕ
  | .r _ rd _ _ | .i _ rd _ _ | .shift _ rd _ _ | .shiftW _ rd _ _ | .u _ rd _ | .jal rd _ =>
    some rd.toNat
  | .s .. | .b .. | .ecall | .ebreak => none

/-- An instruction of a program without calls, and none that the translator gets wrong. -/
structure Leaf (i : Instr) : Prop where
  supported : i.opcode.isSupported = true
  exact : i.opcode.isExact = true
  notWide : ¬ Decoder.WideSrai i
  upperImmediate : i.opcode.isUpperImmediate = true → i.immediate = 0#64
  link : ∀ rd, linkRegister i = some rd → rd = 0
  returnAddress : destination i ≠ some 1

variable {p : Program} {valid : Isa.Valid} {i : Instr} {s s' : State} {n : ℕ}

theorem writeRegister_x_of_ne {g : Guest} {rd r : ℕ} (h : rd ≠ r) (v : BitVec 64) :
    (g.writeRegister rd v).x r = g.x r := by
  unfold Guest.writeRegister
  split
  · rfl
  · exact Function.update_of_ne h.symm v g.x

theorem stepImmediate_keeps {inst : Instruction} {g g' : Guest} {pc' imm : BitVec 64} {rd rs r : ℕ}
    (h : Isa.stepImmediate valid inst rd rs imm g = some (g', pc')) (hne : rd ≠ r) :
    g'.x r = g.x r := by
  simp only [Isa.stepImmediate] at h
  split at h
  · simp only [Option.map_eq_some_iff, Prod.mk.injEq] at h
    obtain ⟨f, -, rfl, -⟩ := h
    exact writeRegister_x_of_ne hne _
  · split at h <;> cases h
    exact writeRegister_x_of_ne hne _
  · split at h <;> cases h
    rfl
  · cases h
    rfl
  · cases h
    exact writeRegister_x_of_ne hne _
  · cases h

theorem step_keeps {g g' : Guest} {pc pc' : BitVec 64} {r : ℕ}
    (h : Isa.step valid (i.at pc) g = some (g', pc')) (hr : destination i ≠ some r) :
    g'.x r = g.x r := by
  have hne {rd : BitVec 5} (hrd : some rd.toNat ≠ some r) : rd.toNat ≠ r :=
    fun heq => hrd (congrArg some heq)
  cases i with
  | r op rd rs1 rs2 =>
    simp only [Encoding.Instr.at, Instr.operands, Isa.step, Option.map_eq_some_iff,
      Prod.mk.injEq] at h
    obtain ⟨f, -, rfl, -⟩ := h
    exact writeRegister_x_of_ne (hne hr) _
  | i op rd rs1 imm | shift op rd rs1 shamt | shiftW op rd rs1 shamt =>
    exact stepImmediate_keeps h (hne hr)
  | s op rs1 rs2 imm =>
    cases op <;>
      · simp only [Encoding.Instr.at, Instr.operands, Isa.step, Isa.stepImmediate, Instr.opcode,
          SOp.opcode, Isa.immediateForm, Option.ite_none_right_eq_some, Option.some.injEq,
          Prod.mk.injEq] at h
        rw [← h.2.1]
  | b op rs1 rs2 halfOffset =>
    cases op <;>
      · simp only [Encoding.Instr.at, Instr.operands, Isa.step, Isa.stepImmediate, Instr.opcode,
          BOp.opcode, Isa.immediateForm, Option.some.injEq, Prod.mk.injEq] at h
        rw [← h.1]
  | u op rd imm =>
    cases op <;>
      · simp only [Encoding.Instr.at, Instr.operands, Isa.step, Instr.opcode, UOp.opcode,
          Option.some.injEq, Prod.mk.injEq] at h
        rw [← h.1, writeRegister_x_of_ne (hne hr)]
  | jal rd halfOffset =>
    simp only [Encoding.Instr.at, Instr.operands, Isa.step, Instr.opcode, Option.some.injEq,
      Prod.mk.injEq] at h
    rw [← h.1, writeRegister_x_of_ne (hne hr)]
  | ecall | ebreak => cases h

theorem Leaf.faithful (h : Leaf i) (hra : s.guest.x 1 = 0#64) : Faithful i s where
  toSound := .of_link h.supported h.exact h.notWide h.upperImmediate h.link
  returns _ := by
    rw [Guest.reg_of_ne _ (by decide), hra]
    decide

/-- Every run of RV64I is sound, as long as nothing is put into the link register. -/
theorem soundSteps_of_leaf
    (hleaf : ∀ pc i, pc.toNat % 4 = 0 → Decoder.Holds p.text (p.offset pc) i.encode → Leaf i)
    (hra : s.guest.x 1 = 0#64) (h : Runs.Run (p.Step valid) n s s') :
    Runs.Run (p.SoundStep valid) n s s' := by
  have hsim (s₂ s s' : State) (h : s₂ = s ∧ s.guest.x 1 = 0#64) (hstep : p.Step valid s s') :
      ∃ s₃, p.SoundStep valid s₂ s₃ ∧ s₃ = s' ∧ s'.guest.x 1 = 0#64 := by
    obtain ⟨rfl, hra⟩ := h
    obtain ⟨i, hexec⟩ := hstep
    have hi := hleaf s₂.pc i hexec.aligned hexec.fetch
    refine ⟨s', ⟨i, Faithfully.soundly ⟨hexec, hi.faithful hra⟩⟩, rfl, ?_⟩
    rw [step_keeps hexec.step hi.returnAddress, hra]
  obtain ⟨s₃, hrun, rfl, -⟩ := h.simulate hsim ⟨rfl, hra⟩
  exact hrun

end RiscV.Program

section

variable {order : List ℕ → List ℕ} {p : Program} {L : Layout} {t : BinaryTranslator}
  {s' : Program.State} {n : ℕ} (horder : ∀ rs, (order rs).Perm rs)
  (hsize : p.base.toNat + p.text.length < 2 ^ 64)
  (hleaf : ∀ pc i, pc.toNat % 4 = 0 → Decoder.Holds p.text (p.offset pc) i.encode → Program.Leaf i)
  (hfits : ∀ pc instructions, pc.toNat % 4 = 0 → p.decoded pc = .ok instructions →
    Fits order instructions)
  (hcleared : Cleared L t)

include horder hsize hleaf hfits hcleared

theorem executeFunction_leaf_tracks (name : String) (args : List (BitVec 64)) (entry : BitVec 64)
    (hrun : Runs.Run (p.Step L.valid) n ⟨entryGuest args, entry⟩ s') (hzero : s'.pc = 0#64)
    (hn : n ≤ MAX_EXECUTION_BLOCKS) :
    ∃ t', executeFunction order p.text p.base name (some entry)
        ((t.initializeTranslator L.shadowMemory).setArgumentRegisters args) =
          .ok (t'.getReturnValue, t') ∧
      Tracks L p (t.started L.shadowMemory args p.text p.base entry).host.mem (t', s'.pc) s' := by
  obtain ⟨k, hk, hblocks⟩ :=
    Program.blocks_of_steps hsize (Program.soundSteps_of_leaf hleaf rfl hrun) hzero
  have hfitting : Runs.Run (p.FittingBlock order (p.Soundly L.valid)) k ⟨entryGuest args, entry⟩
      s' := by
    refine hblocks.mono fun s s' hblock => ?_
    obtain ⟨i, s₁, hexec⟩ := hblock.executes
    exact ⟨hblock, fun instructions => hfits s.pc instructions hexec.aligned⟩
  exact executeFunction_tracks horder hsize hcleared name args hfitting (hk.trans hn) (.inl hzero)

end

/-! ### An example -/

theorem increment_leaf (pc : BitVec 64) (i : Instr) (haligned : pc.toNat % 4 = 0)
    (hfetch : Decoder.Holds increment.text (increment.offset pc) i.encode) : Program.Leaf i := by
  have hle : increment.offset pc + 4 ≤ 12 := Program.Holds.le hfetch
  have hmod : increment.offset pc % 4 = 0 := by
    simp only [Program.offset, increment, BitVec.toNat_sub, BitVec.toNat_ofNat]
    omega
  have hread := Decoder.readInstruction_holds hfetch
  have hi : i = incrementBranch ∨ i = incrementAdd ∨ i = incrementReturn := by
    obtain h | h | h : increment.offset pc = 0 ∨ increment.offset pc = 4 ∨
        increment.offset pc = 8 := by omega
    all_goals rw [h] at hread
    · exact .inl (encode_injective (Except.ok.inj (hread.symm.trans rfl)))
    · exact .inr (.inl (encode_injective (Except.ok.inj (hread.symm.trans rfl))))
    · exact .inr (.inr (encode_injective (Except.ok.inj (hread.symm.trans rfl))))
  rcases hi with rfl | rfl | rfl
  · refine ⟨rfl, rfl, not_false, ?_, ?_, ?_⟩
    all_goals simp [incrementBranch, Instr.opcode, BOp.opcode, Opcode.isUpperImmediate,
      Program.linkRegister, Program.destination]
  · refine ⟨rfl, rfl, not_false, ?_, ?_, ?_⟩
    all_goals simp [incrementAdd, Instr.opcode, IOp.opcode, Opcode.isUpperImmediate,
      Program.linkRegister, Program.destination]
  · refine ⟨rfl, rfl, not_false, ?_, ?_, ?_⟩
    all_goals simp [incrementReturn, Instr.opcode, IOp.opcode, Opcode.isUpperImmediate,
      Program.linkRegister, Program.destination]

theorem increment_run : Runs.Run (increment.Step highLayout.valid) 3
    ⟨entryGuest [0#64], 0x10000#64⟩ ⟨incremented, 0#64⟩ := by
  have hbranch : increment.Step highLayout.valid ⟨entryGuest [0#64], 0x10000#64⟩
      ⟨entryGuest [0#64], 0x10004#64⟩ :=
    ⟨incrementBranch, by decide, rfl, ⟨_, rfl⟩, rfl⟩
  have hadd : increment.Step highLayout.valid ⟨entryGuest [0#64], 0x10004#64⟩
      ⟨incremented, 0x10008#64⟩ :=
    ⟨incrementAdd, by decide, rfl, ⟨_, rfl⟩, rfl⟩
  exact .succ hbranch (.succ hadd (.single ⟨incrementReturn, by decide, rfl, ⟨_, rfl⟩, rfl⟩))

end DinoRisc
