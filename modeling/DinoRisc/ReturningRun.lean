import DinoRisc.WholeRun

/-!
Whole runs of the machine that the dispatcher follows: RV64I, but for the returns, which all end the
function.
-/

namespace DinoRisc

open RiscV RiscV.Encoding ByteMemory InstructionSelector BinaryTranslator

/-- `executeFunction` returns `a0` of the state in which the machine stops, and leaves that state. -/
theorem executeFunction_dispatches {order : List ℕ → List ℕ} {p : Program} {L : Layout}
    {t : BinaryTranslator} {s' : Program.State} (horder : ∀ rs, (order rs).Perm rs)
    (hsize : p.base.toNat + p.text.length < 2 ^ 64) (hcleared : Cleared L t) (name : String)
    (args : List (BitVec 64)) {entry : BitVec 64} {k : ℕ}
    (hrun : Runs.Run (p.FittingBlock order (p.Soundly L.valid)) k ⟨entryGuest args, entry⟩ s')
    (hzero : s'.pc = 0#64) (hk : k ≤ MAX_EXECUTION_BLOCKS) :
    ∃ t', executeFunction order p.text p.base name (some entry)
        ((t.initializeTranslator L.shadowMemory).setArgumentRegisters args) =
          .ok ((s'.guest.x 10).setWidth 32, t') ∧
      Represents L t'.host.mem s'.guest ∧
      ∀ x, ¬ InRange L.state GUEST_STATE_SIZE x → ¬ InRange L.shadowMemory L.shadowMemorySize x →
        t'.host.mem x = t.host.mem x := by
  obtain ⟨t', hok, htracks⟩ :=
    executeFunction_tracks horder hsize hcleared name args hrun hk (.inl hzero)
  obtain ⟨hvalue, hfinal⟩ := htracks.result hcleared
  exact ⟨t', hvalue ▸ hok, hfinal⟩

/-! ### An example -/

def resumeBranch : Instr := .b .bne 10 0 4
def resumeLink : Instr := .i .addi 1 0 0x414
def resumeStore : Instr := .s .sd 2 10 8
def resumeReturn : Instr := .i .jalr 0 1 0
def resumeSeven : Instr := .i .addi 10 0 7
def resumeEnd : Instr := .i .jalr 0 0 0

/-- A program that returns to an address of its own, and goes on from there. -/
def resume : Program where
  text := [resumeBranch, resumeEnd, resumeLink, resumeStore, resumeReturn, resumeSeven,
    resumeEnd].flatMap fun i => littleEndian i.encode
  base := 0x400#64

/-- The guest at the return. -/
def linked : Guest where
  x := Function.update (entryGuest [5#64]).x 1 0x414#64
  mem := store (fun _ => 0#8) (stackTop + 8#64) 8 5#64

theorem resume_branch : resume.Executes highLayout.valid resumeBranch
    ⟨entryGuest [5#64], 0x400#64⟩ ⟨entryGuest [5#64], 0x408#64⟩ :=
  ⟨by decide, rfl, ⟨_, rfl⟩, rfl⟩

theorem resume_link : resume.Executes highLayout.valid resumeLink ⟨entryGuest [5#64], 0x408#64⟩
    ⟨(entryGuest [5#64]).writeRegister 1 0x414#64, 0x40C#64⟩ :=
  ⟨by decide, rfl, ⟨_, rfl⟩, rfl⟩

theorem resume_store : resume.Executes highLayout.valid resumeStore
    ⟨(entryGuest [5#64]).writeRegister 1 0x414#64, 0x40C#64⟩ ⟨linked, 0x410#64⟩ :=
  ⟨by decide, rfl, ⟨_, rfl⟩, (Isa.step_store rfl rfl).trans (if_pos rfl)⟩

theorem resume_return : resume.Executes highLayout.valid resumeReturn ⟨linked, 0x410#64⟩
    ⟨linked, 0x414#64⟩ :=
  ⟨by decide, rfl, ⟨_, rfl⟩, rfl⟩

/-- RV64I returns to `0x414`, where the program puts 7 into `a0`. -/
theorem resume_run : Runs.Run (resume.Step highLayout.valid) 6 ⟨entryGuest [5#64], 0x400#64⟩
    ⟨linked.writeRegister 10 7#64, 0#64⟩ := by
  have hseven : resume.Step highLayout.valid ⟨linked, 0x414#64⟩
      ⟨linked.writeRegister 10 7#64, 0x418#64⟩ :=
    ⟨resumeSeven, by decide, rfl, ⟨_, rfl⟩, rfl⟩
  have hend : resume.Step highLayout.valid ⟨linked.writeRegister 10 7#64, 0x418#64⟩
      ⟨linked.writeRegister 10 7#64, 0#64⟩ :=
    ⟨resumeEnd, by decide, rfl, ⟨_, rfl⟩, rfl⟩
  exact .succ ⟨_, resume_branch⟩ <| .succ ⟨_, resume_link⟩ <| .succ ⟨_, resume_store⟩ <|
    .succ ⟨_, resume_return⟩ <| .succ hseven <| .single hend

theorem resume_sound {i : Instr} (hi : i ∈ [resumeBranch, resumeLink, resumeStore, resumeReturn])
    (s : Program.State) : Program.Sound i s := by
  simp only [List.mem_cons, List.not_mem_nil, or_false] at hi
  rcases hi with rfl | rfl | rfl | rfl <;> exact .of_link rfl rfl not_false (by decide) (by decide)

/-- The dispatcher's machine stops at the return. -/
theorem resume_blocks : Runs.Run (resume.FittingBlock id (resume.Soundly highLayout.valid)) 2
    ⟨entryGuest [5#64], 0x400#64⟩ ⟨linked, 0#64⟩ := by
  have hbranch : resume.Block (resume.Soundly highLayout.valid) ⟨entryGuest [5#64], 0x400#64⟩
      ⟨entryGuest [5#64], 0x408#64⟩ :=
    ⟨_, .refl, _, ⟨⟨_, resume_branch, rfl⟩, resume_sound (by simp) _⟩, .inl rfl⟩
  have hlink : resume.Inner (resume.Soundly highLayout.valid) ⟨entryGuest [5#64], 0x408#64⟩
      ⟨(entryGuest [5#64]).writeRegister 1 0x414#64, 0x40C#64⟩ :=
    ⟨_, ⟨⟨_, resume_link, rfl⟩, resume_sound (by simp) _⟩, by decide⟩
  have hstore : resume.Inner (resume.Soundly highLayout.valid)
      ⟨(entryGuest [5#64]).writeRegister 1 0x414#64, 0x40C#64⟩ ⟨linked, 0x410#64⟩ :=
    ⟨_, ⟨⟨_, resume_store, rfl⟩, resume_sound (by simp) _⟩, by decide⟩
  have hreturn : resume.Last (resume.Soundly highLayout.valid) ⟨linked, 0x410#64⟩ ⟨linked, 0#64⟩ :=
    ⟨_, ⟨⟨_, resume_return, rfl⟩, resume_sound (by simp) _⟩, .inl rfl⟩
  refine .succ ⟨hbranch, ?_⟩ (.single ⟨⟨_, .head hlink (.single hstore), hreturn⟩, ?_⟩)
  · intro instructions hdecode
    cases hdecode.symm.trans rfl
    exact Fits.of_block (Lifter.keepsOperands_of_branch [] rfl (by decide)) rfl rfl (by decide)
  · intro instructions hdecode
    cases hdecode.symm.trans rfl
    exact Fits.of_block (Lifter.keepsOperands_of_ne (by decide)) rfl rfl (by decide)

theorem executeFunction_dispatches_resume :
    ∃ t', executeFunction id resume.text resume.base "resume" (some 0x400#64)
        ((idle.initializeTranslator 0x10000000#64).setArgumentRegisters [5#64]) =
          .ok ((linked.x 10).setWidth 32, t') ∧
      Represents highLayout t'.host.mem linked ∧
      ∀ x, ¬ InRange highLayout.state GUEST_STATE_SIZE x →
        ¬ InRange highLayout.shadowMemory highLayout.shadowMemorySize x →
        t'.host.mem x = idle.host.mem x :=
  executeFunction_dispatches (L := highLayout) (fun rs => List.Perm.refl (id rs)) (by decide)
    idle_cleared "resume" [5#64] resume_blocks rfl (by decide)

/-- RV64I ends with 7 in `a0`, and `executeFunction` returns 5. -/
theorem executeFunction_resume : ∃ s',
    Runs.Run (resume.Step highLayout.valid) 6 ⟨entryGuest [5#64], 0x400#64⟩ s' ∧ s'.pc = 0#64 ∧
      s'.guest.x 10 = 7#64 ∧
      ∃ t', executeFunction id resume.text resume.base "resume" (some 0x400#64)
        ((idle.initializeTranslator 0x10000000#64).setArgumentRegisters [5#64]) = .ok (5#32, t') := by
  refine ⟨_, resume_run, rfl, rfl, ?_⟩
  obtain ⟨t', hok, htracks⟩ := executeFunction_tracks (L := highLayout)
    (fun rs => List.Perm.refl (id rs)) (by decide) idle_cleared "resume" [5#64] resume_blocks (by decide)
    (.inl rfl)
  obtain ⟨hvalue, -⟩ := htracks.result idle_cleared
  have hfive : t'.getReturnValue = 5#32 := hvalue.trans rfl
  exact ⟨t', hfive ▸ hok⟩

end DinoRisc
