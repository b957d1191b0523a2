import DinoRisc.BinaryTranslator
import DinoRisc.Lifter.ExactBlock
import DinoRisc.Lifter.Terminator
import DinoRisc.RiscV.Reference

/-!
The steps of a program that the translator takes as RV64I does, and what it decodes of a basic block
of them.
-/

namespace DinoRisc.RiscV.Program

open Encoding

/-- The register that a jump puts the return address in. -/
def linkRegister : Instr → Option ℕ
  | .i .jalr rd _ _ => some rd.toNat
  | .jal rd _ => some rd.toNat
  | _ => none

/-- The translator takes the step as RV64I does, but for the address that a return goes to: it does
not lose a link, and the instruction is none that the decoder, the lifter or the encoder gets wrong. -/
structure Sound (i : Instr) (s : State) : Prop where
  supported : i.opcode.isSupported = true
  exact : i.opcode.isExact = true
  notWide : ¬ Decoder.WideSrai i
  upperImmediate : i.opcode.isUpperImmediate = true → i.immediate = 0#64
  link : ∀ rd, linkRegister i = some rd → s.guest.writeRegister rd (s.pc + 4#64) = s.guest

/-- The step is sound, and a return ends the program. -/
structure Faithful (i : Instr) (s : State) : Prop extends Sound i s where
  returns : Lifter.IsReturn (i.at s.pc) → s.guest.reg 1 &&& ~~~1#64 = 0#64

/-- A step of the machine that the dispatcher follows: a step of RV64I, but for a return, which goes
to address 0 whatever the link register holds. -/
def Dispatches (p : Program) (valid : Isa.Valid) (i : Instr) (s s' : State) : Prop :=
  ∃ pc, p.Executes valid i s ⟨s'.guest, pc⟩ ∧
    s'.pc = if Lifter.IsReturn (i.at s.pc) then 0#64 else pc

def Soundly (p : Program) (valid : Isa.Valid) (i : Instr) (s s' : State) : Prop :=
  p.Dispatches valid i s s' ∧ Sound i s

def Faithfully (p : Program) (valid : Isa.Valid) (i : Instr) (s s' : State) : Prop :=
  p.Executes valid i s s' ∧ Faithful i s

variable {p : Program} {valid : Isa.Valid} {i : Instr} {s s' : State} {inst : Instruction}

theorem Sound.of_link (hsup : i.opcode.isSupported = true) (hexact : i.opcode.isExact = true)
    (hwide : ¬ Decoder.WideSrai i) (hupper : i.opcode.isUpperImmediate = true → i.immediate = 0#64)
    (hlink : ∀ rd ∈ linkRegister i, rd = 0) : Sound i s where
  supported := hsup
  exact := hexact
  notWide := hwide
  upperImmediate := hupper
  link rd hrd := by
    rw [hlink rd hrd, Guest.writeRegister_zero]

theorem isShiftImmediate_of_transfer (h : i.opcode.isControlTransfer = true) :
    i.isShiftImmediate = false := by
  cases i with
  | shift op | shiftW op => cases op <;> cases h
  | _ => rfl

theorem isShiftImmediate_of_upperImmediate (h : i.opcode.isUpperImmediate = true) :
    i.isShiftImmediate = false := by
  cases i with
  | shift op | shiftW op => cases op <;> cases h
  | _ => rfl

theorem rescaled_step (hinst : i.StandsFor s.pc inst)
    (hupper : i.opcode.isUpperImmediate = true → i.immediate = 0#64) (g : Guest) :
    Isa.step valid (Lifter.rescaled inst) g = Isa.step valid inst g := by
  cases hup : i.opcode.isUpperImmediate with
  | false => rw [Lifter.rescaled_of_not (by rw [hinst.opcode, hup])]
  | true =>
    obtain rfl := hinst.same (isShiftImmediate_of_upperImmediate hup)
    have himm := hupper hup
    cases i with
    | u op rd imm =>
      rw [Instr.immediate] at himm
      simp [Lifter.rescaled, Encoding.Instr.at, Instr.operands, Instr.immediate, himm]
    | r op | i op | s op | b op | shift op | shiftW op => cases op <;> cases hup
    | jal | ecall | ebreak => cases hup

theorem guest_transfer (h : p.Executes valid i s s') (hi : Sound i s)
    (hop : i.opcode.isControlTransfer = true) : s'.guest = s.guest := by
  have hstep := h.step
  cases i with
  | i op rd rs1 imm =>
    cases op <;> first
      | (cases hop; done)
      | simp only [Encoding.Instr.at, Instr.opcode, IOp.opcode, Instr.operands, Isa.step,
          Isa.stepImmediate, Isa.immediateForm, Option.some.injEq, Prod.mk.injEq] at hstep
        rw [← hstep.1, hi.link _ rfl]
  | b op rs1 rs2 halfOffset =>
    cases op <;>
      · simp only [Encoding.Instr.at, Instr.opcode, BOp.opcode, Instr.operands, Isa.step,
          Isa.stepImmediate, Isa.immediateForm, Option.some.injEq, Prod.mk.injEq] at hstep
        exact hstep.1.symm
  | jal rd halfOffset =>
    simp only [Encoding.Instr.at, Instr.opcode, Instr.operands, Isa.step, Option.some.injEq,
      Prod.mk.injEq] at hstep
    rw [← hstep.1, hi.link _ rfl]
  | r op | shift op | shiftW op | s op | u op => cases op <;> cases hop
  | ecall | ebreak => cases hop

/-- Where a return ends the program, the dispatcher's machine makes the step of RV64I. -/
theorem Faithfully.soundly (h : p.Faithfully valid i s s') : p.Soundly valid i s s' := by
  obtain ⟨hexec, hi⟩ := h
  refine ⟨⟨s'.pc, hexec, ?_⟩, hi.toSound⟩
  split
  · rename_i hreturn
    have hzero := hi.returns hreturn
    rw [← Lifter.isaNextPC_eq hexec.step, Lifter.isaNextPC, hreturn.2, hreturn.1]
    simp only [Isa.immediateForm, BitVec.add_zero, hzero]
  · rfl

theorem Dispatches.fetch (h : p.Dispatches valid i s s') :
    Decoder.Holds p.text (p.offset s.pc) i.encode := by
  obtain ⟨pc, hexec, -⟩ := h
  exact hexec.fetch

/-- A step that is no control transfer is one of RV64I. -/
theorem Dispatches.executes (h : p.Dispatches valid i s s')
    (hop : i.opcode.isControlTransfer = false) : p.Executes valid i s s' := by
  obtain ⟨pc, hexec, hpc⟩ := h
  have hnot : ¬ Lifter.IsReturn (i.at s.pc) := by
    intro hreturn
    rw [show i.opcode = .jalr from hreturn.1] at hop
    cases hop
  rw [if_neg hnot] at hpc
  rwa [← hpc] at hexec

theorem step_transfer (h : p.Dispatches valid i s s') (hi : Sound i s)
    (hop : i.opcode.isControlTransfer = true) (hinst : i.StandsFor s.pc inst) :
    s' = ⟨s.guest, Lifter.nextPC inst (inst.address + 4#64) s.guest⟩ := by
  obtain rfl := hinst.same (isShiftImmediate_of_transfer hop)
  obtain ⟨pc, hexec, hpc⟩ := h
  have hguest := guest_transfer hexec hi hop
  have hisa := Lifter.isaNextPC_eq hexec.step
  obtain ⟨g', pc'⟩ := s'
  dsimp only at hguest hpc hisa
  rw [hguest, hpc, Lifter.nextPC, ← hisa]

/-- A step of another instruction goes on to the next address. -/
theorem step_straight (h : p.Executes valid i s s') (hi : Sound i s)
    (hop : i.opcode.isControlTransfer = false) (hinst : i.StandsFor s.pc inst) :
    Lifter.Liftable inst ∧ Isa.step valid (Lifter.rescaled inst) s.guest = some (s'.guest, s'.pc) ∧
      s'.pc = s.pc + 4#64 := by
  have hstep := h.step
  rw [← hinst.step] at hstep
  have hliftable : Lifter.Liftable inst := by
    refine ⟨?_, hinst.opcode ▸ hinst.operands⟩
    have hsup := hi.supported
    rw [hinst.opcode]
    rwa [Opcode.isSupported, hop, Bool.or_false] at hsup
  refine ⟨hliftable, ?_, ?_⟩
  · rw [rescaled_step hinst hi.upperImmediate, hstep]
  · have hpc := Lifter.isaNextPC_eq hstep
    have hne : inst.opcode ≠ .jalr := by
      intro heq
      rw [← hinst.opcode, heq] at hop
      cases hop
    rw [← hpc, ← Lifter.nextPC_of_ne hne, Lifter.isaNextPC_liftable hliftable, hinst.address]

/-! ### Basic blocks -/

section

variable (p : Program) (step : Instr → State → State → Prop)

def Inner (s s' : State) : Prop := ∃ i, step i s s' ∧ ¬ p.EndsBlock i s.pc

def Last (s s' : State) : Prop := ∃ i, step i s s' ∧ p.EndsBlock i s.pc

/-- A basic block, executed in the given steps. -/
def Block : State → State → Prop := Runs.Segment (p.Inner step) (p.Last step)

end

def decoded (p : Program) (pc : BitVec 64) : Except Error (List Instruction) :=
  BinaryTranslator.decodeBlock p.text (BinaryTranslator.offsets (p.offset pc) p.text.length) pc

/-- The instructions of a block lead from `s` to `s'`. -/
structure Leads (valid : Isa.Valid) (s s' : State) (instructions : List Instruction) : Prop where
  ne : instructions ≠ []
  supported : ∀ inst ∈ instructions, inst.Supported
  exact : ∀ inst ∈ instructions, inst.opcode.isExact = true
  transfer : ∀ inst ∈ instructions.dropLast, inst.opcode.isControlTransfer = false
  steps : Isa.steps valid ((Lifter.straightPart instructions).map Lifter.rescaled) s.guest =
    some s'.guest
  nextPC : s'.pc = Lifter.nextPC (instructions.getLast ne)
    ((instructions.getLast ne).address + 4#64) s'.guest

theorem Holds.le {data : List (BitVec 8)} {offset : ℕ} {w : BitVec 32}
    (h : Decoder.Holds data offset w) : offset + 4 ≤ data.length := by
  have hle := h.length_le
  rw [List.length_drop] at hle
  have hlength : (littleEndian w).length = 4 := rfl
  omega

theorem offsets_cons {offset size : ℕ} (h : offset < size) : BinaryTranslator.offsets offset size =
    offset :: BinaryTranslator.offsets (offset + 4) size := by
  have hcount : (size - offset + 3) / 4 = (size - (offset + 4) + 3) / 4 + 1 := by omega
  rw [BinaryTranslator.offsets, hcount, List.range'_succ]
  rfl

theorem offset_succ {pc : BitVec 64} (h : p.offset pc + 4 < 2 ^ 64) :
    p.offset (pc + 4#64) = p.offset pc + 4 := by
  have heq : pc + 4#64 - p.base = pc - p.base + 4#64 := by ring
  rw [offset, heq, BitVec.toNat_add]
  exact Nat.mod_eq_of_lt h

/-- The decoder's instruction at the program counter, and the rest of the block. -/
theorem decoded_cons (hfetch : Decoder.Holds p.text (p.offset s.pc) i.encode) (hi : Sound i s) :
    ∃ inst, i.StandsFor s.pc inst ∧ inst.Supported ∧ p.decoded s.pc =
      if i.opcode.isControlTransfer then .ok [inst] else
        (BinaryTranslator.decodeBlock p.text
          (BinaryTranslator.offsets (p.offset s.pc + 4) p.text.length) (s.pc + 4#64)).map (inst :: ·) := by
  obtain ⟨inst, hok, hinst⟩ := Decoder.decode_standsFor hi.notWide s.pc
  refine ⟨inst, hinst, ⟨hinst.opcode ▸ hi.supported, hinst.opcode ▸ hinst.operands⟩, ?_⟩
  have hle := Holds.le hfetch
  have hvalid : inst.isValid = true := by
    have hsup := hi.supported
    rw [← hinst.opcode] at hsup
    rw [Instruction.isValid, bne_iff_ne]
    intro heq
    rw [heq] at hsup
    cases hsup
  rw [decoded, offsets_cons (by omega), BinaryTranslator.decodeBlock, Decoder.decode_holds hfetch, hok]
  simp only [bind, Except.bind, hvalid, Lifter.isTerminator_eq, hinst.opcode]
  cases i.opcode.isControlTransfer with
  | true => rfl
  | false =>
    simp only [Bool.false_eq_true, if_false, Bool.not_true]
    cases BinaryTranslator.decodeBlock p.text
      (BinaryTranslator.offsets (p.offset s.pc + 4) p.text.length) (s.pc + 4#64) <;> rfl

theorem Last.leads (h : p.Last (p.Soundly valid) s s') :
    ∃ instructions, p.decoded s.pc = .ok instructions ∧ Leads valid s s' instructions := by
  obtain ⟨i, ⟨hdispatch, hi⟩, hends⟩ := h
  obtain ⟨inst, hinst, hsup, hdecoded⟩ := decoded_cons hdispatch.fetch hi
  refine ⟨[inst], ?_, List.cons_ne_nil _ _, by simpa using hsup,
    by simpa [hinst.opcode] using hi.exact, by simp, ?_, ?_⟩
  all_goals cases hop : i.opcode.isControlTransfer
  · have hend := hends.resolve_left (by simp [hop])
    have hnil : BinaryTranslator.offsets (p.offset s.pc + 4) p.text.length = [] := by
      rw [hend, BinaryTranslator.offsets, Nat.sub_self]
      rfl
    rw [hdecoded, hop, hnil]
    rfl
  · rw [hdecoded, hop]
    rfl
  · obtain ⟨hliftable, hstep, -⟩ := step_straight (hdispatch.executes hop) hi hop hinst
    simp [Lifter.straightPart, hliftable.not_isTerminator, Isa.steps, hstep]
  · obtain rfl := step_transfer hdispatch hi hop hinst
    simp [Lifter.straightPart, Lifter.isTerminator_eq, hinst.opcode, hop, Isa.steps]
  · obtain ⟨hliftable, -, hpc⟩ := step_straight (hdispatch.executes hop) hi hop hinst
    rw [List.getLast_singleton, Lifter.isaNextPC_liftable hliftable, hpc, hinst.address]
  · obtain rfl := step_transfer hdispatch hi hop hinst
    rfl

theorem Leads.cons {s₁ : State} {instructions : List Instruction}
    (h : Leads valid s₁ s' instructions) (hsup : inst.Supported)
    (hexact : inst.opcode.isExact = true) (hliftable : Lifter.Liftable inst)
    (hstep : Isa.step valid (Lifter.rescaled inst) s.guest = some (s₁.guest, s₁.pc)) :
    Leads valid s s' (inst :: instructions) where
  ne := List.cons_ne_nil _ _
  supported := List.forall_mem_cons.mpr ⟨hsup, h.supported⟩
  exact := List.forall_mem_cons.mpr ⟨hexact, h.exact⟩
  transfer := by
    rw [List.dropLast_cons_of_ne_nil h.ne]
    refine List.forall_mem_cons.mpr ⟨?_, h.transfer⟩
    rw [← Lifter.isTerminator_eq, hliftable.not_isTerminator]
  steps := by
    simp [Lifter.straightPart, hliftable.not_isTerminator, Isa.steps, hstep]
    exact h.steps
  nextPC := by
    rw [List.getLast_cons h.ne]
    exact h.nextPC

variable {step step' : Instr → State → State → Prop}

theorem Block.mono (hstep : ∀ i s s', step i s s' → step' i s s') (h : p.Block step s s') :
    p.Block step' s s' := by
  refine Runs.Segment.mono ?_ ?_ h
  · rintro s s' ⟨i, hi, hends⟩
    exact ⟨i, hstep i s s' hi, hends⟩
  · rintro s s' ⟨i, hi, hends⟩
    exact ⟨i, hstep i s s' hi, hends⟩

theorem Block.executes (h : p.Block (p.Soundly valid) s s') : ∃ i s₁, p.Executes valid i s s₁ := by
  obtain ⟨s₁, hinner, hlast⟩ := h
  rcases hinner.cases_head with rfl | ⟨s₂, ⟨i, ⟨⟨pc, hexec, -⟩, -⟩, -⟩, -⟩
  · obtain ⟨i, ⟨⟨pc, hexec, -⟩, -⟩, -⟩ := hlast
    exact ⟨i, _, hexec⟩
  · exact ⟨i, _, hexec⟩

/-- The decoder finds the instructions of the block, and they lead to the state after it. -/
theorem Block.leads (hsize : p.text.length < 2 ^ 64) (h : p.Block (p.Soundly valid) s s') :
    ∃ instructions, p.decoded s.pc = .ok instructions ∧ Leads valid s s' instructions := by
  obtain ⟨s₁, hinner, hlast⟩ := h
  induction hinner using Relation.ReflTransGen.head_induction_on with
  | refl => exact hlast.leads
  | @head s s₂ hstep _ ih =>
    obtain ⟨instructions, hdecode, hleads⟩ := ih
    obtain ⟨i, ⟨hdispatch, hi⟩, hends⟩ := hstep
    obtain ⟨hop, hend⟩ := not_or.mp hends
    rw [Bool.not_eq_true] at hop
    obtain ⟨inst, hinst, hsup, hdecoded⟩ := decoded_cons hdispatch.fetch hi
    obtain ⟨hliftable, hstep, hpc⟩ := step_straight (hdispatch.executes hop) hi hop hinst
    have hle := Holds.le hdispatch.fetch
    refine ⟨inst :: instructions, ?_, hleads.cons hsup (hinst.opcode ▸ hi.exact) hliftable hstep⟩
    rw [decoded, hpc, offset_succ (by omega)] at hdecode
    rw [hdecoded, hop, hdecode]
    rfl

/-! ### Runs -/

def SoundStep (p : Program) (valid : Isa.Valid) (s s' : State) : Prop := ∃ i, p.Soundly valid i s s'

theorem SoundStep.cases (h : p.SoundStep valid s s') :
    p.Inner (p.Soundly valid) s s' ∨ p.Last (p.Soundly valid) s s' := by
  obtain ⟨i, hi⟩ := h
  by_cases hends : p.EndsBlock i s.pc
  · exact .inr ⟨i, hi, hends⟩
  · exact .inl ⟨i, hi, hends⟩

theorem Inner.pc_ne_zero (hsize : p.base.toNat + p.text.length < 2 ^ 64)
    (h : p.Inner (p.Soundly valid) s s') : s'.pc ≠ 0#64 := by
  obtain ⟨i, ⟨hdispatch, hi⟩, hends⟩ := h
  obtain ⟨hop, hend⟩ := not_or.mp hends
  rw [Bool.not_eq_true] at hop
  obtain ⟨inst, -, hinst⟩ := Decoder.decode_standsFor hi.notWide s.pc
  obtain ⟨-, -, hpc⟩ := step_straight (hdispatch.executes hop) hi hop hinst
  have hle := Holds.le hdispatch.fetch
  intro hzero
  have hnat := congrArg BitVec.toNat (hpc.symm.trans hzero)
  rw [BitVec.toNat_add] at hnat
  simp only [offset, BitVec.toNat_sub, BitVec.toNat_ofNat] at hle hend hnat
  have hlt := s.pc.isLt
  omega

/-- A run that ends at address 0 is one of basic blocks. -/
theorem blocks_of_steps {n : ℕ} (hsize : p.base.toNat + p.text.length < 2 ^ 64)
    (h : Runs.Run (p.SoundStep valid) n s s') (hzero : s'.pc = 0#64) :
    ∃ k ≤ n, Runs.Run (p.Block (p.Soundly valid)) k s s' := by
  cases n with
  | zero =>
    cases h
    exact ⟨0, le_rfl, .zero s⟩
  | succ n =>
    obtain ⟨s₁, hrun, hlast⟩ := h.exists_last
    replace hlast := hlast.cases.resolve_left fun hinner => hinner.pc_ne_zero hsize hzero
    obtain ⟨k, hk, -, hblocks⟩ := (hrun.mono fun s s' => SoundStep.cases).segments hlast
    exact ⟨k, hk, hblocks⟩

end DinoRisc.RiscV.Program
