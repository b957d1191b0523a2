import DinoRisc.Library.Runs
import DinoRisc.RiscV.Injective
import DinoRisc.RiscV.Isa
import DinoRisc.RiscV.Supported

/-!
The RV64I machine that executes a text section, one instruction after the other, until the program
counter is 0.
-/

namespace DinoRisc.RiscV

open Encoding

/-- The instruction at an address, with the immediate of the ISA. -/
def Encoding.Instr.at (i : Instr) (address : BitVec 64) : Instruction :=
  ⟨i.opcode, i.operands i.immediate, i.encode, address⟩

def Encoding.Instr.isShiftImmediate : Instr → Bool
  | .shift .. | .shiftW .. => true
  | _ => false

/-- The decoder's instruction has the step of `i`, and is `i` but for the unused bits of the amount of
a shift. -/
structure Encoding.Instr.StandsFor (i : Instr) (pc : BitVec 64) (inst : Instruction) : Prop where
  opcode : inst.opcode = i.opcode
  address : inst.address = pc
  operands : Shaped i.opcode.format inst.operands
  same : i.isShiftImmediate = false → inst = i.at pc
  step : ∀ valid g, Isa.step valid inst g = Isa.step valid (i.at pc) g

theorem Decoder.decode_standsFor {i : Instr} (h : ¬ WideSrai i) (pc : BitVec 64) :
    ∃ inst, decodeWord i.encode pc = .ok inst ∧ i.StandsFor pc inst := by
  obtain ⟨inst, hok⟩ := decodeWord_encode i pc
  obtain ⟨hoperands, haddress⟩ := decodeWord_operands hok
  have hshaped := inst.opcode.format.operands_shaped i.encode
  rw [← hoperands] at hshaped
  refine ⟨inst, hok, ?_⟩
  suffices hsame : inst.opcode = i.opcode ∧ (i.isShiftImmediate = false → inst = i.at pc) ∧
      ∀ valid g, Isa.step valid inst g = Isa.step valid (i.at pc) g from
    ⟨hsame.1, haddress, hsame.1 ▸ hshaped, hsame.2.1, hsame.2.2⟩
  clear hoperands haddress hshaped
  cases i with
  | r op rd rs1 rs2 =>
    cases hok.symm.trans (decode_r op rd rs1 rs2 pc)
    exact ⟨rfl, fun _ => rfl, fun _ _ => rfl⟩
  | i op rd rs1 imm =>
    cases hok.symm.trans (decode_i op rd rs1 imm pc)
    exact ⟨rfl, fun _ => rfl, fun _ _ => rfl⟩
  | shift op rd rs1 shamt =>
    have hop : shiftOpcode op shamt = op.opcode := if_neg fun hwide => h (by rw [hwide.1]; exact hwide.2)
    have hlow : ((op.funct6 ++ shamt).signExtend 64).toNat % 64 = shamt.toNat :=
      (signExtend_mod_toNat _ 6 (by omega)).trans (by rw [(shift_fields _ _).1])
    have hdecode := decode_shift op rd rs1 shamt pc
    rw [hop] at hdecode
    cases hok.symm.trans hdecode
    refine ⟨rfl, by simp [Instr.isShiftImmediate], fun valid g => ?_⟩
    have hshamt : shamt.toNat % 64 = shamt.toNat := Nat.mod_eq_of_lt shamt.isLt
    cases op <;>
      simp [Isa.step, Isa.stepImmediate, Encoding.Instr.at, Instr.operands, Instr.opcode,
        ShiftOp.opcode, Instr.immediate, Isa.immediateForm, Isa.alu, hlow, hshamt]
  | shiftW op rd rs1 shamt =>
    have hlow : ((op.funct7 ++ shamt).signExtend 64).toNat % 32 = shamt.toNat :=
      (signExtend_mod_toNat _ 5 (by omega)).trans (by rw [shiftW_low])
    cases hok.symm.trans (decode_shiftW op rd rs1 shamt pc)
    refine ⟨rfl, by simp [Instr.isShiftImmediate], fun valid g => ?_⟩
    have hshamt : shamt.toNat % 32 = shamt.toNat := Nat.mod_eq_of_lt shamt.isLt
    cases op <;>
      simp [Isa.step, Isa.stepImmediate, Encoding.Instr.at, Instr.operands, Instr.opcode,
        ShiftWOp.opcode, Instr.immediate, Isa.immediateForm, Isa.alu, hlow, hshamt]
  | s op rs1 rs2 imm =>
    cases hok.symm.trans (decode_s op rs1 rs2 imm pc)
    exact ⟨rfl, fun _ => rfl, fun _ _ => rfl⟩
  | b op rs1 rs2 halfOffset =>
    cases hok.symm.trans (decode_b op rs1 rs2 halfOffset pc)
    exact ⟨rfl, fun _ => rfl, fun _ _ => rfl⟩
  | u op rd imm =>
    cases hok.symm.trans (decode_u op rd imm pc)
    exact ⟨rfl, fun _ => rfl, fun _ _ => rfl⟩
  | jal rd halfOffset =>
    cases hok.symm.trans (decode_jal rd halfOffset pc)
    exact ⟨rfl, fun _ => rfl, fun _ _ => rfl⟩
  | ecall | ebreak =>
    cases hok
    exact ⟨rfl, fun _ => rfl, fun _ _ => rfl⟩

structure Program where
  text : List (BitVec 8)
  base : BitVec 64

structure Program.State where
  guest : Guest
  pc : BitVec 64

namespace Program

variable (p : Program)

def offset (pc : BitVec 64) : ℕ := (pc - p.base).toNat

/-- `i` stands at the program counter, which is a multiple of 4, and makes the step. -/
structure Executes (valid : Isa.Valid) (i : Instr) (s s' : State) : Prop where
  running : s.pc ≠ 0#64
  aligned : s.pc.toNat % 4 = 0
  fetch : Decoder.Holds p.text (p.offset s.pc) i.encode
  step : Isa.step valid (i.at s.pc) s.guest = some (s'.guest, s'.pc)

/-- A step of RV64I. -/
def Step (valid : Isa.Valid) (s s' : State) : Prop := ∃ i, p.Executes valid i s s'

/-- The last instruction of a basic block is a control transfer, or the last one of the text. -/
def EndsBlock (i : Instr) (pc : BitVec 64) : Prop :=
  i.opcode.isControlTransfer = true ∨ p.offset pc + 4 = p.text.length

instance (i : Instr) (pc : BitVec 64) : Decidable (p.EndsBlock i pc) :=
  inferInstanceAs (Decidable (_ ∨ _))

variable {p} {valid : Isa.Valid} {i j : Instr} {s s' s'' : State}

/-- RV64I is deterministic. -/
theorem Executes.unique (h : p.Executes valid i s s') (h' : p.Executes valid j s s'') :
    i = j ∧ s' = s'' := by
  have hword := (Decoder.readInstruction_holds h.fetch).symm.trans (Decoder.readInstruction_holds h'.fetch)
  obtain rfl := encode_injective (Except.ok.inj hword)
  have hstep := Option.some.inj (h.step.symm.trans h'.step)
  obtain ⟨g, pc⟩ := s'
  obtain ⟨g', pc'⟩ := s''
  cases hstep
  exact ⟨rfl, rfl⟩

end Program

end DinoRisc.RiscV
