import DinoRisc.Arm64.Emit
import DinoRisc.Arm64.EncoderErrors
import DinoRisc.Library.Raises

/-!
The instructions that the back end emits before the final `RET`. All of them have a meaning on
every machine, and the encoder accepts them on general registers.
-/

namespace DinoRisc.Arm64

variable {inst : Instruction} {ρ : VirtualRegister → Register}

namespace Operand

def IsSlot : Operand → Prop
  | .register (.x _) | .virtual _ => True
  | _ => False

theorem IsSlot.virtual (vreg : VirtualRegister) : (virtual vreg).IsSlot := trivial

theorem IsSlot.general (n : Fin 31) : (register (.x n)).IsSlot := trivial

def isVirtual : Operand → Bool
  | .virtual _ => true
  | _ => false

def rename (ρ : VirtualRegister → Register) : Operand → Operand
  | .virtual vreg => .register (ρ vreg)
  | operand => operand

theorem IsSlot.rename {operand : Operand} (h : operand.IsSlot)
    (hρ : ∀ vreg, .virtual vreg = operand → ∃ n, ρ vreg = .x n) : (operand.rename ρ).IsSlot := by
  cases operand with
  | virtual vreg =>
    obtain ⟨n, hn⟩ := hρ vreg rfl
    rw [Operand.rename, hn]
    trivial
  | _ => exact h

theorem IsSlot.isGeneral {operand : Operand} (h : operand.IsSlot)
    (hv : operand.isVirtual = false) : operand.IsGeneral := by
  cases operand with
  | register reg =>
    cases reg with
    | x n => exact ⟨n, rfl⟩
    | xsp => exact h.elim
  | virtual vreg => cases hv
  | immediate value => exact h.elim

theorem IsSlot.place {operand : Operand} (h : operand.IsSlot) : ∃ p, operand.place = some p := by
  cases operand with
  | register reg => exact ⟨_, rfl⟩
  | virtual vreg => exact ⟨_, rfl⟩
  | immediate value => exact h.elim

end Operand

namespace Instruction

def hasVirtual (inst : Instruction) : Bool := inst.operands.any Operand.isVirtual

theorem hasVirtual_iff : inst.hasVirtual = true ↔ ∃ vreg, .virtual vreg ∈ inst.operands := by
  rw [hasVirtual, List.any_eq_true]
  constructor
  · rintro ⟨operand, hmem, hv⟩
    cases operand with
    | virtual vreg => exact ⟨vreg, hmem⟩
    | _ => cases hv
  · rintro ⟨vreg, hmem⟩
    exact ⟨_, hmem, rfl⟩

def rename (ρ : VirtualRegister → Register) : Instruction → Instruction
  | .threeOperand opcode size dest src1 src2 =>
    .threeOperand opcode size (dest.rename ρ) (src1.rename ρ) (src2.rename ρ)
  | .twoOperand opcode size dest src => .twoOperand opcode size (dest.rename ρ) (src.rename ρ)
  | .memory opcode size reg baseReg offset =>
    .memory opcode size (reg.rename ρ) (baseReg.rename ρ) offset
  | .moveWide opcode size dest imm16 shift => .moveWide opcode size (dest.rename ρ) imm16 shift
  | .branch opcode target => .branch opcode target
  | .conditional opcode size dest condition => .conditional opcode size (dest.rename ρ) condition
  | .conditionalSelect opcode size dest src1 src2 condition =>
    .conditionalSelect opcode size (dest.rename ρ) (src1.rename ρ) (src2.rename ρ) condition

theorem isGeneral_of_mem {operand : Operand} (hv : inst.hasVirtual = false)
    (hmem : operand ∈ inst.operands) (hs : operand.IsSlot) : operand.IsGeneral := by
  rw [hasVirtual, List.any_eq_false] at hv
  exact hs.isGeneral (by simpa using hv operand hmem)

theorem rename_hasVirtual (ρ : VirtualRegister → Register) (inst : Instruction) :
    (inst.rename ρ).hasVirtual = false := by
  have hoperand (operand : Operand) : (operand.rename ρ).isVirtual = false := by
    cases operand <;> rfl
  cases inst <;> simp [hasVirtual, rename, operands, hoperand]

inductive Emitted : Instruction → Prop
  | compute {opcode size dest src1 src2}
    (hop : opcode ∈ [.add, .sub, .and, .orr, .eor, .lsl, .lsr, .asr]) (hdest : dest.IsSlot)
    (hsrc1 : src1.IsSlot) (hsrc2 : src2.IsSlot) : Emitted (.threeOperand opcode size dest src1 src2)
  | convert {opcode size dest src} (hop : opcode ∈ [.mov, .sxtb, .sxth, .sxtw])
    (hdest : dest.IsSlot) (hsrc : src.IsSlot) : Emitted (.twoOperand opcode size dest src)
  | constant {opcode size dest value} (hop : opcode ∈ [.mov, .movn]) (hdest : dest.IsSlot)
    (hvalue : value.toNat < 2 ^ 16) : Emitted (.twoOperand opcode size dest (.immediate value))
  | compare {size src1 src2} (hsrc1 : src1.IsSlot) (hsrc2 : src2.IsSlot ∨ src2 = .immediate 0#64) :
    Emitted (.twoOperand .cmp size src1 src2)
  | memory {opcode size reg baseReg offset} (hop : opcode ∈ [.ldr, .str]) (hreg : reg.IsSlot)
    (hbase : baseReg.IsSlot) (hoffset : offset.toNat ≤ 280) (haligned : offset.toNat % 8 = 0) :
    Emitted (.memory opcode size reg baseReg offset)
  | chunk {opcode size dest imm16 shift} (hop : opcode ∈ [.movz, .movk]) (hdest : dest.IsSlot)
    (hshift : shift ∈ [0#8, 16#8, 32#8, 48#8]) : Emitted (.moveWide opcode size dest imm16 shift)
  | set {size dest condition} (hdest : dest.IsSlot) : Emitted (.conditional .cset size dest condition)
  | select {size dest src1 src2 condition} (hdest : dest.IsSlot) (hsrc1 : src1.IsSlot)
    (hsrc2 : src2.IsSlot) : Emitted (.conditionalSelect .csel size dest src1 src2 condition)

namespace Emitted

theorem rename (h : inst.Emitted)
    (hρ : ∀ vreg, .virtual vreg ∈ inst.operands → ∃ n, ρ vreg = .x n) :
    (inst.rename ρ).Emitted := by
  have hslot {operand : Operand} (hs : operand.IsSlot) (hmem : operand ∈ inst.operands) :
      (operand.rename ρ).IsSlot := hs.rename fun vreg hv => hρ vreg (hv ▸ hmem)
  cases h with
  | compute hop hdest hsrc1 hsrc2 =>
    exact .compute hop (hslot hdest (by simp [operands])) (hslot hsrc1 (by simp [operands]))
      (hslot hsrc2 (by simp [operands]))
  | convert hop hdest hsrc =>
    exact .convert hop (hslot hdest (by simp [operands])) (hslot hsrc (by simp [operands]))
  | constant hop hdest hvalue => exact .constant hop (hslot hdest (by simp [operands])) hvalue
  | compare hsrc1 hsrc2 =>
    refine .compare (hslot hsrc1 (by simp [operands])) ?_
    rcases hsrc2 with hsrc2 | rfl
    · exact .inl (hslot hsrc2 (by simp [operands]))
    · exact .inr rfl
  | memory hop hreg hbase hoffset haligned =>
    exact .memory hop (hslot hreg (by simp [operands])) (hslot hbase (by simp [operands])) hoffset
      haligned
  | chunk hop hdest hshift => exact .chunk hop (hslot hdest (by simp [operands])) hshift
  | set hdest => exact .set (hslot hdest (by simp [operands]))
  | select hdest hsrc1 hsrc2 =>
    exact .select (hslot hdest (by simp [operands])) (hslot hsrc1 (by simp [operands]))
      (hslot hsrc2 (by simp [operands]))

theorem exec_next (h : inst.Emitted) (m : Machine) : ∃ m', Arm64.exec inst m = some (.next m') := by
  have hwrite {dest : Operand} (hdest : dest.IsSlot) (value : BitVec 64) :
      ∃ m', m.write dest value = some m' := by
    obtain ⟨p, hp⟩ := hdest.place
    exact ⟨_, by rw [Machine.write, hp]; rfl⟩
  cases h with
  | @compute opcode size dest src1 src2 hop hdest hsrc1 hsrc2 =>
    simp only [List.mem_cons, List.not_mem_nil, or_false] at hop
    rcases hop with rfl | rfl | rfl | rfl | rfl | rfl | rfl | rfl <;>
      simp [Arm64.exec, Opcode.compute, hwrite hdest]
  | @convert opcode size dest src hop hdest hsrc =>
    simp only [List.mem_cons, List.not_mem_nil, or_false] at hop
    rcases hop with rfl | rfl | rfl | rfl <;> simp [Arm64.exec, Opcode.convert, hwrite hdest]
  | @constant opcode size dest value hop hdest hvalue =>
    simp only [List.mem_cons, List.not_mem_nil, or_false] at hop
    rcases hop with rfl | rfl <;> simp [Arm64.exec, Opcode.convert, hwrite hdest]
  | compare hsrc1 hsrc2 => exact ⟨_, rfl⟩
  | @memory opcode size reg baseReg offset hop hreg hbase hoffset haligned =>
    simp only [List.mem_cons, List.not_mem_nil, or_false] at hop
    rcases hop with rfl | rfl
    · simp [Arm64.exec, hwrite hreg]
    · exact ⟨_, rfl⟩
  | @chunk opcode size dest imm16 shift hop hdest hshift =>
    simp only [List.mem_cons, List.not_mem_nil, or_false] at hop
    rcases hop with rfl | rfl <;> simp [Arm64.exec, hwrite hdest]
  | set hdest => simp [Arm64.exec, hwrite hdest]
  | select hdest hsrc1 hsrc2 => simp [Arm64.exec, hwrite hdest]

end Emitted

end Instruction

namespace Encoder

theorem encodeOffset_ok (name : String) {size : DataSize} {offset : BitVec 32}
    (hoffset : offset.toNat ≤ 280) (haligned : offset.toNat % 8 = 0)
    (rn rt unsignedOffset postIndex : BitVec 32) :
    ∃ word, encodeOffset name (sizeField size) rn rt offset unsignedOffset postIndex = .ok word := by
  have hint : offset.toInt = offset.toNat := by
    rw [BitVec.toInt_eq_toNat_of_lt]
    omega
  have hscaled : 0 ≤ offset.toInt ∧ offset.toInt % 2 ^ (sizeField size).toNat = 0 := by
    rw [hint]
    refine ⟨Int.natCast_nonneg _, ?_⟩
    cases size <;> simp [sizeField] <;> omega
  have hsmall : offset.sshiftRight (sizeField size).toNat ≤ 0xFFF#32 := by
    rw [BitVec.le_def, BitVec.sshiftRight_eq_of_msb_false (BitVec.msb_eq_false_iff_two_mul_lt.mpr (by omega)),
      BitVec.toNat_ushiftRight]
    exact (Nat.shiftRight_le _ _).trans (hoffset.trans (by decide))
  rw [encodeOffset, if_pos hscaled]
  dsimp only
  rw [if_pos hsmall]
  exact ⟨_, rfl⟩

theorem encodeWord_ok {inst : Instruction} (h : inst.Emitted) (hv : inst.hasVirtual = false) :
    ∃ word, encodeWord inst = .ok word := by
  have hgeneral {operand : Operand} (hs : operand.IsSlot) (hmem : operand ∈ inst.operands) :
      operand.IsGeneral := Instruction.isGeneral_of_mem hv hmem hs
  cases h with
  | @compute opcode size dest src1 src2 hop hdest hsrc1 hsrc2 =>
    obtain ⟨rd, rfl⟩ := hgeneral hdest (by simp [Instruction.operands])
    obtain ⟨rn, rfl⟩ := hgeneral hsrc1 (by simp [Instruction.operands])
    obtain ⟨rm, rfl⟩ := hgeneral hsrc2 (by simp [Instruction.operands])
    simp only [List.mem_cons, List.not_mem_nil, or_false] at hop
    rcases hop with rfl | rfl | rfl | rfl | rfl | rfl | rfl | rfl <;> exact ⟨_, rfl⟩
  | @convert opcode size dest src hop hdest hsrc =>
    obtain ⟨rd, rfl⟩ := hgeneral hdest (by simp [Instruction.operands])
    obtain ⟨rn, rfl⟩ := hgeneral hsrc (by simp [Instruction.operands])
    simp only [List.mem_cons, List.not_mem_nil, or_false] at hop
    rcases hop with rfl | rfl | rfl | rfl <;> exact ⟨_, rfl⟩
  | @constant opcode size dest value hop hdest hvalue =>
    obtain ⟨rd, rfl⟩ := hgeneral hdest (by simp [Instruction.operands])
    simp only [List.mem_cons, List.not_mem_nil, or_false] at hop
    rcases hop with rfl | rfl <;>
      simp [encodeWord, encodeTwoOperandInst, encodeRegister_general, isImmediate,
        getImm16_ok _ value hvalue, bind, Except.bind, pure, Except.pure]
  | @compare size src1 src2 hsrc1 hsrc2 =>
    obtain ⟨rn, rfl⟩ := hgeneral hsrc1 (by simp [Instruction.operands])
    rcases hsrc2 with hsrc2 | rfl
    · obtain ⟨rm, rfl⟩ := hgeneral hsrc2 (by simp [Instruction.operands])
      exact ⟨_, rfl⟩
    · exact ⟨_, rfl⟩
  | @memory opcode size reg baseReg offset hop hreg hbase hoffset haligned =>
    obtain ⟨rt, rfl⟩ := hgeneral hreg (by simp [Instruction.operands])
    obtain ⟨rn, rfl⟩ := hgeneral hbase (by simp [Instruction.operands])
    simp only [List.mem_cons, List.not_mem_nil, or_false] at hop
    rcases hop with rfl | rfl <;> exact encodeOffset_ok _ hoffset haligned _ _ _ _
  | @chunk opcode size dest imm16 shift hop hdest hshift =>
    obtain ⟨rd, rfl⟩ := hgeneral hdest (by simp [Instruction.operands])
    simp only [List.mem_cons, List.not_mem_nil, or_false] at hop hshift
    rcases hop with rfl | rfl <;> rcases hshift with rfl | rfl | rfl | rfl <;> exact ⟨_, rfl⟩
  | @set size dest condition hdest =>
    obtain ⟨rd, rfl⟩ := hgeneral hdest (by simp [Instruction.operands])
    exact ⟨_, rfl⟩
  | @select size dest src1 src2 condition hdest hsrc1 hsrc2 =>
    obtain ⟨rd, rfl⟩ := hgeneral hdest (by simp [Instruction.operands])
    obtain ⟨rn, rfl⟩ := hgeneral hsrc1 (by simp [Instruction.operands])
    obtain ⟨rm, rfl⟩ := hgeneral hsrc2 (by simp [Instruction.operands])
    exact ⟨_, rfl⟩

theorem encodeInstruction_ok {inst : Instruction} (h : inst.Emitted)
    (hv : inst.hasVirtual = false) :
    ∃ bytes, encodeInstruction inst = .ok bytes ∧ bytes.length = 4 := by
  obtain ⟨word, hword⟩ := encodeWord_ok h hv
  rw [encodeInstruction, hword]
  exact ⟨_, rfl, rfl⟩

/-- The error of an operand without a physical register. -/
def unallocated : Error :=
  .encoding "Cannot encode virtual register - register allocation required"

theorem raises_slot {β : Type} {operand : Operand} {f : BitVec 32 → Except Error β}
    (hs : operand.IsSlot) (hf : ∀ r, Raises (· = unallocated) (f r)) :
    Raises (· = unallocated) (encodeRegister operand >>= f) := by
  refine .bind ?_ fun r _ => hf r
  cases operand with
  | register reg => cases reg <;> exact .ok _
  | virtual vreg => exact .error rfl
  | immediate value => exact hs.elim

theorem isImmediate_slot {operand : Operand} (hs : operand.IsSlot) : isImmediate operand = false := by
  cases operand with
  | immediate value => exact hs.elim
  | _ => rfl

theorem encodeWord_raises {inst : Instruction} (h : inst.Emitted) :
    Raises (· = unallocated) (encodeWord inst) := by
  cases h with
  | @compute opcode size dest src1 src2 hop hdest hsrc1 hsrc2 =>
    refine raises_slot hdest fun rd => raises_slot hsrc1 fun rn => ?_
    simp only [List.mem_cons, List.not_mem_nil, or_false] at hop
    rcases hop with rfl | rfl | rfl | rfl | rfl | rfl | rfl | rfl <;>
      · simp only [isImmediate_slot hsrc2, Bool.false_eq_true, if_false]
        exact raises_slot hsrc2 fun _ => .ok _
  | @convert opcode size dest src hop hdest hsrc =>
    refine raises_slot hdest fun rd => ?_
    simp only [List.mem_cons, List.not_mem_nil, or_false] at hop
    rcases hop with rfl | rfl | rfl | rfl
    · simp only [isImmediate_slot hsrc, Bool.false_eq_true, if_false]
      exact raises_slot hsrc fun _ => .ok _
    all_goals exact raises_slot hsrc fun _ => .ok _
  | @constant opcode size dest value hop hdest hvalue =>
    refine raises_slot hdest fun rd => ?_
    simp only [List.mem_cons, List.not_mem_nil, or_false] at hop
    refine .of_ok ?_
    rcases hop with rfl | rfl <;>
      simp [isImmediate, getImm16_ok _ value hvalue, bind, Except.bind, pure, Except.pure]
  | @compare size src1 src2 hsrc1 hsrc2 =>
    refine raises_slot hsrc1 fun rd => raises_slot hsrc1 fun rn => ?_
    rcases hsrc2 with hsrc2 | rfl
    · simp only [isImmediate_slot hsrc2, Bool.false_eq_true, if_false]
      exact raises_slot hsrc2 fun _ => .ok _
    · exact .ok _
  | @memory opcode size reg baseReg offset hop hreg hbase hoffset haligned =>
    refine raises_slot hreg fun rt => raises_slot hbase fun rn => .of_ok ?_
    simp only [List.mem_cons, List.not_mem_nil, or_false] at hop
    rcases hop with rfl | rfl <;> exact encodeOffset_ok _ hoffset haligned _ _ _ _
  | @chunk opcode size dest imm16 shift hop hdest hshift =>
    refine raises_slot hdest fun rd => .of_ok ?_
    simp only [List.mem_cons, List.not_mem_nil, or_false] at hop hshift
    rcases hop with rfl | rfl <;> rcases hshift with rfl | rfl | rfl | rfl <;> exact ⟨_, rfl⟩
  | set hdest => exact raises_slot hdest fun _ => .ok _
  | select hdest hsrc1 hsrc2 =>
    refine raises_slot hdest fun rd => raises_slot hsrc1 fun rn => ?_
    simp only [isImmediate_slot hsrc1, isImmediate_slot hsrc2, Bool.or_self, Bool.false_eq_true,
      if_false]
    exact raises_slot hsrc2 fun _ => .ok _

end Encoder

end DinoRisc.Arm64
