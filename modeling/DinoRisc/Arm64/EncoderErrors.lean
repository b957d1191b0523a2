import DinoRisc.Arm64.Encoder

/-! When the encoder rejects an instruction: always with an `EncodingError`, and always if a
register operand is still virtual. -/

namespace DinoRisc.Arm64.Encoder

variable {α β : Type}

def EncodingOnly (x : Except Error α) : Prop := ∀ e, x = .error e → ∃ message, e = .encoding message

namespace EncodingOnly

theorem ok (a : α) : EncodingOnly (.ok a) := by
  rintro e h
  cases h

theorem error (message : String) : EncodingOnly (.error (.encoding message) : Except Error α) := by
  rintro e h
  cases h
  exact ⟨message, rfl⟩

theorem bind {x : Except Error α} {f : α → Except Error β} (h : EncodingOnly x)
    (hf : ∀ a, x = .ok a → EncodingOnly (f a)) : EncodingOnly (x >>= f) := by
  cases x with
  | error e =>
    rintro e' h'
    cases h'
    exact h e rfl
  | ok a => exact hf a rfl

theorem ite {p : Prop} [Decidable p] {x y : Except Error α} (hx : p → EncodingOnly x)
    (hy : ¬ p → EncodingOnly y) : EncodingOnly (if p then x else y) := by
  split
  · exact hx ‹_›
  · exact hy ‹_›

end EncodingOnly

theorem encodeRegister_encodingOnly (operand : Operand) : EncodingOnly (encodeRegister operand) := by
  cases operand with
  | register reg => cases reg <;> exact .ok _
  | virtual vreg => exact .error _
  | immediate value => exact .error _

theorem getImmediate_encodingOnly {operand : Operand} (h : isImmediate operand = true) :
    EncodingOnly (getImmediate operand) := by
  cases operand with
  | immediate value => exact .ok _
  | _ => cases h

section

variable {name : String} {operand src2 : Operand} {f : BitVec 32 → Except Error α}

theorem getImm12_encodingOnly (h : isImmediate operand = true) :
    EncodingOnly (getImm12 name operand) :=
  .bind (getImmediate_encodingOnly h) fun _ _ => .ite (fun _ => .error _) fun _ => .ok _

theorem getImm16_encodingOnly (h : isImmediate operand = true) :
    EncodingOnly (getImm16 name operand) :=
  .bind (getImmediate_encodingOnly h) fun _ _ => .ite (fun _ => .error _) fun _ => .ok _

theorem getShiftAmount_encodingOnly {sf : BitVec 32} (h : isImmediate operand = true) :
    EncodingOnly (getShiftAmount name sf operand) :=
  .bind (getImmediate_encodingOnly h) fun _ _ => .ite (fun _ => .error _) fun _ => .ok _

theorem register_encodingOnly (hf : ∀ r, EncodingOnly (f r)) :
    EncodingOnly (encodeRegister operand >>= f) :=
  .bind (encodeRegister_encodingOnly operand) fun r _ => hf r

theorem encodeThreeOperandInst_encodingOnly (opcode : Opcode) (size : DataSize)
    (dest src1 src2 : Operand) :
    EncodingOnly (encodeThreeOperandInst opcode size dest src1 src2) := by
  refine register_encodingOnly fun rd => register_encodingOnly fun rn => ?_
  cases opcode with
  | add | sub | cmp =>
    exact .ite (fun h => .bind (getImm12_encodingOnly h) fun _ _ => .ok _)
      fun _ => register_encodingOnly fun _ => .ok _
  | and | orr | eor | mul =>
    exact .ite (fun _ => .error _) fun _ => register_encodingOnly fun _ => .ok _
  | lsl | lsr | asr =>
    exact .ite (fun h => .bind (getShiftAmount_encodingOnly h) fun _ _ => .ok _)
      fun _ => register_encodingOnly fun _ => .ok _
  | _ => exact .error _

theorem encodeTwoOperandInst_encodingOnly (opcode : Opcode) (size : DataSize)
    (dest src : Operand) : EncodingOnly (encodeTwoOperandInst opcode size dest src) := by
  refine register_encodingOnly fun rd => ?_
  cases opcode with
  | mov =>
    exact .ite (fun h => .bind (getImm16_encodingOnly h) fun _ _ => .ok _)
      fun _ => register_encodingOnly fun _ => .ok _
  | sxtb | sxth | sxtw | ret => exact register_encodingOnly fun _ => .ok _
  | movn =>
    exact .ite (fun _ => .error _) fun h =>
      .bind (getImm16_encodingOnly (by simpa using h)) fun _ _ => .ok _
  | cmp =>
    exact register_encodingOnly fun _ =>
      .ite (fun h => .bind (getImm12_encodingOnly h) fun _ _ => .ok _)
        fun _ => register_encodingOnly fun _ => .ok _
  | _ => exact .error _

theorem encodeOffset_encodingOnly (name : String)
    (size rn rt offset unsignedOffset postIndex : BitVec 32) :
    EncodingOnly (encodeOffset name size rn rt offset unsignedOffset postIndex) :=
  .ite (fun _ => .ite (fun _ => .ok _) fun _ => .error _)
    fun _ => .ite (fun _ => .ok _) fun _ => .error _

theorem encodeWord_encodingOnly (inst : Instruction) : EncodingOnly (encodeWord inst) := by
  cases inst with
  | threeOperand opcode size dest src1 src2 => exact encodeThreeOperandInst_encodingOnly _ _ _ _ _
  | twoOperand opcode size dest src => exact encodeTwoOperandInst_encodingOnly _ _ _ _
  | memory opcode size reg baseReg offset =>
    refine register_encodingOnly fun rt => register_encodingOnly fun rn => ?_
    cases opcode with
    | ldr | str => exact encodeOffset_encodingOnly _ _ _ _ _ _ _
    | _ => exact .error _
  | moveWide opcode size dest imm16 shift =>
    refine register_encodingOnly fun rd => .ite (fun _ => .error _) fun _ => ?_
    cases opcode with
    | movz | movk => exact .ok _
    | _ => exact .error _
  | branch opcode target =>
    refine .ite (fun _ => .error _) fun _ => ?_
    cases opcode with
    | b => exact .ok _
    | b_eq | b_ne | b_lt | b_le | b_gt | b_ge => exact .ite (fun _ => .error _) fun _ => .ok _
    | _ => exact .error _
  | conditional opcode size dest condition =>
    refine register_encodingOnly fun rd => ?_
    cases opcode with
    | cset => exact .ok _
    | _ => exact .error _
  | conditionalSelect opcode size dest src1 src2 condition =>
    refine register_encodingOnly fun rd => register_encodingOnly fun rn => ?_
    cases opcode with
    | csel => exact .ite (fun _ => .error _) fun _ => register_encodingOnly fun _ => .ok _
    | _ => exact .error _

end

def Fails (x : Except Error α) : Prop := ∀ a, x ≠ .ok a

namespace Fails

theorem error (e : Error) : Fails (.error e : Except Error α) := by
  rintro a h
  cases h

theorem left {x : Except Error α} (h : Fails x) (f : α → Except Error β) : Fails (x >>= f) := by
  cases x with
  | error e => exact .error e
  | ok a => exact absurd rfl (h a)

theorem right (x : Except Error α) {f : α → Except Error β} (h : ∀ a, Fails (f a)) :
    Fails (x >>= f) := by
  cases x with
  | error e => exact .error e
  | ok a => exact h a

theorem ite {p : Prop} [Decidable p] {x y : Except Error α} (hx : p → Fails x)
    (hy : ¬ p → Fails y) : Fails (if p then x else y) := by
  split
  · exact hx ‹_›
  · exact hy ‹_›

end Fails

theorem virtual_fails (vreg : VirtualRegister) (f : BitVec 32 → Except Error α) :
    Fails (encodeRegister (.virtual vreg) >>= f) :=
  .left (.error _) f

theorem encodeThreeOperandInst_fails (opcode : Opcode) (size : DataSize) (dest src1 : Operand)
    (vreg : VirtualRegister) :
    Fails (encodeThreeOperandInst opcode size dest src1 (.virtual vreg)) := by
  refine .right _ fun rd => .right _ fun rn => ?_
  cases opcode with
  | add | sub | cmp | and | orr | eor | mul | lsl | lsr | asr => exact virtual_fails vreg _
  | _ => exact .error _

theorem encodeTwoOperandInst_fails (opcode : Opcode) (size : DataSize) (dest : Operand)
    (vreg : VirtualRegister) : Fails (encodeTwoOperandInst opcode size dest (.virtual vreg)) := by
  refine .right _ fun rd => ?_
  cases opcode with
  | mov | sxtb | sxth | sxtw | ret => exact virtual_fails vreg _
  | cmp => exact .right _ fun rn => virtual_fails vreg _
  | _ => exact .error _

end DinoRisc.Arm64.Encoder

namespace DinoRisc.Arm64

def Instruction.operands : Instruction → List Operand
  | .threeOperand _ _ dest src1 src2 | .conditionalSelect _ _ dest src1 src2 _ => [dest, src1, src2]
  | .twoOperand _ _ dest src => [dest, src]
  | .memory _ _ reg baseReg _ => [reg, baseReg]
  | .moveWide _ _ dest _ _ | .conditional _ _ dest _ => [dest]
  | .branch _ _ => []

theorem Encoder.encodeWord_fails {inst : Instruction} {vreg : VirtualRegister}
    (h : .virtual vreg ∈ inst.operands) : Fails (encodeWord inst) := by
  cases inst with
  | threeOperand opcode size dest src1 src2 =>
    simp only [Instruction.operands, List.mem_cons, List.not_mem_nil, or_false] at h
    rcases h with rfl | rfl | rfl
    · exact virtual_fails vreg _
    · exact .right _ fun rd => virtual_fails vreg _
    · exact encodeThreeOperandInst_fails opcode size dest src1 vreg
  | twoOperand opcode size dest src =>
    simp only [Instruction.operands, List.mem_cons, List.not_mem_nil, or_false] at h
    rcases h with rfl | rfl
    · exact virtual_fails vreg _
    · exact encodeTwoOperandInst_fails opcode size dest vreg
  | memory opcode size reg baseReg offset =>
    simp only [Instruction.operands, List.mem_cons, List.not_mem_nil, or_false] at h
    rcases h with rfl | rfl
    · exact virtual_fails vreg _
    · exact .right _ fun rt => virtual_fails vreg _
  | moveWide opcode size dest imm16 shift =>
    simp only [Instruction.operands, List.mem_cons, List.not_mem_nil, or_false] at h
    subst h
    exact virtual_fails vreg _
  | branch opcode target => cases h
  | conditional opcode size dest condition =>
    simp only [Instruction.operands, List.mem_cons, List.not_mem_nil, or_false] at h
    subst h
    exact virtual_fails vreg _
  | conditionalSelect opcode size dest src1 src2 condition =>
    simp only [Instruction.operands, List.mem_cons, List.not_mem_nil, or_false] at h
    rcases h with rfl | rfl | rfl
    · exact virtual_fails vreg _
    · exact .right _ fun rd => virtual_fails vreg _
    · refine .right _ fun rd => .right _ fun rn => ?_
      cases opcode with
      | csel => exact .ite (fun _ => .error _) fun _ => virtual_fails vreg _
      | _ => exact .error _

theorem Encoder.encodeInstruction_virtual {inst : Instruction} {vreg : VirtualRegister}
    (h : .virtual vreg ∈ inst.operands) :
    ∃ message, encodeInstruction inst = .error (.encoding message) := by
  have hfails := encodeWord_fails h
  have honly := encodeWord_encodingOnly inst
  rw [encodeInstruction]
  cases hword : encodeWord inst with
  | ok word => exact absurd hword (hfails word)
  | error e =>
    obtain ⟨message, rfl⟩ := honly e hword
    exact ⟨message, rfl⟩

end DinoRisc.Arm64
