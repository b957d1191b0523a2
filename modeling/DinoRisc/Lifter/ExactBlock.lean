import DinoRisc.Lifter.Shape
import DinoRisc.Lowering.ExactCode

/-! Which instructions are lifted to operations that the encoder emits as they are. -/

namespace DinoRisc

open IR RiscV

/-- Not XOR and not a logical shift to the right. -/
def RiscV.Opcode.isExact : RiscV.Opcode → Bool
  | .xor | .xori | .srl | .srli => false
  | _ => true

namespace Lifter

variable {order : List ℕ → List ℕ} {l l' : Lifter} {inst : RiscV.Instruction}
  {kind : InstructionKind} {opcode : BinaryOpcode} {ty : Ty}

/-- The instructions added so far are exact. -/
def Exact (l : Lifter) : Prop := ∀ inst ∈ l.currentInstructions, inst.kind.Exact

namespace Exact

theorem add (h : Exact l) (hkind : kind.Exact) : Exact (l.addInstruction kind).2 := by
  refine List.forall_mem_append.mpr ⟨h, ?_⟩
  simpa using hkind

theorem constant (h : Exact l) (ty : Ty) (value : BitVec 64) :
    Exact (l.createConstant ty value).2 := h.add trivial

theorem binaryOp (h : Exact l) (hop : opcode ≠ .xor ∧ opcode ≠ .shr) (ty : Ty) (a b : ValueId) :
    Exact (l.createBinaryOp opcode ty a b).2 := h.add hop

theorem sext (h : Exact l) (operand : ValueId) : Exact (l.createSext .i64 operand).2 := h.add trivial

theorem zext (h : Exact l) (operand : ValueId) : Exact (l.createZext .i64 operand).2 := h.add trivial

theorem trunc (h : Exact l) (ty : Ty) (operand : ValueId) : Exact (l.createTrunc ty operand).2 :=
  h.add trivial

theorem load (h : Exact l) (ty : Ty) (address : ValueId) : Exact (l.createLoad ty address).2 :=
  h.add trivial

theorem store (h : Exact l) (value address : ValueId) : Exact (l.createStore value address).2 :=
  h.add trivial

theorem read (h : Exact l) (r : ℕ) : Exact (l.getRegisterValue r).2 := by
  unfold getRegisterValue
  split
  · exact h.constant _ _
  · split
    · exact h
    · exact h.add trivial

theorem write (h : Exact l) (r : ℕ) (id : ValueId) : Exact (l.setRegisterValue r id) := by
  unfold setRegisterValue
  split <;> exact h

theorem address (h : Exact l) (a b : ValueId) : Exact (l.createBinaryOp .add .i64 a b).2 :=
  h.binaryOp (by simp) _ _ _

theorem writes (rs : List ℕ) (h : Exact l) : Exact (rs.foldl (fun l regNum =>
    (l.addInstruction (.regWrite regNum ((l.cachedRegisterValues regNum).getD 0))).2) l) := by
  induction rs generalizing l with
  | nil => exact h
  | cons r rs ih => exact ih (h.add trivial)

end Exact

section

variable (h : Exact l)

include h

theorem liftRTypeBinaryOp_exact (hop : opcode ≠ .xor ∧ opcode ≠ .shr)
    (hok : l.liftRTypeBinaryOp inst opcode ty = .ok l') : Exact l' := by
  obtain ⟨_, -, hok⟩ := bind_eq_ok.mp hok
  obtain ⟨_, -, hok⟩ := bind_eq_ok.mp hok
  obtain ⟨_, -, hok⟩ := bind_eq_ok.mp hok
  cases hok
  exact (((h.read _).read _).binaryOp hop _ _ _).write _ _

theorem liftITypeBinaryOp_exact (hop : opcode ≠ .xor ∧ opcode ≠ .shr)
    (hok : l.liftITypeBinaryOp inst opcode ty = .ok l') : Exact l' := by
  obtain ⟨_, -, hok⟩ := bind_eq_ok.mp hok
  obtain ⟨_, -, hok⟩ := bind_eq_ok.mp hok
  obtain ⟨_, -, hok⟩ := bind_eq_ok.mp hok
  cases hok
  exact (((h.read _).constant _ _).binaryOp hop _ _ _).write _ _

theorem liftWTypeBinaryOp_exact (hop : opcode ≠ .xor ∧ opcode ≠ .shr)
    (hok : l.liftWTypeBinaryOp inst opcode = .ok l') : Exact l' := by
  obtain ⟨_, -, hok⟩ := bind_eq_ok.mp hok
  obtain ⟨_, -, hok⟩ := bind_eq_ok.mp hok
  obtain ⟨_, -, hok⟩ := bind_eq_ok.mp hok
  cases hok
  exact ((((((h.read _).read _).trunc _ _).trunc _ _).binaryOp hop _ _ _).sext _).write _ _

theorem liftWTypeImmOp_exact (hop : opcode ≠ .xor ∧ opcode ≠ .shr)
    (hok : l.liftWTypeImmOp inst opcode = .ok l') : Exact l' := by
  obtain ⟨_, -, hok⟩ := bind_eq_ok.mp hok
  obtain ⟨_, -, hok⟩ := bind_eq_ok.mp hok
  obtain ⟨_, -, hok⟩ := bind_eq_ok.mp hok
  cases hok
  exact (((((h.read _).constant _ _).trunc _ _).binaryOp hop _ _ _).sext _).write _ _

theorem liftLoadInstruction_exact {sign : Bool}
    (hok : l.liftLoadInstruction inst ty sign = .ok l') : Exact l' := by
  obtain ⟨rs1, -, hok⟩ := bind_eq_ok.mp hok
  obtain ⟨imm, -, hok⟩ := bind_eq_ok.mp hok
  obtain ⟨rd, -, hok⟩ := bind_eq_ok.mp hok
  let r₁ := l.getRegisterValue rs1
  let r₂ := r₁.2.createConstant .i64 imm
  let r₃ := r₂.2.createBinaryOp .add .i64 r₁.1 r₂.1
  let r₄ := r₃.2.createLoad ty r₃.1
  let r₅ := if ty ≠ .i64 then if sign then r₄.2.createSext .i64 r₄.1 else r₄.2.createZext .i64 r₄.1
    else r₄
  have e₄ : Exact r₄.2 := (((h.read _).constant _ _).address _ _).load _ _
  have e₅ : Exact r₅.2 := by
    by_cases hty : ty = .i64
    · simpa only [r₅, hty, ne_eq, not_true_eq_false, if_false] using e₄
    · simp only [r₅, ne_eq, hty, not_false_eq_true, if_true]
      cases sign
      · exact e₄.zext _
      · exact e₄.sext _
  obtain rfl : r₅.2.setRegisterValue rd r₅.1 = l' := Except.ok.inj hok
  exact e₅.write _ _

theorem liftStoreInstruction_exact (hok : l.liftStoreInstruction inst ty = .ok l') : Exact l' := by
  obtain ⟨rs1, -, hok⟩ := bind_eq_ok.mp hok
  obtain ⟨rs2, -, hok⟩ := bind_eq_ok.mp hok
  obtain ⟨imm, -, hok⟩ := bind_eq_ok.mp hok
  let r₁ := l.getRegisterValue rs1
  let r₂ := r₁.2.getRegisterValue rs2
  let r₃ := r₂.2.createConstant .i64 imm
  let r₄ := r₃.2.createBinaryOp .add .i64 r₁.1 r₃.1
  let r₅ := if ty ≠ .i64 then r₄.2.createTrunc ty r₂.1 else (r₂.1, r₄.2)
  have e₄ : Exact r₄.2 := (((h.read _).read _).constant _ _).address _ _
  have e₅ : Exact r₅.2 := by
    by_cases hty : ty = .i64
    · simpa only [r₅, hty, ne_eq, not_true_eq_false, if_false] using e₄
    · simp only [r₅, ne_eq, hty, not_false_eq_true, if_true]
      exact e₄.trunc _ _
  obtain rfl : (r₅.2.createStore r₅.1 r₄.1).2 = l' := Except.ok.inj hok
  exact e₅.store _ _

theorem liftSingleInstruction_exact (hop : inst.opcode.isExact = true)
    (hok : l.liftSingleInstruction inst = .ok l') : Exact l' := by
  obtain ⟨op, operands, raw, address⟩ := inst
  cases op with
  | add | sub | and | or | sll | sra | slt | sltu =>
    simp only [liftSingleInstruction] at hok
    exact liftRTypeBinaryOp_exact h (by simp) hok
  | addi | andi | ori | slli | srai | slti | sltiu =>
    simp only [liftSingleInstruction] at hok
    exact liftITypeBinaryOp_exact h (by simp) hok
  | addw =>
    simp only [liftSingleInstruction] at hok
    exact liftWTypeBinaryOp_exact h (by simp) hok
  | addiw | slliw =>
    simp only [liftSingleInstruction] at hok
    exact liftWTypeImmOp_exact h (by simp) hok
  | lb | lh | ld | lw | lwu =>
    simp only [liftSingleInstruction] at hok
    exact liftLoadInstruction_exact h hok
  | sd | sw =>
    simp only [liftSingleInstruction] at hok
    exact liftStoreInstruction_exact h hok
  | lui =>
    obtain ⟨_, -, hok⟩ := bind_eq_ok.mp hok
    obtain ⟨_, -, hok⟩ := bind_eq_ok.mp hok
    cases hok
    exact (h.constant _ _).write _ _
  | auipc =>
    obtain ⟨_, -, hok⟩ := bind_eq_ok.mp hok
    obtain ⟨_, -, hok⟩ := bind_eq_ok.mp hok
    cases hok
    exact (((h.constant _ _).constant _ _).address _ _).write _ _
  | xor | xori | srl | srli => cases hop
  | _ => cases hok

theorem createConditionalBranch_exact {terminator : Terminator} {fallThrough : BitVec 64}
    (hop : opcode ≠ .xor ∧ opcode ≠ .shr)
    (hok : l.createConditionalBranch opcode inst fallThrough = .ok (terminator, l')) : Exact l' := by
  obtain ⟨_, -, hok⟩ := bind_eq_ok.mp hok
  obtain ⟨_, -, hok⟩ := bind_eq_ok.mp hok
  obtain ⟨_, -, hok⟩ := bind_eq_ok.mp hok
  cases hok
  exact ((h.read _).read _).binaryOp hop _ _ _

theorem liftTerminator_exact {terminator : Terminator} {fallThrough : BitVec 64}
    (hok : l.liftTerminator inst fallThrough = .ok (terminator, l')) : Exact l' := by
  obtain ⟨op, operands, raw, address⟩ := inst
  cases op with
  | beq | bne | blt | bge | bltu | bgeu => exact createConditionalBranch_exact h (by simp) hok
  | jal =>
    obtain ⟨_, -, hok⟩ := bind_eq_ok.mp hok
    obtain ⟨_, -, hok⟩ := bind_eq_ok.mp hok
    cases hok
    exact (h.constant _ _).write _ _
  | jalr =>
    obtain ⟨rd, -, hok⟩ := bind_eq_ok.mp hok
    obtain ⟨rs1, -, hok⟩ := bind_eq_ok.mp hok
    obtain ⟨imm, -, hok⟩ := bind_eq_ok.mp hok
    by_cases hret : rd = REG_ZERO ∧ rs1 = REG_RA ∧ imm = 0#64
    · rw [if_pos hret] at hok
      cases hok
      exact h
    · rw [if_neg hret] at hok
      let r₁ := l.getRegisterValue rs1
      let r₂ := r₁.2.createConstant .i64 imm
      let r₃ := r₂.2.createBinaryOp .add .i64 r₁.1 r₂.1
      let r₄ := r₃.2.createConstant .i64 JALR_ALIGN_MASK
      let r₅ := r₄.2.createBinaryOp .and .i64 r₃.1 r₄.1
      let r₆ := r₅.2.createConstant .i64 (address + 4#64)
      have e₅ : Exact r₅.2 :=
        ((((h.read _).constant _ _).address _ _).constant _ _).binaryOp (by simp) _ _ _
      have e₆ : Exact (if rd ≠ REG_ZERO then r₆.2.setRegisterValue rd r₆.1 else r₅.2) := by
        split
        · exact (e₅.constant _ _).write _ _
        · exact e₅
      have heq : (Terminator.ret (some r₅.1),
          if rd ≠ REG_ZERO then r₆.2.setRegisterValue rd r₆.1 else r₅.2) = (terminator, l') :=
        Except.ok.inj hok
      rw [← (Prod.mk.inj heq).2]
      exact e₆
  | _ => cases hok

omit h

theorem liftInstructions_exact {instructions : List RiscV.Instruction}
    {terminator terminator' : Terminator} (h : Exact l)
    (hops : ∀ i ∈ instructions, i.opcode.isExact = true)
    (hok : liftInstructions order instructions terminator l = .ok (terminator', l')) : Exact l' := by
  induction instructions generalizing l with
  | nil =>
    cases hok
    exact h
  | cons inst rest ih =>
    obtain ⟨hinst, hrest⟩ := List.forall_mem_cons.mp hops
    cases ht : isTerminator inst with
    | true =>
      rw [liftInstructions_transfer ht] at hok
      exact liftTerminator_exact (Exact.writes _ h) hok
    | false =>
      rw [liftInstructions_cons ht] at hok
      obtain ⟨l₁, hok₁, hok⟩ := bind_eq_ok.mp hok
      exact ih (liftSingleInstruction_exact h hinst hok₁) hrest hok

theorem liftBasicBlock_exact {instructions : List RiscV.Instruction} {block : BasicBlock}
    (hops : ∀ i ∈ instructions, i.opcode.isExact = true)
    (hok : liftBasicBlock order instructions l = .ok (block, l')) :
    ∀ inst ∈ block.instructions, inst.kind.Exact := by
  rw [liftBasicBlock_eq] at hok
  obtain ⟨⟨terminator, l₁⟩, hok₁, hok⟩ := bind_eq_ok.mp hok
  have h₁ : Exact l₁ := liftInstructions_exact (l := l.cleared) (fun _ hi => by cases hi) hops hok₁
  have hfinal : Exact (l₁.finalizeRegisterWrites order) := Exact.writes _ h₁
  dsimp only at hok
  split at hok
  · cases hok
    exact hfinal
  · split at hok
    · cases hok
      exact hfinal
    · cases hok
      exact h₁

end

end Lifter

end DinoRisc
