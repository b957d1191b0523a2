import DinoRisc.Lifter.BranchShape
import DinoRisc.Lowering.SelectorCorrect

/-!
Register allocation keeps the meaning of lifted blocks, but for those whose branch loses an operand to
one of its constants.
-/

namespace DinoRisc

open Arm64 IR RiscV InstructionSelector LivenessAnalysis RegisterAllocator

namespace Lifter

variable {order : List ℕ → List ℕ} {body instructions : List RiscV.Instruction}
  {inst : RiscV.Instruction} {l l' : Lifter} {block : BasicBlock} {rs1 rs2 : ℕ} {offset : BitVec 64}
  {condition : ValueId} {trueBlock falseBlock : BitVec 64}

theorem format_of_liftTerminator {fallThrough : BitVec 64}
    (h : l.liftTerminator inst fallThrough = .ok (.condBranch condition trueBlock falseBlock, l')) :
    inst.opcode.format = .b := by
  obtain ⟨op, operands, raw, address⟩ := inst
  cases op with
  | beq | bne | blt | bge | bltu | bgeu => rfl
  | jal =>
    obtain ⟨rd, -, h⟩ := bind_eq_ok.mp h
    obtain ⟨imm, -, h⟩ := bind_eq_ok.mp h
    cases h
  | jalr =>
    obtain ⟨rd, -, h⟩ := bind_eq_ok.mp h
    obtain ⟨rs1, -, h⟩ := bind_eq_ok.mp h
    obtain ⟨imm, -, h⟩ := bind_eq_ok.mp h
    split at h <;> cases h
  | _ => cases h

/-- Only a list that ends in a conditional branch is lifted to one. -/
theorem exists_branch (hsup : ∀ i ∈ instructions, i.Supported)
    (hlast : ∀ i ∈ instructions.dropLast, i.opcode.isControlTransfer = false)
    (hlift : liftBasicBlock order instructions l = .ok (block, l'))
    (hterm : block.terminator = .condBranch condition trueBlock falseBlock) :
    ∃ body inst, instructions = body ++ [inst] ∧ (∀ i ∈ body, Liftable i) ∧
      inst.opcode.format = .b := by
  have hbody := straightPart_liftable hsup
  rcases straightPart_cases hlast with hpart | ⟨inst, hsplit, ht⟩
  · rw [hpart] at hbody
    obtain ⟨l₁, heq, -⟩ := liftInstructions_coherent order hbody (coherent_cleared l)
    have hok := heq [] (.branch 0#64)
    rw [List.append_nil, liftInstructions] at hok
    rw [liftBasicBlock_eq, hok] at hlift
    cases hlast? : instructions.getLast? with
    | none =>
      rw [hlast?] at hlift
      cases hlift
      cases hterm
    | some last =>
      have hnot := (hbody last (List.mem_of_getLast? hlast?)).not_isTerminator
      simp only [hlast?, hnot, Except.bind, Bool.not_false, if_true] at hlift
      cases hlift
      cases hterm
  · refine ⟨_, inst, hsplit, hbody, ?_⟩
    obtain ⟨l₁, heq, -⟩ := liftInstructions_coherent order hbody (coherent_cleared l)
    have hok := heq [inst] (.branch 0#64)
    rw [← hsplit, liftInstructions_transfer ht] at hok
    rw [liftBasicBlock_eq, hok, hsplit] at hlift
    simp only [List.getLast?_concat, ht, Bool.not_true, Bool.false_eq_true, if_false] at hlift
    obtain ⟨⟨terminator, l₂⟩, hok', hlift⟩ := bind_eq_ok.mp hlift
    cases hlift
    subst hterm
    exact format_of_liftTerminator hok'

/-- A constant of the branch takes the register of one operand, and the other operand, which is another
value, can then be given the same one. -/
def LosesOperand (body : List RiscV.Instruction) (rs1 rs2 : ℕ) : Prop :=
  (rs1 ≠ rs2 ∨ rs1 = 0) ∧ (surplus body = 1 ∧ 1 ≤ branchFetches body rs1 rs2 ∨
    surplus body = 3 ∧ branchFetches body rs1 rs2 = 1)

instance (body : List RiscV.Instruction) (rs1 rs2 : ℕ) : Decidable (LosesOperand body rs1 rs2) :=
  inferInstanceAs (Decidable (_ ∧ _))

/-- What is asked of a list of instructions that ends in a conditional branch. -/
def KeepsOperands (instructions : List RiscV.Instruction) : Prop :=
  ∀ body inst rs1 rs2 offset, instructions = body ++ [inst] → inst.opcode.format = .b →
    inst.operands = [.register rs1, .register rs2, .immediate offset] → ¬ LosesOperand body rs1 rs2

theorem keepsOperands_of_branch (body : List RiscV.Instruction)
    (hops : inst.operands = [.register rs1, .register rs2, .immediate offset])
    (h : ¬ LosesOperand body rs1 rs2) : KeepsOperands (body ++ [inst]) := by
  intro body' inst' rs1' rs2' offset' hsplit _ hops'
  obtain ⟨rfl, hinst⟩ := List.append_inj' hsplit rfl
  cases hinst
  cases hops.symm.trans hops'
  exact h

theorem keepsOperands_of_ne (h : ∀ inst ∈ instructions.getLast?, inst.opcode.format ≠ .b) :
    KeepsOperands instructions := by
  rintro body inst rs1 rs2 offset rfl hformat -
  exact absurd hformat (h inst (by simp))

theorem valueId_eq {instructions before after : List IR.Instruction} {i : IR.Instruction}
    (hids : instructions.map (·.valueId) = List.range' 1 instructions.length)
    (hsplit : instructions = before ++ i :: after) : i.valueId = before.length + 1 := by
  have hlength : before.length < instructions.length := by
    rw [hsplit, List.length_append, List.length_cons]
    omega
  have hget := congrArg (·[before.length]?) hids
  simp only [hsplit, List.map_append, List.map_cons] at hget
  rw [List.getElem?_append_right (by simp), List.length_map, Nat.sub_self] at hget
  rw [← hsplit, List.getElem?_range' hlength] at hget
  exact (Option.some.inj hget).trans (by rw [Nat.one_mul, Nat.add_comm])

namespace EndsInBranch

variable {front fetched fetched' : List IR.Instruction} {compareOp : BinaryOpcode}
  {lhs rhs condition : ℕ} {s : RegisterAllocator} {code straight : Code} {σ : InstructionSelector}

theorem compatible
    (h : EndsInBranch body rs1 rs2 block front fetched fetched' compareOp lhs rhs condition)
    (hkeeps : ¬ LosesOperand body rs1 rs2) (hblock : block.WellTyped)
    (hselect : InstructionSelector.init.selectInstructions block = .ok (code, σ))
    (hscan : allocateIntervals (computeLiveIntervals code) RegisterAllocator.init = some s)
    (halloc : Allocates s (computeLiveIntervals code)) (hcode : code = straight ++ selectRet) :
    Compatible s.registerOf {.physical (.x 0)} straight := by
  obtain ⟨before, ending, heq, hbefore, -, hending⟩ := selectInstructions_shape hblock hselect
  obtain rfl := List.append_cancel_right (hcode.symm.trans heq)
  have hemitted := List.forall_mem_append.mpr ⟨hbefore.emitted, hending.emitted⟩
  by_cases hspares : SparesOperands block
  · exact compatible_of_spares hblock hspares hselect halloc _ hcode
  rw [h.spares_iff, not_not] at hspares
  obtain ⟨trueBlock, falseBlock, hterm⟩ := h.terminator
  have hinsts := h.instructions
  have hconstant := h.constantId_add
  have hcondition : condition = block.instructions.length := h.condition_eq
  have hlength := h.length
  have hsurplus := surplus_le body
  have hdest := h.destinations_le
  have hids := h.ids
  have hnone (hlow : constantId block.instructions ≤ front.length)
      (hhigh : 3 ≤ surplus body) :
      constantId block.instructions ∉ valueIds block.instructions := by
    rw [h.mem_valueIds (by omega)]
    exact fun hmem => absurd hmem.1 (Nat.not_lt.mpr hlow)
  have hsame (heq : rs1 = rs2) (hne : rs1 ≠ 0) : fetches (rs1 :: body.flatMap names) rs2 = 0 := by
    simp [fetches, ← heq, hne]
  rw [LosesOperand, not_and_or, not_or, not_not] at hkeeps
  rcases h.fetchesLhs with ⟨rfl, hfirst⟩ | ⟨kind, rfl, hkind, hfirst⟩ <;>
    rcases h.fetchesRhs with ⟨rfl, hsecond⟩ | ⟨kind', rfl, hkind', hsecond⟩ <;>
    rw [branchFetches, hfirst, hsecond] at hspares hkeeps hlength
  · omega
  · rcases hkeeps with ⟨heq, hne⟩ | hkeeps
    · rw [hsame heq hne] at hsecond
      cases hsecond
    · omega
  · rcases hkeeps with ⟨heq, hne⟩ | hkeeps
    · obtain rfl := h.same heq hne
      rw [List.append_nil] at hinsts
      have hlhs : lhs = front.length + 1 := valueId_eq hids (by simpa using hinsts)
      refine compatible_of_one hblock hterm hinsts h.comparison hkind ?_ hselect halloc hcode hemitted
      rcases hspares with hspares | hspares
      · refine .inl ⟨?_, ?_⟩ <;> omega
      · exact .inr ⟨hnone (by omega) (by omega), by omega⟩
    · omega
  · rcases hkeeps with ⟨heq, hne⟩ | hkeeps
    · rw [hsame heq hne] at hsecond
      cases hsecond
    · have hlhs : lhs = front.length + 1 := valueId_eq hids (by simpa using hinsts)
      have hrhs : rhs = front.length + 2 := by
        have hsplit : block.instructions = (front ++ [⟨lhs, kind⟩]) ++
            ⟨rhs, kind'⟩ :: [⟨condition, .binaryOp compareOp .i1 lhs rhs⟩] := by
          simpa using hinsts
        simpa using valueId_eq hids hsplit
      have hne : lhs ≠ rhs ∧ lhs ≠ condition ∧ rhs ≠ condition := by omega
      refine compatible_of_two hblock hterm hinsts h.comparison hkind hkind' hne ?_ hselect hscan halloc
        hcode hemitted
      rcases hspares with hspares | hspares
      · by_cases htwo : surplus body = 2
        · refine .inl ⟨?_, ?_⟩ <;> omega
        · omega
      · refine .inr ⟨hnone (by omega) (by omega), ?_⟩
        omega

end EndsInBranch

end Lifter

section

variable {order : List ℕ → List ℕ} {instructions : List RiscV.Instruction}
  (horder : ∀ rs, (order rs).Perm rs) (hsup : ∀ i ∈ instructions, i.Supported)
  (hlast : ∀ i ∈ instructions.dropLast, i.opcode.isControlTransfer = false)
  (hkeeps : Lifter.KeepsOperands instructions)

include horder hsup hlast hkeeps

theorem compatible_of_keeps {l : Lifter} {block : BasicBlock} {code : Code}
    {σ : InstructionSelector} {s : RegisterAllocator}
    (hlift : Lifter.init.liftBasicBlock order instructions = .ok (block, l)) (hblock : block.WellTyped)
    (hselect : InstructionSelector.init.selectInstructions block = .ok (code, σ))
    (hscan : allocateIntervals (computeLiveIntervals code) RegisterAllocator.init = some s)
    (halloc : Allocates s (computeLiveIntervals code)) (straight : Code)
    (hcode : code = straight ++ selectRet) :
    Compatible s.registerOf {.physical (.x 0)} straight := by
  by_cases hbranch : ∃ c t f, block.terminator = .condBranch c t f
  · obtain ⟨c, t, f, hterm⟩ := hbranch
    obtain ⟨body, inst, rfl, hbody, hformat⟩ := Lifter.exists_branch hsup hlast hlift hterm
    have hshaped := (hsup inst (by simp)).operands
    rw [hformat] at hshaped
    obtain ⟨rs1, rs2, offset, hops⟩ : ∃ rs1 rs2 offset,
        inst.operands = [.register rs1, .register rs2, .immediate offset] := by
      cases hinst : inst.operands with
      | nil =>
        rw [hinst] at hshaped
        cases hshaped
      | cons op ops =>
        rw [hinst] at hshaped
        cases hshaped
        exact ⟨_, _, _, rfl⟩
    obtain ⟨front, fetched, fetched', compareOp, lhs, rhs, condition, h⟩ :=
      Lifter.liftBasicBlock_branch_shape horder hbody hformat hops hlift
    exact h.compatible (hkeeps body inst rs1 rs2 offset rfl hformat hops) hblock hselect hscan halloc
      hcode
  · push Not at hbranch
    exact compatible_of_spares hblock (sparesOperands_of_ne hbranch) hselect halloc straight hcode

/-- Register allocation keeps the meaning of every list of instructions that keeps the operands of its
branch. -/
theorem allocateRegisters_lifted :
    ∃ block l code σ, Lifter.init.liftBasicBlock order instructions = .ok (block, l) ∧
      InstructionSelector.init.selectInstructions block = .ok (code, σ) ∧
      ∀ final, allocateRegisters code (computeLiveIntervals code) = .ok (true, final) → ∀ m,
        ∃ n n', run code m = some (n, m.reg (.physical (.x 30))) ∧
          run final m = some (n', m.reg (.physical (.x 30))) ∧
          n'.reg (.physical (.x 0)) = n.reg (.physical (.x 0)) ∧ n'.mem = n.mem := by
  obtain ⟨block, l, hlift, hblock⟩ := Lifter.liftBasicBlock_wellTyped horder .init hsup hlast
  obtain ⟨code, σ, hselect⟩ := selectInstructions_ok hblock
  refine ⟨block, l, code, σ, hlift, hselect, ?_⟩
  intro final hok m
  refine run_allocated hblock hselect hok ?_ m
  intro s hscan halloc
  exact compatible_of_keeps horder hsup hlast hkeeps hlift hblock hselect hscan halloc

end

/-! ### Two examples -/

/-- `addi x6, x6, 1` -/
def addiSix : RiscV.Instruction :=
  ⟨.addi, [.register 6, .register 6, .immediate ((1#12).signExtend 64)], 0x00130313#32, 0x1004#64⟩

/-- `beq x1, x2, 8` -/
def beqAfter : RiscV.Instruction :=
  ⟨.beq, [.register 1, .register 2, .immediate ((4#12 ++ 0#1).signExtend 64)], 0x00208463#32, 0x1008#64⟩

theorem addis_keep : Lifter.KeepsOperands ([Lifter.addiFive, addiSix] ++ [beqAfter]) :=
  Lifter.keepsOperands_of_branch _ rfl (by decide)

theorem addis_supported : ∀ i ∈ [Lifter.addiFive, addiSix] ++ [beqAfter], i.Supported := by
  simp only [List.cons_append, List.nil_append, List.forall_mem_cons, List.not_mem_nil, false_imp_iff,
    implies_true, and_true]
  exact ⟨⟨rfl, .i (by decide) (by decide) 1#12⟩, ⟨rfl, .i (by decide) (by decide) 1#12⟩,
    ⟨rfl, .b (by decide) (by decide) 4#12⟩⟩

/-- Both constants of the branch take registers of its operands, without harm. -/
theorem allocateRegisters_lifted_addis : ∃ block l code σ final,
    Lifter.init.liftBasicBlock id ([Lifter.addiFive, addiSix] ++ [beqAfter]) = .ok (block, l) ∧
      InstructionSelector.init.selectInstructions block = .ok (code, σ) ∧
      allocateRegisters code (computeLiveIntervals code) = .ok (true, final) ∧ ∀ m,
        ∃ n n', run code m = some (n, m.reg (.physical (.x 30))) ∧
          run final m = some (n', m.reg (.physical (.x 30))) ∧
          n'.reg (.physical (.x 0)) = n.reg (.physical (.x 0)) ∧ n'.mem = n.mem := by
  obtain ⟨block, l, code, σ, hlift, hselect, hall⟩ :=
    allocateRegisters_lifted (fun rs => List.Perm.refl (id rs)) addis_supported (by decide) addis_keep
  obtain ⟨rfl, -⟩ := Prod.mk.inj (Except.ok.inj hlift)
  obtain ⟨rfl, -⟩ := Prod.mk.inj (Except.ok.inj hselect)
  exact ⟨_, _, _, _, _, hlift, hselect, rfl, hall _ rfl⟩

/-- With one `addi` before the branch, the second operand is loaded into the register of the first one:
the branch is taken after the allocation, and not taken before. -/
theorem allocateRegisters_beqNext : ∃ block l code σ final n n',
    Lifter.init.liftBasicBlock id ([Lifter.addiFive] ++ [Lifter.beqNext]) = .ok (block, l) ∧
      InstructionSelector.init.selectInstructions block = .ok (code, σ) ∧
      allocateRegisters code (computeLiveIntervals code) = .ok (true, final) ∧
      run code hostMachine = some (n, 0x100003F00#64) ∧
      run final hostMachine = some (n', 0x100003F00#64) ∧
      n.reg (.physical (.x 0)) = 0x1008#64 ∧ n'.reg (.physical (.x 0)) = 0x100C#64 := by
  refine ⟨_, _, _, _, _, _, _, rfl, rfl, rfl, rfl, rfl, ?_, ?_⟩
  · decide +kernel
  · decide +kernel

end DinoRisc
