import DinoRisc.Lifter.Shape
import DinoRisc.Lowering.Selection

/-! Lifted blocks are in SSA form, and the selector accepts them. -/

namespace DinoRisc.Lifter

open IR RiscV

variable {order : List ℕ → List ℕ} {body rest instructions : List RiscV.Instruction} {l l' : Lifter}
  {inst : RiscV.Instruction} {block : BasicBlock}

/-- Ids increase, operands are produced before they are used, every guest register is read at most
once and not after its write, and the destinations of `instructions` are written once. -/
structure Formed (instructions : List RiscV.Instruction) (block : BasicBlock) : Prop where
  ids : block.instructions.Pairwise fun i j => i.valueId < j.valueId
  operands : ∀ before inst after, block.instructions = before ++ inst :: after →
    ∀ id ∈ inst.kind.operands, ∃ ty, Produces before id ty
  terminator : ∀ id ∈ block.terminator.operands, ∃ ty, Produces block.instructions id ty
  registers : ∀ inst ∈ block.instructions, ∀ r, inst.kind.register = some r → 1 ≤ r ∧ r ≤ 31
  reads : ∀ before inst after r, block.instructions = before ++ inst :: after →
    inst.kind = .regRead r → ∀ other ∈ before, other.kind.register ≠ some r
  writtenOnce : (writes block.instructions).Nodup
  written : ∀ r, r ∈ writes block.instructions ↔
    r ≠ 0 ∧ ∃ i ∈ instructions, isTerminator i = false ∧ destination i = some r

theorem mem_straightPart_iff
    (hlast : ∀ i ∈ instructions.dropLast, i.opcode.isControlTransfer = false) :
    inst ∈ straightPart instructions ↔ inst ∈ instructions ∧ isTerminator inst = false := by
  constructor
  · intro h
    exact ⟨(List.takeWhile_prefix _).subset h, by simpa using List.mem_takeWhile_imp h⟩
  · rintro ⟨hmem, hnot⟩
    rcases straightPart_cases hlast with hpart | ⟨t, hsplit, ht⟩
    · rwa [hpart]
    · rw [hsplit, List.mem_append, List.mem_singleton] at hmem
      rcases hmem with hmem | rfl
      · exact hmem
      · rw [hnot] at ht
        cases ht

theorem formed (horder : ∀ rs, (order rs).Perm rs) (l : Lifter)
    (hsup : ∀ i ∈ instructions, i.Supported)
    (hlast : ∀ i ∈ instructions.dropLast, i.opcode.isControlTransfer = false)
    (h : liftBasicBlock order instructions l = .ok (block, l')) :
    Formed instructions block ∧ Coherent l' ∧ block.instructions = l'.currentInstructions := by
  obtain ⟨_, _, hok, hinsts, hcoherent, hnodup, hmem⟩ := liftBasicBlock_coherent horder l hsup hlast
  cases h.symm.trans hok
  obtain ⟨_, _, hok', Γ, htyped, hterm⟩ := liftBasicBlock_wellTyped horder l hsup hlast
  cases h.symm.trans hok'
  refine ⟨?_, hcoherent, hinsts⟩
  constructor
  · rw [hinsts]
    exact hcoherent.ordered.imp fun h => h.1
  · intro before inst after hsplit
    rw [hsplit] at htyped
    exact htyped.operands_produced
  · intro id hid
    obtain ⟨ty, hty⟩ := hterm.operands_typed id hid
    rcases htyped.produces hty with hnone | hproduces
    · cases hnone
    · exact ⟨ty, hproduces⟩
  · intro inst hinst r hr
    rw [hinsts] at hinst
    obtain ⟨hpos, hlt, -⟩ := hcoherent.registers inst hinst r hr
    exact ⟨hpos, Nat.le_of_lt_succ hlt⟩
  · intro before inst after r hsplit hread other hother
    have hordered := hcoherent.ordered
    rw [← hinsts, hsplit, List.pairwise_append] at hordered
    exact (hordered.2.2 other hother inst List.mem_cons_self).2 r hread
  · exact hnodup
  · intro r
    rw [hmem]
    simp only [mem_straightPart_iff hlast, and_assoc]

theorem isSupported_of_lifted (h : l.liftSingleInstruction inst = .ok l') :
    inst.opcode.isSupported = true := by
  unfold liftSingleInstruction at h
  cases hop : inst.opcode <;> rw [hop] at h <;> first
    | rfl
    | cases h

theorem liftInstructions_supported {terminator : Terminator} {result : Terminator × Lifter}
    (hbody : ∀ i ∈ body, isTerminator i = false)
    (h : liftInstructions order (body ++ rest) terminator l = .ok result) :
    ∀ i ∈ body, i.opcode.isSupported = true := by
  induction body generalizing l with
  | nil => simp
  | cons inst body ih =>
    rw [List.cons_append, liftInstructions_cons (hbody inst List.mem_cons_self)] at h
    cases hok : l.liftSingleInstruction inst with
    | error e =>
      rw [hok] at h
      cases h
    | ok l₁ =>
      rw [hok] at h
      intro i hi
      rcases List.mem_cons.mp hi with rfl | hi
      · exact isSupported_of_lifted hok
      · exact ih (fun j hj => hbody j (List.mem_cons_of_mem inst hj)) h i hi

theorem supported_of_lifted (hshaped : ∀ i ∈ instructions, Shaped i.opcode.format i.operands)
    (hlast : ∀ i ∈ instructions.dropLast, i.opcode.isControlTransfer = false)
    (h : liftBasicBlock order instructions l = .ok (block, l')) :
    ∀ i ∈ instructions, i.Supported := by
  have hok : ∃ result, liftInstructions order instructions (.branch 0#64) l.cleared = .ok result := by
    rw [liftBasicBlock_eq] at h
    cases hlift : liftInstructions order instructions (.branch 0#64) l.cleared with
    | error e =>
      rw [hlift] at h
      cases h
    | ok result => exact ⟨result, rfl⟩
  obtain ⟨result, hok⟩ := hok
  have hpart : ∀ i ∈ straightPart instructions, isTerminator i = false := fun i hi =>
    ((mem_straightPart_iff hlast).mp hi).2
  intro i hi
  refine ⟨?_, hshaped i hi⟩
  cases ht : isTerminator i with
  | true =>
    rw [isTerminator_eq] at ht
    simp [Opcode.isSupported, ht]
  | false =>
    have hsplit : straightPart instructions ++ instructions.dropWhile (fun i => !isTerminator i) =
        instructions := List.takeWhile_append_dropWhile
    rw [← hsplit] at hok
    exact liftInstructions_supported hpart hok i ((mem_straightPart_iff hlast).mpr ⟨hi, ht⟩)

/-- Every block that the lifter accepts is well formed, the registers that it caches hold 64-bit
values after each instruction and at the end, and the selector accepts it. -/
theorem liftBasicBlock_formed (horder : ∀ rs, (order rs).Perm rs) (l : Lifter)
    (hshaped : ∀ i ∈ instructions, Shaped i.opcode.format i.operands)
    (hlast : ∀ i ∈ instructions.dropLast, i.opcode.isControlTransfer = false)
    (h : liftBasicBlock order instructions l = .ok (block, l')) :
    Formed instructions block ∧
      (∀ r id, l'.cachedRegisterValues r = some id → Produces block.instructions id .i64) ∧
      (∀ before after terminator l₁, straightPart instructions = before ++ after →
        liftInstructions order before (.branch 0#64) l.cleared = .ok (terminator, l₁) →
        ∀ r id, l₁.cachedRegisterValues r = some id → Produces l₁.currentInstructions id .i64) ∧
      ∃ code σ, InstructionSelector.init.selectInstructions block = .ok (code, σ) := by
  have hsup := supported_of_lifted hshaped hlast h
  obtain ⟨hformed, hcoherent, hinsts⟩ := formed horder l hsup hlast h
  refine ⟨hformed, ?_, ?_, ?_⟩
  · rw [hinsts]
    exact hcoherent.cached
  · intro before after terminator l₁ hsplit hlift
    have hbefore : ∀ i ∈ before, Liftable i := fun i hi =>
      straightPart_liftable hsup i (by rw [hsplit]; exact List.mem_append_left after hi)
    obtain ⟨l₂, heq, h₂, -, -⟩ := liftInstructions_coherent order hbefore (coherent_cleared l)
    have hlift' := heq [] (.branch 0#64)
    rw [List.append_nil, hlift, liftInstructions] at hlift'
    cases hlift'
    exact h₂.cached
  · obtain ⟨_, _, hok, hblock⟩ := liftBasicBlock_wellTyped horder l hsup hlast
    cases h.symm.trans hok
    exact InstructionSelector.selectInstructions_ok hblock

def addThree : RiscV.Instruction :=
  ⟨.add, [.register 3, .register 1, .register 2], 0#32, 0x1000#64⟩

theorem liftBasicBlock_formed_add :
    ∃ block l', liftBasicBlock id [addThree] init = .ok (block, l') ∧ Formed [addThree] block ∧
      (∀ r id, l'.cachedRegisterValues r = some id → Produces block.instructions id .i64) ∧
      ∃ code σ, InstructionSelector.init.selectInstructions block = .ok (code, σ) := by
  have hshaped : ∀ i ∈ [addThree], Shaped i.opcode.format i.operands := by
    intro i hi
    obtain rfl := List.mem_singleton.mp hi
    exact .r (by decide) (by decide) (by decide)
  have h := liftBasicBlock_formed (fun rs => List.Perm.refl (id rs)) init hshaped (by simp) rfl
  exact ⟨_, _, rfl, h.1, h.2.1, h.2.2.2⟩

end DinoRisc.Lifter
