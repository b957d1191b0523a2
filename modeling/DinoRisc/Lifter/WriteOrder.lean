import DinoRisc.Lifter.Shape

/-!
The order in which a block's registers are written: it decides the order of the `regWrite`s, and
nothing else.
-/

namespace DinoRisc.Lifter

open IR RiscV

variable {order₁ order₂ : List ℕ → List ℕ} {body instructions : List RiscV.Instruction}
  {inst : RiscV.Instruction} {l : Lifter} {pre : List IR.Instruction} {r : ℕ}

/-- The lifter with `pre` in front of its instructions. -/
def under (pre : List IR.Instruction) (l : Lifter) : Lifter :=
  { l with currentInstructions := pre ++ l.currentInstructions }

theorem addInstruction_under (kind : InstructionKind) : (l.under pre).addInstruction kind =
    ((l.addInstruction kind).1, (l.addInstruction kind).2.under pre) := by
  simp [addInstruction, under]

theorem setRegisterValue_under (r : ℕ) (id : ValueId) :
    (l.under pre).setRegisterValue r id = (l.setRegisterValue r id).under pre := by
  unfold setRegisterValue
  split <;> rfl

theorem getRegisterValue_under (r : ℕ) : (l.under pre).getRegisterValue r =
    ((l.getRegisterValue r).1, (l.getRegisterValue r).2.under pre) := by
  unfold getRegisterValue
  split
  · apply addInstruction_under
  · cases hcached : l.cachedRegisterValues r with
    | none => simp only [under, hcached, addInstruction, List.append_assoc]
    | some id => simp only [under, hcached]

theorem createConditionalBranch_under (compareOp : BinaryOpcode) (fallThrough : BitVec 64) :
    (l.under pre).createConditionalBranch compareOp inst fallThrough =
      (l.createConditionalBranch compareOp inst fallThrough).map fun r => (r.1, r.2.under pre) := by
  simp only [createConditionalBranch, createBinaryOp, bind, Except.bind, getRegisterValue_under,
    addInstruction_under]
  cases inst.getRegister 0 with
  | error e => rfl
  | ok rs1 =>
    cases inst.getRegister 1 with
    | error e => rfl
    | ok rs2 =>
      cases inst.getImmediate 2 with
      | error e => rfl
      | ok imm =>
        rfl

theorem liftTerminator_under (fallThrough : BitVec 64) :
    (l.under pre).liftTerminator inst fallThrough =
      (l.liftTerminator inst fallThrough).map fun r => (r.1, r.2.under pre) := by
  simp only [liftTerminator]
  cases inst.opcode
  case beq | bne | blt | bge | bltu | bgeu => apply createConditionalBranch_under
  case jal =>
    simp only [createConstant, addInstruction_under, bind, Except.bind]
    cases inst.getRegister 0 with
    | error e => rfl
    | ok rd =>
      cases inst.getImmediate 1 with
      | error e => rfl
      | ok imm =>
        simp only [setRegisterValue_under]
        rfl
  case jalr =>
    simp only [bind, Except.bind]
    cases inst.getRegister 0 with
    | error e => rfl
    | ok rd =>
      cases inst.getRegister 1 with
      | error e => rfl
      | ok rs1 =>
        cases inst.getImmediate 2 with
        | error e => rfl
        | ok imm =>
          dsimp only
          split
          · rfl
          · simp only [getRegisterValue_under, createConstant, createBinaryOp, addInstruction_under]
            split
            · simp only [setRegisterValue_under]
              rfl
            · rfl
  all_goals rfl

/-! ### The writes -/

/-- The writes of the registers, with consecutive ids. -/
def registerWrites (cached : ℕ → Option ValueId) : ValueId → List ℕ → List IR.Instruction
  | _, [] => []
  | id, r :: rs => ⟨id, .regWrite r ((cached r).getD 0)⟩ :: registerWrites cached (id + 1) rs

theorem registerWrites_kind (cached : ℕ → Option ValueId) (id : ValueId) (rs : List ℕ) :
    (registerWrites cached id rs).map (·.kind) =
      rs.map fun r => .regWrite r ((cached r).getD 0) := by
  induction rs generalizing id with
  | nil => rfl
  | cons r rs ih => simp [registerWrites, ih]

/-- The lifter after its writes, without instructions. -/
def finished (l : Lifter) : Lifter where
  nextValueId := l.nextValueId + l.modifiedRegisters.length
  cachedRegisterValues := l.cachedRegisterValues
  modifiedRegisters := l.modifiedRegisters
  currentInstructions := []

theorem foldl_regWrite (rs : List ℕ) (l : Lifter) :
    rs.foldl (fun l regNum =>
        (l.addInstruction (.regWrite regNum ((l.cachedRegisterValues regNum).getD 0))).2) l =
      { l with
        nextValueId := l.nextValueId + rs.length
        currentInstructions :=
          l.currentInstructions ++ registerWrites l.cachedRegisterValues l.nextValueId rs } := by
  induction rs generalizing l with
  | nil => simp [registerWrites]
  | cons r rs ih =>
    rw [List.foldl_cons, ih]
    simp [addInstruction, registerWrites, Nat.add_right_comm _ 1, Nat.add_assoc]

theorem finalizeRegisterWrites_under {order : List ℕ → List ℕ} (horder : ∀ rs, (order rs).Perm rs)
    (l : Lifter) : l.finalizeRegisterWrites order = l.finished.under (l.currentInstructions ++
      registerWrites l.cachedRegisterValues l.nextValueId (order l.modifiedRegisters)) := by
  rw [finalizeRegisterWrites, foldl_regWrite, (horder _).length_eq]
  simp [finished, under]

/-- Blocks with the same register writes, in different orders. -/
inductive Reordered : BasicBlock → BasicBlock → Prop
  | intro {before writes writes' after : List IR.Instruction} {terminator : Terminator}
    (hperm : (writes.map (·.kind)).Perm (writes'.map (·.kind)))
    (hwrites : ∀ kind ∈ writes.map (·.kind), ∃ r id, kind = .regWrite r id ∧ r < 32)
    (hdistinct : (Lifter.writes writes).Nodup) :
    Reordered ⟨before ++ writes ++ after, terminator⟩ ⟨before ++ writes' ++ after, terminator⟩

theorem liftInstructions_order (order₁ order₂ : List ℕ → List ℕ)
    (hbody : ∀ i ∈ body, isTerminator i = false) (t : Terminator) (l : Lifter) :
    liftInstructions order₁ body t l = liftInstructions order₂ body t l := by
  induction body generalizing l with
  | nil => rfl
  | cons inst body ih =>
    have hinst := hbody inst List.mem_cons_self
    rw [liftInstructions_cons hinst, liftInstructions_cons hinst]
    congr 1
    funext l'
    apply ih
    intro i hi
    exact hbody i (List.mem_cons_of_mem inst hi)

theorem writes_registerWrites (cached : ℕ → Option ValueId) (id : ValueId) (rs : List ℕ) :
    writes (registerWrites cached id rs) = rs := by
  induction rs generalizing id with
  | nil => rfl
  | cons r rs ih => exact congrArg (r :: ·) (ih (id + 1))

theorem reordered_of_finalized (horder₁ : ∀ rs, (order₁ rs).Perm rs)
    (horder₂ : ∀ rs, (order₂ rs).Perm rs) (h : Coherent l) (after : List IR.Instruction)
    (terminator : Terminator) :
    Reordered
      ⟨l.currentInstructions ++ registerWrites l.cachedRegisterValues l.nextValueId
        (order₁ l.modifiedRegisters) ++ after, terminator⟩
      ⟨l.currentInstructions ++ registerWrites l.cachedRegisterValues l.nextValueId
        (order₂ l.modifiedRegisters) ++ after, terminator⟩ := by
  have hperm := (horder₁ l.modifiedRegisters).trans (horder₂ l.modifiedRegisters).symm
  apply Reordered.intro
  · rw [registerWrites_kind, registerWrites_kind]
    exact hperm.map _
  · intro kind hkind
    rw [registerWrites_kind] at hkind
    obtain ⟨r, hr, rfl⟩ := List.mem_map.mp hkind
    exact ⟨r, _, rfl, (h.modified r ((horder₁ _).mem_iff.mp hr)).2.1⟩
  · rw [writes_registerWrites]
    exact (horder₁ _).nodup_iff.mpr h.nodup

/-- The order does not matter for whether a block is lifted, and only the writes depend on it. -/
theorem liftBasicBlock_reordered (horder₁ : ∀ rs, (order₁ rs).Perm rs)
    (horder₂ : ∀ rs, (order₂ rs).Perm rs) (l : Lifter) (hsup : ∀ i ∈ instructions, i.Supported)
    (hlast : ∀ i ∈ instructions.dropLast, i.opcode.isControlTransfer = false) :
    ∃ block₁ l₁ block₂ l₂, liftBasicBlock order₁ instructions l = .ok (block₁, l₁) ∧
      liftBasicBlock order₂ instructions l = .ok (block₂, l₂) ∧ Reordered block₁ block₂ := by
  have hbody := straightPart_liftable hsup
  obtain ⟨l₁, heq₁, h₁, -, -⟩ := liftInstructions_coherent order₁ hbody (coherent_cleared l)
  obtain ⟨l₂, heq₂, -, -, -⟩ := liftInstructions_coherent order₂ hbody (coherent_cleared l)
  obtain rfl : l₁ = l₂ := by
    have hone := heq₁ [] (.branch 0#64)
    have htwo := heq₂ [] (.branch 0#64)
    rw [List.append_nil] at hone htwo
    have hstraight : ∀ i ∈ straightPart instructions, isTerminator i = false := fun i hi =>
      (hbody i hi).not_isTerminator
    rw [liftInstructions_order order₁ order₂ hstraight] at hone
    have hboth : Except.ok (Terminator.branch 0#64, l₁) = .ok (.branch 0#64, l₂) :=
      hone.symm.trans htwo
    cases hboth
    rfl
  have hreordered (after : List IR.Instruction) (terminator : Terminator) :=
    reordered_of_finalized horder₁ horder₂ h₁ after terminator
  have hfinal₁ := finalizeRegisterWrites_under horder₁ l₁
  have hfinal₂ := finalizeRegisterWrites_under horder₂ l₁
  rcases straightPart_cases hlast with hpart | ⟨t, hsplit, ht⟩
  · have hlift₁ := heq₁ [] (.branch 0#64)
    have hlift₂ := heq₂ [] (.branch 0#64)
    rw [List.append_nil, hpart, liftInstructions] at hlift₁ hlift₂
    rw [liftBasicBlock_eq, liftBasicBlock_eq, hlift₁, hlift₂]
    cases hl : instructions.getLast? with
    | none =>
      simp only [Except.bind, hfinal₁, hfinal₂]
      exact ⟨_, _, _, _, rfl, rfl, hreordered [] _⟩
    | some last =>
      have hlast : isTerminator last = false := by
        have hin := List.mem_of_getLast? hl
        rw [← hpart] at hin
        exact (hbody last hin).not_isTerminator
      simp only [Except.bind, hlast, Bool.not_false, if_true, hfinal₁, hfinal₂]
      exact ⟨_, _, _, _, rfl, rfl, hreordered [] _⟩
  · have hlift₁ := heq₁ [t] (.branch 0#64)
    have hlift₂ := heq₂ [t] (.branch 0#64)
    have hsupt : t.Supported := hsup t (by rw [hsplit]; simp)
    obtain ⟨terminator, l', rs, hok, -⟩ := liftTerminator_extends (l := l₁.finished)
      (fallThroughAddress t []) ((isTerminator_eq t).symm.trans ht) hsupt.operands
    have hl : instructions.getLast? = some t := by rw [hsplit]; simp
    rw [← hsplit, liftInstructions_transfer ht, hfinal₁, liftTerminator_under, hok] at hlift₁
    rw [← hsplit, liftInstructions_transfer ht, hfinal₂, liftTerminator_under, hok] at hlift₂
    rw [liftBasicBlock_eq, liftBasicBlock_eq, hlift₁, hlift₂, hl]
    simp only [Except.map, Except.bind, ht, Bool.not_true, Bool.false_eq_true, if_false]
    exact ⟨_, _, _, _, rfl, rfl, hreordered l'.currentInstructions terminator⟩

end DinoRisc.Lifter
