import DinoRisc.Lifter.Terminator

/-!
The constants and branch targets that a lifted instruction puts in the IR, against the immediate
that the ISA reads from the instruction word.
-/

namespace DinoRisc.Lifter

open IR RiscV

variable {l l' : Lifter} {inst : RiscV.Instruction} {order : List ℕ → List ℕ}

/-- The instructions of a block other than the register writes at its end. -/
def computed (instructions : List IR.Instruction) : List IR.Instruction :=
  instructions.filter fun i => match i.kind with
    | .regWrite .. => false
    | _ => true

def constantOf (instructions : List IR.Instruction) (id : ValueId) : Option (BitVec 64) :=
  instructions.findSome? fun i => match i.kind with
    | .const _ value => if i.valueId = id then some value else none
    | _ => none

def firstOperands (instructions : List IR.Instruction) : Option (ValueId × ValueId) :=
  instructions.findSome? fun i => match i.kind with
    | .binaryOp _ _ lhs rhs => some (lhs, rhs)
    | _ => none

/-- The number that the lifter made from the immediate: the target of a branch or of `jal`, the
constant of `lui`, the sum of the two constants of `auipc`, and otherwise the constant on the right
of the first binary operation. -/
def placedImmediate (op : RiscV.Opcode) (added : List IR.Instruction) (terminator : Terminator) :
    Option (BitVec 64) :=
  match op with
  | .beq | .bne | .blt | .bge | .bltu | .bgeu =>
    match terminator with
    | .condBranch _ trueBlock _ => some trueBlock
    | _ => none
  | .jal =>
    match terminator with
    | .branch targetBlock => some targetBlock
    | _ => none
  | .lui => added.head?.bind fun i => constantOf added i.valueId
  | .auipc => do
    let (lhs, rhs) ← firstOperands added
    let pc ← constantOf added lhs
    let imm ← constantOf added rhs
    some (pc + imm)
  | _ => do
    let (_, rhs) ← firstOperands added
    constantOf added rhs

/-- The number that the ISA defines for the word `w` of an instruction at `pc`. -/
def IsaImmediate (w : BitVec 32) (pc : BitVec 64) (op : RiscV.Opcode) (k : BitVec 64) : Prop :=
  match op with
  | .slli | .srli | .srai => k.toInt % 64 = (w.extractLsb' 20 6).toNat
  | .slliw | .srliw | .sraiw => k.toInt % 32 = (w.extractLsb' 20 5).toNat
  | .sb | .sh | .sw | .sd => k = (w.extractLsb' 25 7 ++ w.extractLsb' 7 5).signExtend 64
  | .beq | .bne | .blt | .bge | .bltu | .bgeu =>
    k = pc + (w.extractLsb' 31 1 ++ w.extractLsb' 7 1 ++ w.extractLsb' 25 6 ++ w.extractLsb' 8 4 ++
      0#1).signExtend 64
  | .jal =>
    k = pc + (w.extractLsb' 31 1 ++ w.extractLsb' 12 8 ++ w.extractLsb' 20 1 ++
      w.extractLsb' 21 10 ++ 0#1).signExtend 64
  | .lui => k = (w &&& 0xFFFFF000#32).signExtend 64
  | .auipc => k = pc + (w &&& 0xFFFFF000#32).signExtend 64
  | _ => k = (w.extractLsb' 20 12).signExtend 64

/-- The lifted instruction carries the immediate of the ISA; a return needs none. -/
def ImmediateAgrees (w : BitVec 32) (pc : BitVec 64) (inst : RiscV.Instruction)
    (added : List IR.Instruction) (terminator : Terminator) : Prop :=
  match placedImmediate inst.opcode added terminator with
  | some k => IsaImmediate w pc inst.opcode k
  | none => IsReturn inst

/-! ### What one instruction adds to the block -/

theorem firstOperands_append (is js : List IR.Instruction) :
    firstOperands (is ++ js) = (firstOperands is).or (firstOperands js) := List.findSome?_append

theorem constantOf_append (is js : List IR.Instruction) (id : ValueId) :
    constantOf (is ++ js) id = (constantOf is id).or (constantOf js id) := List.findSome?_append

@[simp] theorem setRegisterValue_instructions (regNum : ℕ) (valueId : ValueId) (l : Lifter) :
    (l.setRegisterValue regNum valueId).currentInstructions = l.currentInstructions := by
  unfold setRegisterValue
  split <;> rfl

theorem getRegisterValue_added (regNum : ℕ) (l : Lifter) :
    ∃ id l₁ read, l.getRegisterValue regNum = (id, l₁) ∧
      l₁.currentInstructions = l.currentInstructions ++ read ∧ l.nextValueId ≤ l₁.nextValueId ∧
      computed read = read ∧ firstOperands read = none ∧
      ∀ id, l₁.nextValueId ≤ id → constantOf read id = none := by
  unfold getRegisterValue
  split
  · refine ⟨_, _, [⟨l.nextValueId, .const .i64 0#64⟩], rfl, rfl, Nat.le_succ _, rfl, rfl,
      fun id hid => ?_⟩
    have hne : l.nextValueId ≠ id := Nat.ne_of_lt hid
    simp [constantOf, hne]
  · split
    · exact ⟨_, _, [], rfl, by simp, le_rfl, rfl, rfl, fun _ _ => rfl⟩
    · exact ⟨_, _, [⟨l.nextValueId, .regRead regNum⟩], rfl, rfl, Nat.le_succ _, rfl, rfl,
        fun _ _ => rfl⟩

/-- `l'` is `l` with instructions that carry the number `k` for the immediate of `op`. -/
def Places (op : RiscV.Opcode) (k : BitVec 64) (l l' : Lifter) : Prop :=
  ∃ added, l'.currentInstructions = l.currentInstructions ++ added ∧ computed added = added ∧
    ∀ terminator, placedImmediate op added terminator = some k

def hasOperandImmediate (op : RiscV.Opcode) : Bool :=
  (op.isStraightLine || op = .jalr) && (op.format = .i || op.format = .s)

theorem placedImmediate_operand {op : RiscV.Opcode} (hop : hasOperandImmediate op = true)
    {read mid after : List IR.Instruction} {n id : ValueId} {ty ty' : Ty} {k : BitVec 64}
    {opcode : BinaryOpcode} {lhs : ValueId} (hread : firstOperands read = none)
    (hconst : constantOf read n = none) (hmid : firstOperands mid = none) (terminator : Terminator) :
    placedImmediate op (read ++ ⟨n, .const ty k⟩ :: (mid ++ ⟨id, .binaryOp opcode ty' lhs n⟩ :: after))
      terminator = some k := by
  have hplaced : ∀ added, placedImmediate op added terminator =
      (firstOperands added).bind fun p => constantOf added p.2 := by
    intro added
    cases op <;> first | rfl | cases hop
  have hfirst : firstOperands (⟨n, .const ty k⟩ :: (mid ++ ⟨id, .binaryOp opcode ty' lhs n⟩ :: after)) =
      some (lhs, n) := by
    change firstOperands (mid ++ _) = _
    rw [firstOperands_append, hmid]
    rfl
  rw [hplaced, firstOperands_append, hread, hfirst, Option.none_or, Option.bind_some,
    constantOf_append, hconst]
  simp [constantOf]

theorem computed_append (is js : List IR.Instruction) :
    computed (is ++ js) = computed is ++ computed js := List.filter_append ..

theorem places_operand {op : RiscV.Opcode} (hop : hasOperandImmediate op = true)
    {read mid after : List IR.Instruction} {n id : ValueId} {ty ty' : Ty} {k : BitVec 64}
    {opcode : BinaryOpcode} {lhs : ValueId} (hread : firstOperands read = none)
    (hconst : constantOf read n = none) (hmid : firstOperands mid = none)
    (hcomp : computed read = read) (hcomp' : computed mid = mid) (hcomp'' : computed after = after)
    (hcur : l'.currentInstructions = l.currentInstructions ++
      (read ++ ⟨n, .const ty k⟩ :: (mid ++ ⟨id, .binaryOp opcode ty' lhs n⟩ :: after))) :
    Places op k l l' := by
  refine ⟨_, hcur, ?_, placedImmediate_operand hop hread hconst hmid⟩
  have hcons : ∀ rest, computed (⟨n, .const ty k⟩ :: rest) = ⟨n, .const ty k⟩ :: computed rest :=
    fun _ => rfl
  have hcons' : ∀ rest, computed (⟨id, .binaryOp opcode ty' lhs n⟩ :: rest) =
      ⟨id, .binaryOp opcode ty' lhs n⟩ :: computed rest := fun _ => rfl
  rw [computed_append, hcomp, hcons, computed_append, hcomp', hcons', hcomp'']

section

variable {rd rs1 rs2 : ℕ} {imm : BitVec 64}

theorem liftITypeBinaryOp_places (opcode : BinaryOpcode)
    (hop : hasOperandImmediate inst.opcode = true)
    (hops : inst.operands = [.register rd, .register rs1, .immediate imm])
    (hok : l.liftITypeBinaryOp inst opcode .i64 = .ok l') : Places inst.opcode imm l l' := by
  obtain ⟨id, l₁, read, hget, hcur, -, hcomp, hfirst, hconst⟩ := getRegisterValue_added rs1 l
  simp only [liftITypeBinaryOp, RiscV.Instruction.getRegister, RiscV.Instruction.getImmediate, hops,
    List.getElem?_cons_zero, List.getElem?_cons_succ] at hok
  cases hok
  rw [hget]
  have hadded : l₁.currentInstructions ++ [⟨l₁.nextValueId, .const .i64 imm⟩] ++
      [⟨l₁.nextValueId + 1, .binaryOp opcode .i64 id l₁.nextValueId⟩] =
      l.currentInstructions ++ (read ++ ⟨l₁.nextValueId, .const .i64 imm⟩ ::
        ([] ++ ⟨l₁.nextValueId + 1, .binaryOp opcode .i64 id l₁.nextValueId⟩ :: [])) := by
    simp [hcur]
  exact places_operand hop hfirst (hconst _ le_rfl) rfl hcomp rfl rfl
    ((setRegisterValue_instructions _ _ _).trans hadded)

theorem liftWTypeImmOp_places (opcode : BinaryOpcode)
    (hop : hasOperandImmediate inst.opcode = true)
    (hops : inst.operands = [.register rd, .register rs1, .immediate imm])
    (hok : l.liftWTypeImmOp inst opcode = .ok l') : Places inst.opcode imm l l' := by
  obtain ⟨id, l₁, read, hget, hcur, -, hcomp, hfirst, hconst⟩ := getRegisterValue_added rs1 l
  simp only [liftWTypeImmOp, RiscV.Instruction.getRegister, RiscV.Instruction.getImmediate, hops,
    List.getElem?_cons_zero, List.getElem?_cons_succ] at hok
  cases hok
  rw [hget]
  have hadded : l₁.currentInstructions ++ [⟨l₁.nextValueId, .const .i32 imm⟩] ++
      [⟨l₁.nextValueId + 1, .trunc .i32 id⟩] ++
      [⟨l₁.nextValueId + 1 + 1, .binaryOp opcode .i32 (l₁.nextValueId + 1) l₁.nextValueId⟩] ++
      [⟨l₁.nextValueId + 1 + 1 + 1, .sext .i64 (l₁.nextValueId + 1 + 1)⟩] =
      l.currentInstructions ++ (read ++ ⟨l₁.nextValueId, .const .i32 imm⟩ ::
        ([⟨l₁.nextValueId + 1, .trunc .i32 id⟩] ++
        ⟨l₁.nextValueId + 1 + 1, .binaryOp opcode .i32 (l₁.nextValueId + 1) l₁.nextValueId⟩ ::
        [⟨l₁.nextValueId + 1 + 1 + 1, .sext .i64 (l₁.nextValueId + 1 + 1)⟩])) := by
    simp [hcur]
  exact places_operand hop hfirst (hconst _ le_rfl) rfl hcomp rfl rfl
    ((setRegisterValue_instructions _ _ _).trans hadded)

theorem address_places (id : ValueId) {l₁ : Lifter} {read : List IR.Instruction}
    (after : List IR.Instruction)
    (hop : hasOperandImmediate inst.opcode = true) (hread : firstOperands read = none)
    (hconst : constantOf read l₁.nextValueId = none) (hcomp : computed read = read)
    (hcomp' : computed after = after)
    (hcur : l₁.currentInstructions = l.currentInstructions ++ read)
    (hcur' : l'.currentInstructions = l₁.currentInstructions ++ [⟨l₁.nextValueId, .const .i64 imm⟩] ++
      [⟨l₁.nextValueId + 1, .binaryOp .add .i64 id l₁.nextValueId⟩] ++ after) :
    Places inst.opcode imm l l' := by
  have hadded : l'.currentInstructions = l.currentInstructions ++ (read ++
      ⟨l₁.nextValueId, .const .i64 imm⟩ ::
        ([] ++ ⟨l₁.nextValueId + 1, .binaryOp .add .i64 id l₁.nextValueId⟩ :: after)) := by
    rw [hcur', hcur]
    simp
  exact places_operand hop hread hconst rfl hcomp rfl hcomp' hadded

theorem liftLoadInstruction_places (ty : Ty) (sign : Bool)
    (hop : hasOperandImmediate inst.opcode = true)
    (hops : inst.operands = [.register rd, .register rs1, .immediate imm])
    (hok : l.liftLoadInstruction inst ty sign = .ok l') : Places inst.opcode imm l l' := by
  obtain ⟨id, l₁, read, hget, hcur, -, hcomp, hfirst, hconst⟩ := getRegisterValue_added rs1 l
  simp only [liftLoadInstruction, RiscV.Instruction.getRegister, RiscV.Instruction.getImmediate, hops,
    List.getElem?_cons_zero, List.getElem?_cons_succ] at hok
  by_cases hty : ty = .i64
  · simp only [hty] at hok
    cases hok
    rw [hget]
    exact address_places id [⟨l₁.nextValueId + 1 + 1, .load .i64 (l₁.nextValueId + 1)⟩] hop
      hfirst (hconst _ le_rfl) hcomp rfl hcur (setRegisterValue_instructions _ _ _)
  · simp only [ne_eq, hty, not_false_eq_true, if_true] at hok
    cases sign with
    | true =>
      simp only [if_true] at hok
      cases hok
      rw [hget]
      exact address_places id ([⟨l₁.nextValueId + 1 + 1, .load ty (l₁.nextValueId + 1)⟩] ++
          [⟨l₁.nextValueId + 1 + 1 + 1, .sext .i64 (l₁.nextValueId + 1 + 1)⟩]) hop
        hfirst (hconst _ le_rfl) hcomp rfl hcur
        (by simp [createSext, createLoad, createBinaryOp, createConstant, addInstruction])
    | false =>
      simp only [Bool.false_eq_true, if_false] at hok
      cases hok
      rw [hget]
      exact address_places id ([⟨l₁.nextValueId + 1 + 1, .load ty (l₁.nextValueId + 1)⟩] ++
          [⟨l₁.nextValueId + 1 + 1 + 1, .zext .i64 (l₁.nextValueId + 1 + 1)⟩]) hop
        hfirst (hconst _ le_rfl) hcomp rfl hcur
        (by simp [createZext, createLoad, createBinaryOp, createConstant, addInstruction])

theorem liftStoreInstruction_places (ty : Ty) (hop : hasOperandImmediate inst.opcode = true)
    (hops : inst.operands = [.register rs1, .register rs2, .immediate imm])
    (hok : l.liftStoreInstruction inst ty = .ok l') : Places inst.opcode imm l l' := by
  obtain ⟨id, l₁, read, hget, hcur, -, hcomp, hfirst, hconst⟩ := getRegisterValue_added rs1 l
  obtain ⟨id₂, l₂, read₂, hget₂, hcur₂, hle, hcomp₂, hfirst₂, hconst₂⟩ := getRegisterValue_added rs2 l₁
  simp only [liftStoreInstruction, RiscV.Instruction.getRegister, RiscV.Instruction.getImmediate, hops,
    List.getElem?_cons_zero, List.getElem?_cons_succ] at hok
  have hread : firstOperands (read ++ read₂) = none := by
    rw [firstOperands_append, hfirst, hfirst₂]
    rfl
  have hconst' : constantOf (read ++ read₂) l₂.nextValueId = none := by
    rw [constantOf_append, hconst _ hle, hconst₂ _ le_rfl]
    rfl
  have hcomp' : computed (read ++ read₂) = read ++ read₂ := by rw [computed_append, hcomp, hcomp₂]
  have hcur' : l₂.currentInstructions = l.currentInstructions ++ (read ++ read₂) := by
    rw [hcur₂, hcur, List.append_assoc]
  by_cases hty : ty = .i64
  · simp only [hty] at hok
    cases hok
    rw [hget, hget₂]
    exact address_places id [⟨l₂.nextValueId + 1 + 1, .store id₂ (l₂.nextValueId + 1)⟩] hop
      hread hconst' hcomp' rfl hcur' rfl
  · simp only [ne_eq, hty, not_false_eq_true, if_true] at hok
    cases hok
    rw [hget, hget₂]
    exact address_places id ([⟨l₂.nextValueId + 1 + 1, .trunc ty id₂⟩] ++
        [⟨l₂.nextValueId + 1 + 1 + 1, .store (l₂.nextValueId + 1 + 1) (l₂.nextValueId + 1)⟩]) hop
      hread hconst' hcomp' rfl hcur'
      (by simp [createStore, createTrunc, createBinaryOp, createConstant, addInstruction])

end

/-- The number that the lifter makes from the word `w`. -/
def liftedImmediate (w : BitVec 32) (pc : BitVec 64) (op : RiscV.Opcode) : BitVec 64 :=
  match op.format with
  | .i => (w.extractLsb' 20 12).signExtend 64
  | .s => (Decoder.sPieces w).signExtend 64
  | .b => pc + (Decoder.bPieces w ++ 0#1).signExtend 64
  | .u =>
    let imm := (w.extractLsb' 12 20 ++ 0#12).signExtend 64 <<< 12
    if op = .auipc then pc + imm else imm
  | .j => pc + (Decoder.jPieces w ++ 0#1).signExtend 64
  | _ => 0#64

theorem liftSingleInstruction_places {w : BitVec 32} (hi : Liftable inst)
    (hformat : inst.opcode.format ≠ .r) (hops : inst.operands = inst.opcode.format.operands w)
    (hok : l.liftSingleInstruction inst = .ok l') :
    Places inst.opcode (liftedImmediate w inst.address inst.opcode) l l' := by
  obtain ⟨hop, -⟩ := hi
  obtain ⟨opcode, operands, raw, address⟩ := inst
  dsimp only at hop hformat hops
  subst hops
  cases opcode with
  | addi => exact liftITypeBinaryOp_places .add rfl rfl hok
  | andi => exact liftITypeBinaryOp_places .and rfl rfl hok
  | ori => exact liftITypeBinaryOp_places .or rfl rfl hok
  | xori => exact liftITypeBinaryOp_places .xor rfl rfl hok
  | slli => exact liftITypeBinaryOp_places .shl rfl rfl hok
  | srli => exact liftITypeBinaryOp_places .shr rfl rfl hok
  | srai => exact liftITypeBinaryOp_places .sar rfl rfl hok
  | slti => exact liftITypeBinaryOp_places .lt rfl rfl hok
  | sltiu => exact liftITypeBinaryOp_places .ltU rfl rfl hok
  | addiw => exact liftWTypeImmOp_places .add rfl rfl hok
  | slliw => exact liftWTypeImmOp_places .shl rfl rfl hok
  | lb => exact liftLoadInstruction_places .i8 true rfl rfl hok
  | lh => exact liftLoadInstruction_places .i16 true rfl rfl hok
  | lw => exact liftLoadInstruction_places .i32 true rfl rfl hok
  | lwu => exact liftLoadInstruction_places .i32 false rfl rfl hok
  | ld => exact liftLoadInstruction_places .i64 false rfl rfl hok
  | sd => exact liftStoreInstruction_places .i64 rfl rfl hok
  | sw => exact liftStoreInstruction_places .i32 rfl rfl hok
  | lui =>
    cases hok
    refine ⟨[⟨l.nextValueId, .const .i64 _⟩], setRegisterValue_instructions _ _ _, rfl,
      fun terminator => ?_⟩
    simp [placedImmediate, constantOf, liftedImmediate, Opcode.format]
  | auipc =>
    cases hok
    refine ⟨[⟨l.nextValueId, .const .i64 address⟩,
        ⟨l.nextValueId + 1, .const .i64 ((w.extractLsb' 12 20 ++ 0#12).signExtend 64 <<< 12)⟩,
        ⟨l.nextValueId + 1 + 1, .binaryOp .add .i64 l.nextValueId (l.nextValueId + 1)⟩],
      (setRegisterValue_instructions _ _ _).trans ?_, rfl, fun terminator => ?_⟩
    · simp
    · simp [placedImmediate, firstOperands, constantOf, liftedImmediate, Opcode.format]
  | _ => first | (cases hop; done) | exact absurd rfl hformat

theorem createConditionalBranch_places {rs1 rs2 : ℕ} {imm fallThrough : BitVec 64}
    {compareOp : BinaryOpcode} {terminator : Terminator}
    (hops : inst.operands = [.register rs1, .register rs2, .immediate imm])
    (hok : l.createConditionalBranch compareOp inst fallThrough = .ok (terminator, l')) :
    (∃ condition, terminator = .condBranch condition (inst.address + imm) fallThrough) ∧
      ∃ added, l'.currentInstructions = l.currentInstructions ++ added ∧ computed added = added := by
  obtain ⟨id, l₁, read, hget, hcur, -, hcomp, -⟩ := getRegisterValue_added rs1 l
  obtain ⟨id₂, l₂, read₂, hget₂, hcur₂, -, hcomp₂, -⟩ := getRegisterValue_added rs2 l₁
  simp only [createConditionalBranch, RiscV.Instruction.getRegister,
    RiscV.Instruction.getImmediate, hops, List.getElem?_cons_zero, List.getElem?_cons_succ] at hok
  cases hok
  rw [hget, hget₂]
  refine ⟨⟨_, rfl⟩, read ++ read₂ ++ [⟨l₂.nextValueId, .binaryOp compareOp .i1 id id₂⟩], ?_, ?_⟩
  · simp [createBinaryOp, addInstruction, hcur, hcur₂]
  · rw [computed_append, computed_append, hcomp, hcomp₂]
    rfl

theorem liftJalr_places {rd rs1 : ℕ} {imm fallThrough : BitVec 64} {terminator : Terminator}
    (hop : inst.opcode = .jalr)
    (hops : inst.operands = [.register rd, .register rs1, .immediate imm])
    (hok : l.liftTerminator inst fallThrough = .ok (terminator, l')) :
    ∃ added, l'.currentInstructions = l.currentInstructions ++ added ∧ computed added = added ∧
      placedImmediate inst.opcode added terminator = if IsReturn inst then none else some imm := by
  have hret : IsReturn inst ↔ rd = REG_ZERO ∧ rs1 = REG_RA ∧ imm = 0#64 := by
    simp [IsReturn, hop, hops, REG_ZERO, REG_RA]
  obtain ⟨id, l₁, read, hget, hcur, -, hcomp, hfirst, hconst⟩ := getRegisterValue_added rs1 l
  simp only [liftTerminator, hop, RiscV.Instruction.getRegister, RiscV.Instruction.getImmediate, hops,
    List.getElem?_cons_zero, List.getElem?_cons_succ, bind, Except.bind] at hok
  by_cases h : rd = REG_ZERO ∧ rs1 = REG_RA ∧ imm = 0#64
  · rw [if_pos h] at hok
    cases hok
    refine ⟨[], by simp, rfl, ?_⟩
    rw [if_pos (hret.mpr h), hop]
    rfl
  · rw [if_neg h] at hok
    rw [if_neg (mt hret.mp h)]
    have hplaces : Places inst.opcode imm l l' := by
      by_cases hrd : rd = REG_ZERO
      · rw [if_neg (not_not.mpr hrd)] at hok
        cases hok
        rw [hget]
        exact address_places id ([⟨l₁.nextValueId + 1 + 1, .const .i64 JALR_ALIGN_MASK⟩] ++
            [⟨l₁.nextValueId + 1 + 1 + 1, .binaryOp .and .i64 (l₁.nextValueId + 1)
              (l₁.nextValueId + 1 + 1)⟩])
          (by rw [hop]; rfl) hfirst (hconst _ le_rfl) hcomp rfl hcur
          (by simp [createBinaryOp, createConstant, addInstruction])
      · rw [if_pos hrd] at hok
        cases hok
        rw [hget]
        exact address_places id ([⟨l₁.nextValueId + 1 + 1, .const .i64 JALR_ALIGN_MASK⟩] ++
            [⟨l₁.nextValueId + 1 + 1 + 1, .binaryOp .and .i64 (l₁.nextValueId + 1)
              (l₁.nextValueId + 1 + 1)⟩] ++
            [⟨l₁.nextValueId + 1 + 1 + 1 + 1, .const .i64 (inst.address + 4#64)⟩])
          (by rw [hop]; rfl) hfirst (hconst _ le_rfl) hcomp rfl hcur
          (by simp [createBinaryOp, createConstant, addInstruction])
    obtain ⟨added, hadded, hcomp', hplaced⟩ := hplaces
    exact ⟨added, hadded, hcomp', hplaced terminator⟩

theorem liftTerminator_places {w : BitVec 32} (hop : inst.opcode.isControlTransfer = true)
    (hops : inst.operands = inst.opcode.format.operands w) {fallThrough : BitVec 64}
    {terminator : Terminator} (hok : l.liftTerminator inst fallThrough = .ok (terminator, l')) :
    ∃ added, l'.currentInstructions = l.currentInstructions ++ added ∧ computed added = added ∧
      placedImmediate inst.opcode added terminator =
        if IsReturn inst then none else some (liftedImmediate w inst.address inst.opcode) := by
  obtain ⟨opcode, operands, raw, address⟩ := inst
  dsimp only at hop hops
  subst hops
  have hnot : ∀ {op : RiscV.Opcode}, op ≠ .jalr → ¬ IsReturn ⟨op, op.format.operands w, raw, address⟩ :=
    fun hne hret => hne hret.1
  cases opcode with
  | jalr => exact liftJalr_places rfl rfl hok
  | jal =>
    cases hok
    refine ⟨[⟨l.nextValueId, .const .i64 (address + 4#64)⟩], setRegisterValue_instructions _ _ _, rfl, ?_⟩
    rw [if_neg (hnot (by simp))]
    rfl
  | beq | bne | blt | bge | bltu | bgeu =>
    obtain ⟨⟨condition, rfl⟩, added, hcur, hcomp⟩ := createConditionalBranch_places rfl hok
    refine ⟨added, hcur, hcomp, ?_⟩
    rw [if_neg (hnot (by simp))]
    rfl
  | _ => cases hop

/-! ### The block -/

theorem finalizeRegisterWrites_computed (l : Lifter) :
    computed (l.finalizeRegisterWrites order).currentInstructions = computed l.currentInstructions := by
  unfold finalizeRegisterWrites
  generalize order l.modifiedRegisters = rs
  induction rs generalizing l with
  | nil => rfl
  | cons r rs ih =>
    rw [List.foldl_cons, ih]
    change computed (l.currentInstructions ++ [⟨_, .regWrite r _⟩]) = _
    rw [computed_append]
    exact List.append_nil _

theorem shift_upper_eq_iff (x : BitVec 20) :
    (x ++ 0#12).signExtend 64 <<< 12 = (x ++ 0#12).signExtend 64 ↔ x = 0#20 := by
  constructor
  · intro h
    have hupper : ∀ j, j < 32 → ((x ++ 0#12).signExtend 64).getLsbD j =
        (decide (12 ≤ j) && x.getLsbD (j - 12)) := by
      intro j hj
      rw [BitVec.getLsbD_signExtend, BitVec.getLsbD_append]
      by_cases hj' : j < 12
      · simp [hj', hj]
      · simp [hj', hj, show j < 64 by omega, show 12 ≤ j by omega]
    have hbit : ∀ i, i < 20 → x.getLsbD i = (decide (12 ≤ i) && x.getLsbD (i - 12)) := by
      intro i hi
      have hi' := congrArg (fun v => v.getLsbD (i + 12)) h
      simp only [BitVec.getLsbD_shiftLeft] at hi'
      rw [Nat.add_sub_cancel, hupper i (by omega), hupper (i + 12) (by omega),
        Nat.add_sub_cancel] at hi'
      simpa [show i + 12 < 64 by omega] using hi'.symm
    apply BitVec.eq_of_getLsbD_eq
    intro i hi
    rw [BitVec.getLsbD_zero, hbit i hi]
    by_cases h12 : 12 ≤ i
    · simp [hbit (i - 12) (by omega), show ¬ 12 ≤ i - 12 by omega]
    · simp [h12]
  · rintro rfl
    decide

/-- The lifted immediate is the one of the ISA except for a nonzero upper immediate. -/
theorem isaImmediate_lifted (w : BitVec 32) (pc : BitVec 64) {op : RiscV.Opcode}
    (hsup : op.isSupported = true) (hformat : op.format ≠ .r) :
    IsaImmediate w pc op (liftedImmediate w pc op) ↔
      (op.isUpperImmediate = true → w.extractLsb' 12 20 = 0#20) := by
  have hu : (w &&& 0xFFFFF000#32).signExtend 64 = (w.extractLsb' 12 20 ++ 0#12).signExtend 64 :=
    Decoder.uTypeImmediate_eq w
  have hshift : ∀ k, k ≤ 12 → ((w.extractLsb' 20 12).signExtend 64).toInt % 2 ^ k =
      (w.extractLsb' 20 k).toNat := by
    intro k hk
    rw [Decoder.signExtend_mod_low _ k hk, BitField.extract_extract _ _ _ _ _ (by omega)]
  cases op with
  | lui =>
    simp only [IsaImmediate, liftedImmediate, Opcode.format, Opcode.isUpperImmediate, hu]
    simpa using shift_upper_eq_iff _
  | auipc =>
    simp only [IsaImmediate, liftedImmediate, Opcode.format, Opcode.isUpperImmediate, hu, if_true]
    simpa using shift_upper_eq_iff _
  | slli | srli | srai =>
    exact ⟨fun _ h => absurd h (by decide), fun _ => hshift 6 (by omega)⟩
  | slliw => exact ⟨fun _ h => absurd h (by decide), fun _ => hshift 5 (by omega)⟩
  | addi | slti | sltiu | xori | ori | andi | addiw | jalr | lb | lh | lw | ld | lwu | sw | sd | beq
    | bne | blt | bge | bltu | bgeu | jal => exact ⟨fun _ h => absurd h (by decide), fun _ => rfl⟩
  | _ => first | (cases hsup; done) | exact absurd rfl hformat

/-- The immediate that the block of `before ++ [inst]` carries for its last instruction. -/
theorem lifted_immediate_iff (horder : ∀ rs, (order rs).Perm rs) (l : Lifter)
    {before : List RiscV.Instruction} (hbefore : ∀ i ∈ before, Liftable i)
    {data : List (BitVec 8)} {offset : ℕ} {w : BitVec 32} {pc : BitVec 64}
    (hw : Decoder.Holds data offset w) (hdec : Decoder.decode data offset pc = .ok inst)
    (hsup : inst.opcode.isSupported = true) (hformat : inst.opcode.format ≠ .r) :
    ∃ block l' beforeBlock l'' added,
      liftBasicBlock order (before ++ [inst]) l = .ok (block, l') ∧
      liftBasicBlock order before l = .ok (beforeBlock, l'') ∧
      computed block.instructions = computed beforeBlock.instructions ++ added ∧
      (ImmediateAgrees w pc inst added block.terminator ↔
        (inst.opcode.isUpperImmediate = true → w.extractLsb' 12 20 = 0#20)) := by
  rw [Decoder.decode_holds hw] at hdec
  obtain ⟨hops, haddr⟩ := Decoder.decodeWord_operands hdec
  have hshaped : Shaped inst.opcode.format inst.operands := hops ▸ Format.operands_shaped w _
  have hagrees := isaImmediate_lifted w pc hsup hformat
  subst haddr
  obtain ⟨g₁, hsteps⟩ := steps_unrestricted hbefore ⟨fun _ => 0#64, fun _ => 0#8⟩
  obtain ⟨l₁, h₁, heq⟩ := liftInstructions_follows order hbefore
    (inBody_cleared unrestricted _ l) hsteps
  -- the block of the instructions before `inst`
  obtain ⟨beforeBlock, l'', hok, hcomp⟩ : ∃ beforeBlock l'',
      liftBasicBlock order before l = .ok (beforeBlock, l'') ∧
        computed beforeBlock.instructions = computed l₁.currentInstructions := by
    have hlift := heq [] (.branch 0#64)
    rw [List.append_nil, liftInstructions] at hlift
    rw [liftBasicBlock_eq, hlift]
    cases hlast : before.getLast? with
    | none => exact ⟨_, _, rfl, finalizeRegisterWrites_computed l₁⟩
    | some last =>
      have hi := hbefore last (List.mem_of_getLast? hlast)
      simp only [Except.bind, hi.not_isTerminator, Bool.not_false, if_true]
      exact ⟨_, _, rfl, finalizeRegisterWrites_computed l₁⟩
  have hlast : (before ++ [inst]).getLast? = some inst := by simp
  have hlift := heq [inst] (.branch 0#64)
  cases hterm : isTerminator inst with
  | false =>
    have hi : Liftable inst := .of_supported ⟨hsup, hshaped⟩ hterm
    obtain ⟨g', hstep⟩ := hi.step g₁
    obtain ⟨l₂, hsingle, -⟩ := liftSingleInstruction_follows hi h₁ hstep
    obtain ⟨added, hcur, hadded, hplaced⟩ := liftSingleInstruction_places hi hformat hops hsingle
    rw [liftInstructions_cons hterm, hsingle] at hlift
    refine ⟨⟨(l₂.finalizeRegisterWrites order).currentInstructions, .branch (inst.address + 4#64)⟩,
      l₂.finalizeRegisterWrites order, beforeBlock, l'', added, ?_, hok, ?_, ?_⟩
    · rw [liftBasicBlock_eq, hlift, hlast]
      simp [Except.bind, liftInstructions, hterm]
    · rw [finalizeRegisterWrites_computed, hcur, computed_append, hadded, hcomp]
    · rw [ImmediateAgrees, hplaced]
      exact hagrees
  | true =>
    have hop := (isTerminator_eq inst).symm.trans hterm
    obtain ⟨terminator, l₂, hlt, -⟩ := liftTerminator_ends (inst.address + 4#64) hop hshaped
      (h₁.settle horder)
    obtain ⟨added, hcur, hadded, hplaced⟩ := liftTerminator_places hop hops hlt
    rw [liftInstructions_transfer hterm, fallThroughAddress, hlt] at hlift
    refine ⟨⟨l₂.currentInstructions, terminator⟩, l₂, beforeBlock, l'', added, ?_, hok, ?_, ?_⟩
    · rw [liftBasicBlock_eq, hlift, hlast]
      simp [Except.bind, hterm]
    · rw [hcur, computed_append, finalizeRegisterWrites_computed, hadded, hcomp]
    · rw [ImmediateAgrees, hplaced]
      by_cases hret : IsReturn inst
      · have hnot : inst.opcode.isUpperImmediate ≠ true := by simp [hret.1, Opcode.isUpperImmediate]
        simp [hret, hnot]
      · rw [if_neg hret]
        exact hagrees

/-- `addi x1, x1, 5` after `addi x1, x0, 1`. -/
theorem lifted_immediate_iff_addi :
    ∃ block l' beforeBlock l'' added,
      liftBasicBlock id
        ([⟨.addi, [.register 1, .register 0, .immediate ((1#12).signExtend 64)], 0x00100093#32,
            0x1000#64⟩] ++
          [⟨.addi, [.register 1, .register 1, .immediate 5#64], 0x00508093#32, 0x1004#64⟩]) init =
        .ok (block, l') ∧
      liftBasicBlock id [⟨.addi, [.register 1, .register 0, .immediate ((1#12).signExtend 64)],
        0x00100093#32, 0x1000#64⟩] init = .ok (beforeBlock, l'') ∧
      computed block.instructions = computed beforeBlock.instructions ++ added ∧
      (ImmediateAgrees 0x00508093#32 0x1004#64 ⟨.addi, [.register 1, .register 1, .immediate 5#64],
          0x00508093#32, 0x1004#64⟩ added block.terminator ↔
        (Opcode.isUpperImmediate .addi = true → (0x00508093#32).extractLsb' 12 20 = 0#20)) := by
  have hbefore : ∀ i ∈ [(⟨.addi, [.register 1, .register 0, .immediate ((1#12).signExtend 64)],
      0x00100093#32, 0x1000#64⟩ : RiscV.Instruction)], Liftable i := by
    intro i hi
    obtain rfl := List.mem_singleton.mp hi
    exact ⟨rfl, .i (by decide) (by decide) 1#12⟩
  have hw : Decoder.Holds (Encoding.littleEndian 0x00508093#32) 0 0x00508093#32 := ⟨[], rfl⟩
  exact lifted_immediate_iff (fun _ => .refl _) init hbefore hw rfl rfl (by decide)

/-- `lui x1, 1`: the decoder gives `0x1000`, and the block gets the constant `0x1000000`. -/
theorem lifted_lui :
    ∃ inst block l', Decoder.decode (Encoding.littleEndian 0x000010B7#32) 0 0 = .ok inst ∧
      liftBasicBlock id [inst] init = .ok (block, l') ∧
      placedImmediate .lui block.instructions block.terminator = some 0x1000000#64 ∧
      ¬ IsaImmediate 0x000010B7#32 0 .lui 0x1000000#64 :=
  ⟨_, _, _, rfl, rfl, by decide, by unfold IsaImmediate; decide⟩

end DinoRisc.Lifter
