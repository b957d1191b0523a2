import DinoRisc.Lifter.Formed
import DinoRisc.Lowering.FetchedOperands

/-!
Which lists of instructions end in a conditional branch whose constants take the registers of its
operands: a condition on the list itself.
-/

namespace DinoRisc

open IR RiscV InstructionSelector

/-- The value of an instruction, less the registers that the selector takes for it. -/
def IR.InstructionKind.drift : InstructionKind → ℤ
  | .load _ _ => -3
  | .store _ _ => -2
  | .regWrite _ _ => 1
  | _ => 0

namespace Lifter

/-- The guest registers that an instruction names. -/
def names (inst : RiscV.Instruction) : List ℕ :=
  inst.operands.filterMap fun
    | .register r => some r
    | .immediate _ => none

def drift (inst : RiscV.Instruction) : ℤ :=
  match inst.opcode with
  | .lb | .lh | .lw | .lwu | .ld => -3
  | .sw | .sd => -2
  | _ => 0

/-- Ids are consecutive from 1, and the registers in the cache are those named so far. -/
structure Counted (named : List ℕ) (d : ℤ) (l : Lifter) : Prop where
  ids : l.currentInstructions.map (·.valueId) = List.range' 1 l.currentInstructions.length
  next : l.nextValueId = l.currentInstructions.length + 1
  drift : (l.currentInstructions.map (·.kind.drift)).sum = d
  cached : ∀ r, (l.cachedRegisterValues r).isSome = true ↔ r ≠ 0 ∧ r ∈ named

section

variable {named named' : List ℕ} {d d' : ℤ} {l l' : Lifter} {r rd rs1 rs2 : ℕ} {imm : BitVec 64}
  {inst : RiscV.Instruction}

namespace Counted

theorem congr (h : Counted named d l) (hnamed : ∀ r, r ∈ named ↔ r ∈ named') (hd : d = d') :
    Counted named' d' l :=
  ⟨h.ids, h.next, h.drift.trans hd, fun r => by rw [h.cached, hnamed]⟩

theorem add (h : Counted named d l) (kind : InstructionKind) :
    Counted named (d + kind.drift) (l.addInstruction kind).2 where
  ids := by
    simp only [addInstruction, List.map_append, h.ids, List.map_cons, List.map_nil, h.next,
      List.length_append, List.length_singleton, List.range'_1_concat, Nat.add_comm 1]
  next := by simp [addInstruction, h.next]
  drift := by simp [addInstruction, h.drift]
  cached := h.cached

theorem value (h : Counted named d l) {kind : InstructionKind} (hkind : kind.drift = 0) :
    Counted named d (l.addInstruction kind).2 :=
  (h.add kind).congr (fun _ => Iff.rfl) (by rw [hkind, add_zero])

theorem cache (h : Counted named d l) (hr : r ≠ 0) (id : ValueId) :
    Counted (r :: named) d
      { l with cachedRegisterValues := Function.update l.cachedRegisterValues r (some id) } where
  ids := h.ids
  next := h.next
  drift := h.drift
  cached k := by
    by_cases hk : k = r
    · simp [hk, hr]
    · simp [h.cached, hk]

theorem cons_zero (h : Counted named d l) : Counted (0 :: named) d l :=
  ⟨h.ids, h.next, h.drift, fun r => by rw [h.cached]; by_cases hr : r = 0 <;> simp [hr]⟩

theorem read (h : Counted named d l) (r : ℕ) : Counted (r :: named) d (l.getRegisterValue r).2 := by
  unfold getRegisterValue
  split
  · have hr : r = 0 := ‹_›
    subst hr
    exact (h.value rfl).cons_zero
  · have hr : r ≠ 0 := ‹_›
    split
    · have hmem := ((h.cached r).mp (Option.isSome_iff_exists.mpr ⟨_, ‹_›⟩)).2
      refine h.congr (fun k => ?_) rfl
      rw [List.mem_cons]
      exact ⟨.inr, fun hk => hk.elim (fun heq => heq ▸ hmem) id⟩
    · exact (h.value (rfl : InstructionKind.drift (.regRead r) = 0)).cache hr _

theorem write (h : Counted named d l) (r : ℕ) (id : ValueId) :
    Counted (r :: named) d (l.setRegisterValue r id) := by
  unfold setRegisterValue
  split
  · have hr : r ≠ 0 := ‹_›
    obtain ⟨hids, hnext, hdrift, hcached⟩ := h.cache hr id
    exact ⟨hids, hnext, hdrift, hcached⟩
  · have hr : r = 0 := not_not.mp ‹_›
    subst hr
    exact h.cons_zero

end Counted

variable {op : Opcode} {raw : BitVec 32} {address : BitVec 64} {opcode : BinaryOpcode} {ty : Ty}

section

variable (h : Counted named d l)

include h

theorem liftRTypeBinaryOp_counted (hok : l.liftRTypeBinaryOp
      ⟨op, [.register rd, .register rs1, .register rs2], raw, address⟩ opcode ty = .ok l') :
    Counted (rd :: rs2 :: rs1 :: named) d l' := by
  let r₁ := l.getRegisterValue rs1
  let r₂ := r₁.2.getRegisterValue rs2
  let r₃ := r₂.2.createBinaryOp opcode ty r₁.1 r₂.1
  obtain rfl : r₃.2.setRegisterValue rd r₃.1 = l' := Except.ok.inj hok
  exact (((h.read rs1).read rs2).value rfl).write rd _

theorem liftITypeBinaryOp_counted (hok : l.liftITypeBinaryOp
      ⟨op, [.register rd, .register rs1, .immediate imm], raw, address⟩ opcode ty = .ok l') :
    Counted (rd :: rs1 :: named) d l' := by
  let r₁ := l.getRegisterValue rs1
  let r₂ := r₁.2.createConstant ty imm
  let r₃ := r₂.2.createBinaryOp opcode ty r₁.1 r₂.1
  obtain rfl : r₃.2.setRegisterValue rd r₃.1 = l' := Except.ok.inj hok
  exact (((h.read rs1).value rfl).value rfl).write rd _

theorem liftWTypeBinaryOp_counted (hok : l.liftWTypeBinaryOp
      ⟨op, [.register rd, .register rs1, .register rs2], raw, address⟩ opcode = .ok l') :
    Counted (rd :: rs2 :: rs1 :: named) d l' := by
  let r₁ := l.getRegisterValue rs1
  let r₂ := r₁.2.getRegisterValue rs2
  let r₃ := r₂.2.createTrunc .i32 r₁.1
  let r₄ := r₃.2.createTrunc .i32 r₂.1
  let r₅ := r₄.2.createBinaryOp opcode .i32 r₃.1 r₄.1
  let r₆ := r₅.2.createSext .i64 r₅.1
  obtain rfl : r₆.2.setRegisterValue rd r₆.1 = l' := Except.ok.inj hok
  exact ((((((h.read rs1).read rs2).value rfl).value rfl).value rfl).value rfl).write rd _

theorem liftWTypeImmOp_counted (hok : l.liftWTypeImmOp
      ⟨op, [.register rd, .register rs1, .immediate imm], raw, address⟩ opcode = .ok l') :
    Counted (rd :: rs1 :: named) d l' := by
  let r₁ := l.getRegisterValue rs1
  let r₂ := r₁.2.createConstant .i32 imm
  let r₃ := r₂.2.createTrunc .i32 r₁.1
  let r₄ := r₃.2.createBinaryOp opcode .i32 r₃.1 r₂.1
  let r₅ := r₄.2.createSext .i64 r₄.1
  obtain rfl : r₅.2.setRegisterValue rd r₅.1 = l' := Except.ok.inj hok
  exact (((((h.read rs1).value rfl).value rfl).value rfl).value rfl).write rd _

theorem liftLoadInstruction_counted {sign : Bool} (hok : l.liftLoadInstruction
      ⟨op, [.register rd, .register rs1, .immediate imm], raw, address⟩ ty sign = .ok l') :
    Counted (rd :: rs1 :: named) (d + -3) l' := by
  let r₁ := l.getRegisterValue rs1
  let r₂ := r₁.2.createConstant .i64 imm
  let r₃ := r₂.2.createBinaryOp .add .i64 r₁.1 r₂.1
  let r₄ := r₃.2.createLoad ty r₃.1
  let r₅ := if ty ≠ .i64 then if sign then r₄.2.createSext .i64 r₄.1 else r₄.2.createZext .i64 r₄.1
    else r₄
  have h₄ : Counted (rs1 :: named) (d + -3) r₄.2 :=
    (((h.read rs1).value rfl).value rfl).add (.load ty r₃.1)
  have h₅ : Counted (rs1 :: named) (d + -3) r₅.2 := by
    by_cases hty : ty = .i64
    · simpa only [r₅, hty, ne_eq, not_true_eq_false, if_false] using h₄
    · simp only [r₅, ne_eq, hty, not_false_eq_true, if_true]
      cases sign
      · exact h₄.value rfl
      · exact h₄.value rfl
  obtain rfl : r₅.2.setRegisterValue rd r₅.1 = l' := Except.ok.inj hok
  exact h₅.write rd _

theorem liftStoreInstruction_counted (hok : l.liftStoreInstruction
      ⟨op, [.register rs1, .register rs2, .immediate imm], raw, address⟩ ty = .ok l') :
    Counted (rs2 :: rs1 :: named) (d + -2) l' := by
  let r₁ := l.getRegisterValue rs1
  let r₂ := r₁.2.getRegisterValue rs2
  let r₃ := r₂.2.createConstant .i64 imm
  let r₄ := r₃.2.createBinaryOp .add .i64 r₁.1 r₃.1
  let r₅ := if ty ≠ .i64 then r₄.2.createTrunc ty r₂.1 else (r₂.1, r₄.2)
  have h₄ : Counted (rs2 :: rs1 :: named) d r₄.2 :=
    (((h.read rs1).read rs2).value rfl).value rfl
  have h₅ : Counted (rs2 :: rs1 :: named) d r₅.2 := by
    by_cases hty : ty = .i64
    · simpa only [r₅, hty, ne_eq, not_true_eq_false, if_false] using h₄
    · simp only [r₅, ne_eq, hty, not_false_eq_true, if_true]
      exact h₄.value rfl
  obtain rfl : (r₅.2.createStore r₅.1 r₄.1).2 = l' := Except.ok.inj hok
  exact h₅.add (.store r₅.1 r₄.1)

theorem liftSingleInstruction_counted (hi : Liftable inst)
    (hok : l.liftSingleInstruction inst = .ok l') :
    Counted (names inst ++ named) (d + drift inst) l' := by
  obtain ⟨op, operands, raw, address⟩ := inst
  obtain ⟨hop, hs⟩ := hi
  dsimp only at hop hs
  cases op with
  | add | sub | and | or | xor | sll | srl | sra | slt | sltu =>
    cases hs
    exact (liftRTypeBinaryOp_counted h hok).congr (by simp [names]; tauto) (add_zero d).symm
  | addw =>
    cases hs
    exact (liftWTypeBinaryOp_counted h hok).congr (by simp [names]; tauto) (add_zero d).symm
  | addi | andi | ori | xori | slli | srli | srai | slti | sltiu =>
    cases hs
    exact (liftITypeBinaryOp_counted h hok).congr (by simp [names]) (add_zero d).symm
  | addiw | slliw =>
    cases hs
    exact (liftWTypeImmOp_counted h hok).congr (by simp [names]) (add_zero d).symm
  | lb | lh | lw | lwu | ld =>
    cases hs
    simp only [liftSingleInstruction] at hok
    exact (liftLoadInstruction_counted h hok).congr (by simp [names]) rfl
  | sw | sd =>
    cases hs
    simp only [liftSingleInstruction] at hok
    exact (liftStoreInstruction_counted h hok).congr (by simp [names]; tauto) rfl
  | lui =>
    cases hs
    obtain rfl := Except.ok.inj hok
    exact ((h.value rfl).write _ _).congr (by simp [names]) (add_zero d).symm
  | auipc =>
    cases hs
    obtain rfl := Except.ok.inj hok
    exact ((((h.value rfl).value rfl).value rfl).write _ _).congr (by simp [names]) (add_zero d).symm
  | _ => cases hop

end

theorem liftInstructions_counted {order : List ℕ → List ℕ} {body : List RiscV.Instruction}
    {terminator terminator' : Terminator} (hbody : ∀ i ∈ body, Liftable i) (h : Counted named d l)
    (hok : liftInstructions order body terminator l = .ok (terminator', l')) :
    Counted (body.flatMap names ++ named) (d + (body.map drift).sum) l' := by
  induction body generalizing l named d with
  | nil =>
    cases hok
    exact h.congr (fun _ => Iff.rfl) (add_zero d).symm
  | cons inst body ih =>
    obtain ⟨hi, hbody⟩ := List.forall_mem_cons.mp hbody
    rw [liftInstructions_cons hi.not_isTerminator] at hok
    obtain ⟨l₁, hok₁, hok⟩ := bind_eq_ok.mp hok
    refine (ih hbody (liftSingleInstruction_counted h hi hok₁) hok).congr (fun r => ?_) ?_
    · simp only [List.flatMap_cons, List.mem_append]
      tauto
    · rw [List.map_cons, List.sum_cons, add_assoc]

theorem drift_nonpos (inst : RiscV.Instruction) : drift inst ≤ 0 := by
  unfold drift
  split <;> decide

theorem sum_drift_nonpos (body : List RiscV.Instruction) : (body.map drift).sum ≤ 0 := by
  induction body with
  | nil => rfl
  | cons inst body ih =>
    rw [List.map_cons, List.sum_cons]
    exact add_nonpos (drift_nonpos inst) ih

/-! ### The end of the block -/

/-- The values that the lifter adds to read a register. -/
def fetches (named : List ℕ) (r : ℕ) : ℕ := if r = 0 ∨ r ∉ named then 1 else 0

/-- The instructions that read the operand `id`: none where its register is in the cache. -/
def Fetched (id : ValueId) (n : ℕ) (added : List IR.Instruction) : Prop :=
  added = [] ∧ n = 0 ∨ ∃ kind, added = [⟨id, kind⟩] ∧ kind.isFetch = true ∧ n = 1

theorem Fetched.length {id : ValueId} {n : ℕ} {added : List IR.Instruction}
    (h : Fetched id n added) : added.length = n := by
  rcases h with ⟨rfl, rfl⟩ | ⟨kind, rfl, -, rfl⟩ <;> rfl

theorem Fetched.typed {id : ValueId} {n : ℕ} {added : List IR.Instruction}
    (h : Fetched id n added) : ∀ i ∈ added, i.kind.type.isSome = true := by
  rcases h with ⟨rfl, -⟩ | ⟨kind, rfl, hkind, -⟩
  · simp
  · intro i hi
    obtain rfl := List.mem_singleton.mp hi
    cases kind <;> first
      | rfl
      | cases hkind

theorem Counted.fetches (h : Counted named d l) (r : ℕ) :
    ∃ added, (l.getRegisterValue r).2.currentInstructions = l.currentInstructions ++ added ∧
      Fetched (l.getRegisterValue r).1 (fetches named r) added := by
  unfold getRegisterValue Lifter.fetches
  split
  · have hr : r = 0 := ‹_›
    exact ⟨_, rfl, .inr ⟨_, rfl, rfl, by simp [hr]⟩⟩
  · have hr : r ≠ 0 := ‹_›
    split
    · have hmem := ((h.cached r).mp (Option.isSome_iff_exists.mpr ⟨_, ‹_›⟩)).2
      exact ⟨[], (List.append_nil _).symm, .inl ⟨rfl, by simp [hr, hmem]⟩⟩
    · have hmem : r ∉ named := fun hmem => by
        have hsome := (h.cached r).mpr ⟨hr, hmem⟩
        simp_all
      exact ⟨_, rfl, .inr ⟨_, rfl, rfl, by simp [hmem]⟩⟩

theorem getRegisterValue_again (hr : r ≠ 0) (l : Lifter) :
    ((l.getRegisterValue r).2.getRegisterValue r).1 = (l.getRegisterValue r).1 := by
  cases hcached : l.cachedRegisterValues r with
  | none => simp [getRegisterValue, hr, hcached, addInstruction, REG_ZERO]
  | some id => simp [getRegisterValue, hr, hcached, REG_ZERO]

theorem writes_counted (rs : List ℕ) (h : Counted named d l) :
    ∃ l', rs.foldl (fun l regNum =>
        (l.addInstruction (.regWrite regNum ((l.cachedRegisterValues regNum).getD 0))).2) l = l' ∧
      Counted named (d + rs.length) l' ∧
      ∃ added, l'.currentInstructions = l.currentInstructions ++ added ∧
        (∀ i ∈ added, i.kind.type = none) ∧ added.length = rs.length := by
  induction rs generalizing l d with
  | nil => exact ⟨l, rfl, by simpa using h, [], by simp⟩
  | cons r rs ih =>
    let write : InstructionKind := .regWrite r ((l.cachedRegisterValues r).getD 0)
    obtain ⟨l', hok, h', added, heq, htypes, hlength⟩ := ih (h.add write)
    refine ⟨l', hok, h'.congr (fun _ => Iff.rfl) ?_, ⟨l.nextValueId, write⟩ :: added, ?_, ?_, ?_⟩
    · simp only [write, InstructionKind.drift, List.length_cons, Nat.cast_add, Nat.cast_one]
      ring
    · simp [heq, addInstruction]
    · exact List.forall_mem_cons.mpr ⟨rfl, htypes⟩
    · simp [hlength]

end

end Lifter

namespace InstructionSelector

section

variable {front back instructions : List IR.Instruction} {s n id : ℕ}

theorem valueIds_append (front back : List IR.Instruction) :
    valueIds (front ++ back) = valueIds front ++ valueIds back :=
  List.filterMap_append

theorem valueIds_sublist (instructions : List IR.Instruction) :
    (valueIds instructions).Sublist (instructions.map (·.valueId)) := by
  rw [← List.filterMap_eq_map]
  induction instructions with
  | nil => exact .slnil
  | cons inst rest ih =>
    cases htype : inst.kind.type with
    | none => simpa [valueIds, htype] using ih.cons inst.valueId
    | some ty => simpa [valueIds, htype] using ih

theorem valueIds_typed (h : ∀ i ∈ instructions, i.kind.type.isSome = true) :
    valueIds instructions = instructions.map (·.valueId) := by
  induction instructions with
  | nil => rfl
  | cons inst rest ih =>
    obtain ⟨hinst, hrest⟩ := List.forall_mem_cons.mp h
    obtain ⟨ty, hty⟩ := Option.isSome_iff_exists.mp hinst
    rw [List.map_cons, ← ih hrest]
    simp [valueIds, hty]

theorem valueIds_untyped (h : ∀ i ∈ instructions, i.kind.type = none) :
    valueIds instructions = [] := by
  rw [valueIds, List.filterMap_eq_nil_iff]
  intro i hi
  rw [h i hi]
  rfl

theorem length_valueIds_singleton (inst : IR.Instruction) :
    ((valueIds [inst]).length + 3 * [inst].countP isAccess : ℤ) = 1 - inst.kind.drift := by
  obtain ⟨id, kind⟩ := inst
  cases kind <;> rfl

theorem length_valueIds (instructions : List IR.Instruction) :
    ((valueIds instructions).length + 3 * instructions.countP isAccess : ℤ) =
      instructions.length - (instructions.map (·.kind.drift)).sum := by
  induction instructions with
  | nil => rfl
  | cons inst rest ih =>
    have hinst := length_valueIds_singleton inst
    rw [← List.singleton_append, valueIds_append, List.countP_append, List.length_append,
      List.length_append, List.map_append, List.sum_append]
    simp only [List.map_cons, List.map_nil, List.sum_singleton, List.length_singleton]
    push_cast
    omega

/-- The first constant's id is as far below the last id as values outnumber registers. -/
theorem constantId_eq (hids : instructions.map (·.valueId) = List.range' 1 instructions.length) :
    (constantId instructions : ℤ) =
      instructions.length - (instructions.map (·.kind.drift)).sum := by
  have hnodup : (valueIds instructions).Nodup :=
    (valueIds_sublist instructions).nodup (hids ▸ List.nodup_range')
  rw [← length_valueIds, constantId, hnodup.dedup]
  push_cast
  rfl

/-- Where ids are consecutive, the ids of values at the end are those past the part without values. -/
theorem mem_valueIds_iff {start written ending : List IR.Instruction}
    (hids : (start ++ written ++ ending).map (·.valueId) =
      List.range' 1 (start ++ written ++ ending).length)
    (hwritten : ∀ i ∈ written, i.kind.type = none)
    (hending : ∀ i ∈ ending, i.kind.type.isSome = true)
    (hlow : start.length < id) : id ∈ valueIds (start ++ written ++ ending) ↔
      start.length + written.length < id ∧ id ≤ start.length + written.length + ending.length := by
  rw [List.length_append, ← List.range'_append_1, List.map_append] at hids
  obtain ⟨hfront, hback⟩ := List.append_inj hids (by simp)
  rw [List.length_append, ← List.range'_append_1, List.map_append] at hfront
  obtain ⟨hstart, -⟩ := List.append_inj hfront (by simp)
  have hnot : id ∉ valueIds start := by
    intro hmem
    have hrange := (valueIds_sublist start).subset hmem
    rw [hstart, List.mem_range'_1] at hrange
    omega
  rw [valueIds_append, valueIds_append, valueIds_untyped hwritten, valueIds_typed hending, hback,
    List.append_nil, List.mem_append, or_iff_right hnot, List.mem_range'_1, List.length_append]
  omega

end

end InstructionSelector

namespace Lifter

/-- The guest registers that a list of instructions changes. -/
def destinations (body : List RiscV.Instruction) : List ℕ :=
  ((body.filterMap destination).filter (· ≠ 0)).dedup

/-- By how much the values of a block outnumber the registers that the selector takes for them, where
the block is lifted from `body` and a branch. -/
def surplus (body : List RiscV.Instruction) : ℤ := (body.map drift).sum + (destinations body).length

theorem surplus_le (body : List RiscV.Instruction) : surplus body ≤ (destinations body).length := by
  have hle := sum_drift_nonpos body
  unfold surplus
  omega

/-- The values that the lifter adds to read the operands of a branch after `body`. -/
def branchFetches (body : List RiscV.Instruction) (rs1 rs2 : ℕ) : ℕ :=
  fetches (body.flatMap names) rs1 + fetches (rs1 :: body.flatMap names) rs2

section

variable {order : List ℕ → List ℕ} {body : List RiscV.Instruction} {inst : RiscV.Instruction}
  {l l' : Lifter} {block : BasicBlock} {rs1 rs2 : ℕ} {offset : BitVec 64}

theorem liftTerminator_branch (hformat : inst.opcode.format = .b) (fallThrough : BitVec 64) :
    ∃ compareOp : BinaryOpcode, compareOp.isComparison = true ∧
      ∀ l, liftTerminator inst fallThrough l = l.createConditionalBranch compareOp inst fallThrough := by
  obtain ⟨op, operands, raw, address⟩ := inst
  cases op with
  | beq => exact ⟨.eq, rfl, fun _ => rfl⟩
  | bne => exact ⟨.ne, rfl, fun _ => rfl⟩
  | blt => exact ⟨.lt, rfl, fun _ => rfl⟩
  | bge => exact ⟨.ge, rfl, fun _ => rfl⟩
  | bltu => exact ⟨.ltU, rfl, fun _ => rfl⟩
  | bgeu => exact ⟨.geU, rfl, fun _ => rfl⟩
  | _ => cases hformat

theorem isTerminator_of_format (hformat : inst.opcode.format = .b) : isTerminator inst = true := by
  obtain ⟨op, operands, raw, address⟩ := inst
  cases op <;> first
    | rfl
    | cases hformat

theorem length_modified (h : Coherent l)
    (hmodified : ∀ r, r ∈ l.modifiedRegisters ↔ r ≠ 0 ∧ ∃ i ∈ body, destination i = some r) :
    l.modifiedRegisters.length = (destinations body).length := by
  refine ((List.perm_ext_iff_of_nodup h.nodup (List.nodup_dedup _)).mpr fun r => ?_).length_eq
  rw [hmodified]
  simp [and_comm]

/-- A block that is lifted from `body` and a branch: the values of the body, the register writes, the
operands of the branch, the comparison. -/
structure EndsInBranch (body : List RiscV.Instruction) (rs1 rs2 : ℕ) (block : BasicBlock)
    (front fetched fetched' : List IR.Instruction) (compareOp : BinaryOpcode)
    (lhs rhs condition : ValueId) : Prop where
  comparison : compareOp.isComparison = true
  terminator : ∃ trueBlock falseBlock, block.terminator = .condBranch condition trueBlock falseBlock
  instructions : block.instructions =
    front ++ (fetched ++ fetched') ++ [⟨condition, .binaryOp compareOp .i1 lhs rhs⟩]
  written : ∃ start written, front = start ++ written ∧ (∀ i ∈ written, i.kind.type = none) ∧
    written.length = (destinations body).length
  fetchesLhs : Fetched lhs (fetches (body.flatMap names) rs1) fetched
  fetchesRhs : Fetched rhs (fetches (rs1 :: body.flatMap names) rs2) fetched'
  same : rs1 = rs2 → rs1 ≠ 0 → lhs = rhs
  ids : block.instructions.map (·.valueId) = List.range' 1 block.instructions.length
  drift : (block.instructions.map (·.kind.drift)).sum = surplus body

theorem liftBasicBlock_branch_shape (horder : ∀ rs, (order rs).Perm rs)
    (hbody : ∀ i ∈ body, Liftable i) (hformat : inst.opcode.format = .b)
    (hops : inst.operands = [.register rs1, .register rs2, .immediate offset])
    (hlift : init.liftBasicBlock order (body ++ [inst]) = .ok (block, l')) :
    ∃ front fetched fetched' compareOp lhs rhs condition,
      EndsInBranch body rs1 rs2 block front fetched fetched' compareOp lhs rhs condition := by
  obtain ⟨l₁, heq, hcoherent, -, hmodified⟩ :=
    liftInstructions_coherent order hbody (coherent_cleared init)
  have hok₁ := heq [] (.branch 0#64)
  rw [List.append_nil, liftInstructions] at hok₁
  have hcleared : Counted [] 0 init.cleared := ⟨rfl, rfl, rfl, by simp [cleared]⟩
  have h₁ : Counted (body.flatMap names) (body.map drift).sum l₁ :=
    (liftInstructions_counted hbody hcleared hok₁).congr (by simp) (zero_add _)
  obtain ⟨l₂, hl₂, h₂, written, hwritten, htypes, hlength⟩ :=
    writes_counted (order l₁.modifiedRegisters) h₁
  have hmodified : ∀ r, r ∈ l₁.modifiedRegisters ↔ r ≠ 0 ∧ ∃ i ∈ body, destination i = some r := by
    simpa [cleared] using hmodified
  rw [(horder _).length_eq, length_modified hcoherent hmodified] at h₂ hlength
  have hterm := isTerminator_of_format hformat
  obtain ⟨compareOp, hop, hbranch⟩ := liftTerminator_branch hformat (fallThroughAddress inst [])
  rw [liftBasicBlock_eq, heq, liftInstructions_transfer hterm, finalizeRegisterWrites, hl₂, hbranch]
    at hlift
  obtain ⟨fetched, heq₁, hfetched⟩ := h₂.fetches rs1
  obtain ⟨fetched', heq₂, hfetched'⟩ := (h₂.read rs1).fetches rs2
  let r₁ := l₂.getRegisterValue rs1
  let r₂ := r₁.2.getRegisterValue rs2
  let r₃ := r₂.2.createBinaryOp compareOp .i1 r₁.1 r₂.1
  have hok : l₂.createConditionalBranch compareOp inst (fallThroughAddress inst []) =
      .ok (.condBranch r₃.1 (inst.address + offset) (fallThroughAddress inst []), r₃.2) := by
    simp [createConditionalBranch, RiscV.Instruction.getRegister, RiscV.Instruction.getImmediate, hops]
    rfl
  rw [hok] at hlift
  simp only [Except.bind, List.getLast?_concat, hterm, Bool.not_true, Bool.false_eq_true, if_false]
    at hlift
  obtain ⟨rfl, rfl⟩ := Prod.mk.inj (Except.ok.inj hlift)
  have h₃ : Counted (rs2 :: rs1 :: body.flatMap names)
      ((body.map drift).sum + (destinations body).length) r₃.2 :=
    ((h₂.read rs1).read rs2).value rfl
  refine ⟨l₁.currentInstructions ++ written, fetched, fetched', compareOp, r₁.1, r₂.1, r₃.1, hop,
    ⟨_, _, rfl⟩, ?_, ⟨_, written, rfl, htypes, hlength⟩, hfetched, hfetched', ?_, h₃.ids, h₃.drift⟩
  · rw [hwritten] at heq₁
    simp [r₃, r₂, r₁, createBinaryOp, addInstruction, heq₁, heq₂]
  · rintro rfl hr
    exact (getRegisterValue_again hr l₂).symm

namespace EndsInBranch

variable {front fetched fetched' : List IR.Instruction} {compareOp : BinaryOpcode}
  {lhs rhs condition : ValueId} {id : ℕ}

section

variable (h : EndsInBranch body rs1 rs2 block front fetched fetched' compareOp lhs rhs condition)

include h

theorem length : block.instructions.length = front.length + branchFetches body rs1 rs2 + 1 := by
  rw [h.instructions, branchFetches, ← h.fetchesLhs.length, ← h.fetchesRhs.length]
  simp only [List.length_append, List.length_singleton]

theorem condition_eq : condition = block.instructions.length := by
  have hids := h.ids
  rw [h.instructions] at hids ⊢
  rw [List.map_append, List.length_append, List.length_singleton, List.range'_1_concat] at hids
  have hlast := (List.append_inj' hids rfl).2
  simp only [List.map_cons, List.map_nil, List.cons.injEq, and_true] at hlast
  rw [List.length_append, List.length_singleton, hlast, Nat.add_comm]

/-- The register that the selector takes next lies below the last id by the surplus. -/
theorem constantId_add : (constantId block.instructions : ℤ) + surplus body =
    block.instructions.length := by
  rw [constantId_eq h.ids, h.drift]
  ring

theorem destinations_le : (destinations body).length ≤ front.length := by
  obtain ⟨start, written, rfl, -, hlength⟩ := h.written
  rw [List.length_append, hlength]
  exact Nat.le_add_left _ _

/-- Past the values of the body, the ids of values are those of the operands and of the condition. -/
theorem mem_valueIds (hid : front.length < id + (destinations body).length) :
    id ∈ valueIds block.instructions ↔ front.length < id ∧ id ≤ block.instructions.length := by
  obtain ⟨start, written, rfl, hwritten, hlength⟩ := h.written
  have hids := h.ids
  rw [h.instructions, List.append_assoc] at hids ⊢
  rw [List.length_append, hlength] at hid
  have hending : ∀ i ∈ fetched ++ fetched' ++
      [⟨condition, .binaryOp compareOp .i1 lhs rhs⟩], i.kind.type.isSome = true := by
    refine List.forall_mem_append.mpr ⟨List.forall_mem_append.mpr ⟨h.fetchesLhs.typed, h.fetchesRhs.typed⟩, ?_⟩
    simp [InstructionKind.type]
  rw [mem_valueIds_iff hids hwritten hending (by omega)]
  simp only [List.length_append]

end

/-- The constants take no register of an operand where the surplus misses the values fetched for the
operands, counted from the condition down. -/
theorem spares_iff (h : EndsInBranch body rs1 rs2 block front fetched fetched' compareOp lhs rhs condition) :
    SparesOperands block ↔
      ¬ (1 ≤ surplus body ∧ surplus body ≤ branchFetches body rs1 rs2 ∨
        3 ≤ surplus body ∧ surplus body ≤ branchFetches body rs1 rs2 + 2) := by
  obtain ⟨trueBlock, falseBlock, hterm⟩ := h.terminator
  have hcondition := h.condition_eq
  have hspares : SparesOperands block ↔ ∀ id : ℕ, id ∈ constantIds block.instructions →
      id ∈ valueIds block.instructions → id = block.instructions.length := by
    constructor
    · intro hspares id hid hvalue
      exact (hspares _ _ _ hterm id hid hvalue).1.trans hcondition
    · intro hlast c t f hc id hid hvalue
      cases hterm.symm.trans hc
      exact ⟨(hlast id hid hvalue).trans hcondition.symm, front ++ (fetched ++ fetched'), compareOp, .i1,
        lhs, rhs, h.comparison, h.instructions⟩
  have hconstant := h.constantId_add
  have hsurplus := surplus_le body
  have hlength := h.length
  have hfirst : constantId block.instructions ∈ valueIds block.instructions ↔ _ :=
    h.mem_valueIds (by omega)
  have hnext : constantId block.instructions + 1 ∈ valueIds block.instructions ↔ _ :=
    h.mem_valueIds (by omega)
  have hsecond : constantId block.instructions + 2 ∈ valueIds block.instructions ↔ _ :=
    h.mem_valueIds (by omega)
  simp only [hspares, constantIds, List.forall_mem_cons, List.not_mem_nil, false_imp_iff,
    implies_true, and_true]
  by_cases hvalue : constantId block.instructions ∈ valueIds block.instructions
  · rw [if_pos hvalue, hnext, hfirst]
    rw [hfirst] at hvalue
    omega
  · rw [if_neg hvalue, hsecond, hfirst]
    rw [hfirst] at hvalue
    omega

end EndsInBranch

/-- The constants of a branch take the registers of its operands exactly where the surplus of the
block reaches the values fetched for them. -/
theorem sparesOperands_iff (horder : ∀ rs, (order rs).Perm rs) (hbody : ∀ i ∈ body, Liftable i)
    (hformat : inst.opcode.format = .b)
    (hops : inst.operands = [.register rs1, .register rs2, .immediate offset])
    (hlift : init.liftBasicBlock order (body ++ [inst]) = .ok (block, l')) :
    SparesOperands block ↔
      ¬ (1 ≤ surplus body ∧ surplus body ≤ branchFetches body rs1 rs2 ∨
        3 ≤ surplus body ∧ surplus body ≤ branchFetches body rs1 rs2 + 2) := by
  obtain ⟨front, fetched, fetched', compareOp, lhs, rhs, condition, h⟩ :=
    liftBasicBlock_branch_shape horder hbody hformat hops hlift
  exact h.spares_iff

def addiFive : RiscV.Instruction :=
  ⟨.addi, [.register 5, .register 5, .immediate 1#64], 0x00128293#32, 0x1000#64⟩

def beqNext : RiscV.Instruction :=
  ⟨.beq, [.register 1, .register 2, .immediate 8#64], 0x00208463#32, 0x1004#64⟩

example : surplus [addiFive] = 1 ∧ branchFetches [addiFive] 1 2 = 2 := by decide

theorem sparesOperands_iff_addi :
    ∃ block l, init.liftBasicBlock id ([addiFive] ++ [beqNext]) = .ok (block, l) ∧
      (SparesOperands block ↔
        ¬ (1 ≤ surplus [addiFive] ∧ surplus [addiFive] ≤ branchFetches [addiFive] 1 2 ∨
          3 ≤ surplus [addiFive] ∧ surplus [addiFive] ≤ branchFetches [addiFive] 1 2 + 2)) := by
  have hbody : ∀ i ∈ [addiFive], Liftable i := by
    intro i hi
    obtain rfl := List.mem_singleton.mp hi
    exact ⟨rfl, .i (by decide) (by decide) 1#12⟩
  have hformat : beqNext.opcode.format = .b := rfl
  exact ⟨_, _, rfl, sparesOperands_iff (fun rs => List.Perm.refl (id rs)) hbody hformat rfl rfl⟩

end

end Lifter

end DinoRisc
