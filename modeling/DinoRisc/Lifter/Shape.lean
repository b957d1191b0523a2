import DinoRisc.IR.Operands
import DinoRisc.Lifter.Terminator

/-!
The form of a lifted block: which instructions the lifter adds, in which order, and what its cache
holds. `Extends` lists what the lifting of one instruction may do.
-/

namespace DinoRisc.Lifter

open IR RiscV

variable {l l' l'' : Lifter} {rs : List ℕ} {r id : ℕ} {kind : InstructionKind}

/-- `l'` comes from `l` by adding values and by reading and writing guest registers; `rs` are the
registers written. -/
inductive Extends (l : Lifter) : List ℕ → Lifter → Prop
  | refl : Extends l [] l
  | value {rs : List ℕ} {l' : Lifter} {kind : InstructionKind} (h : Extends l rs l')
    (hkind : kind.register = none) : Extends l rs (l'.addInstruction kind).2
  | read {rs : List ℕ} {l' : Lifter} {r : ℕ} (h : Extends l rs l') (hr : r < 32) :
    Extends l rs (l'.getRegisterValue r).2
  | write {rs : List ℕ} {l' : Lifter} {r : ℕ} {id : ValueId} (h : Extends l rs l') (hr : r < 32)
    (hid : Produces l'.currentInstructions id .i64) :
    Extends l (r :: rs) (l'.setRegisterValue r id)

/-- The registers named so far are cached, no register is read after it was named, and the cache
holds 64-bit values. -/
structure Coherent (l : Lifter) : Prop where
  ids : ∀ inst ∈ l.currentInstructions, inst.valueId < l.nextValueId
  ordered : l.currentInstructions.Pairwise fun i j => i.valueId < j.valueId ∧
    ∀ r, j.kind = .regRead r → i.kind.register ≠ some r
  registers : ∀ inst ∈ l.currentInstructions, ∀ r, inst.kind.register = some r →
    1 ≤ r ∧ r < 32 ∧ (l.cachedRegisterValues r).isSome
  cached : ∀ r id, l.cachedRegisterValues r = some id → Produces l.currentInstructions id .i64
  modified : ∀ r ∈ l.modifiedRegisters, 1 ≤ r ∧ r < 32 ∧ (l.cachedRegisterValues r).isSome
  nodup : l.modifiedRegisters.Nodup

theorem isSome_update {cached : ℕ → Option ValueId} {k : ℕ} (h : (cached k).isSome) :
    (Function.update cached r (some id) k).isSome := by
  by_cases hkr : k = r
  · simp [hkr]
  · rwa [Function.update_of_ne hkr]

namespace Coherent

theorem add (h : Coherent l) (kind : InstructionKind) {cached : ℕ → Option ValueId}
    (hread : ∀ r, kind = .regRead r → l.cachedRegisterValues r = none)
    (hregister : ∀ r, kind.register = some r → 1 ≤ r ∧ r < 32 ∧ (cached r).isSome)
    (hgrow : ∀ r, (l.cachedRegisterValues r).isSome → (cached r).isSome)
    (hcached : ∀ r id, cached r = some id →
      Produces (l.addInstruction kind).2.currentInstructions id .i64) :
    Coherent { (l.addInstruction kind).2 with cachedRegisterValues := cached } where
  ids inst hinst := by
    rcases List.mem_append.mp hinst with hinst | hinst
    · exact Nat.lt_succ_of_lt (h.ids inst hinst)
    · obtain rfl := List.mem_singleton.mp hinst
      exact Nat.lt_succ_self _
  ordered := by
    refine List.pairwise_append.mpr ⟨h.ordered, List.pairwise_singleton _ _, ?_⟩
    intro i hi j hj
    obtain rfl := List.mem_singleton.mp hj
    refine ⟨h.ids i hi, fun r hr hir => ?_⟩
    have hsome := (h.registers i hi r hir).2.2
    rw [hread r hr] at hsome
    cases hsome
  registers inst hinst r hr := by
    rcases List.mem_append.mp hinst with hinst | hinst
    · obtain ⟨hpos, hlt, hsome⟩ := h.registers inst hinst r hr
      exact ⟨hpos, hlt, hgrow r hsome⟩
    · obtain rfl := List.mem_singleton.mp hinst
      exact hregister r hr
  cached := hcached
  modified r hr := by
    obtain ⟨hpos, hlt, hsome⟩ := h.modified r hr
    exact ⟨hpos, hlt, hgrow r hsome⟩
  nodup := h.nodup

theorem value (h : Coherent l) (hkind : kind.register = none) :
    Coherent (l.addInstruction kind).2 := by
  refine h.add kind ?_ ?_ (fun _ hr => hr) fun r id hid => (h.cached r id hid).mono
  · rintro r rfl
    cases hkind
  · intro r hr
    rw [hkind] at hr
    cases hr

theorem read (h : Coherent l) (hr : r < 32) : Coherent (l.getRegisterValue r).2 := by
  unfold Lifter.getRegisterValue
  split
  · exact h.value rfl
  · have hpos : 1 ≤ r := Nat.one_le_iff_ne_zero.mpr ‹_›
    split
    · exact h
    · refine h.add (.regRead r) ?_ ?_ (fun _ hk => isSome_update hk) ?_
      · rintro k hk
        cases hk
        assumption
      · rintro k hk
        cases hk
        exact ⟨hpos, hr, by simp⟩
      · intro k id hid
        by_cases hkr : k = r
        · subst hkr
          rw [Function.update_self, Option.some.injEq] at hid
          exact ⟨_, List.mem_append_right _ List.mem_cons_self, hid, rfl⟩
        · rw [Function.update_of_ne hkr] at hid
          exact (h.cached k id hid).mono

theorem write (h : Coherent l) (hr : r < 32) (hid : Produces l.currentInstructions id .i64) :
    Coherent (l.setRegisterValue r id) := by
  unfold Lifter.setRegisterValue
  split
  · have hpos : 1 ≤ r := Nat.one_le_iff_ne_zero.mpr ‹_›
    refine ⟨h.ids, h.ordered, ?_, ?_, ?_, h.nodup.insert⟩
    · intro inst hinst k hk
      obtain ⟨hpos, hlt, hsome⟩ := h.registers inst hinst k hk
      exact ⟨hpos, hlt, isSome_update hsome⟩
    · intro k id' hid'
      dsimp only at hid' ⊢
      by_cases hkr : k = r
      · subst hkr
        rw [Function.update_self, Option.some.injEq] at hid'
        exact hid' ▸ hid
      · rw [Function.update_of_ne hkr] at hid'
        exact h.cached k id' hid'
    · intro k hk
      by_cases hkr : k = r
      · subst hkr
        exact ⟨hpos, hr, by simp⟩
      · obtain ⟨hpos, hlt, hsome⟩ := h.modified k ((List.mem_insert_iff.mp hk).resolve_left hkr)
        exact ⟨hpos, hlt, isSome_update hsome⟩
  · exact h

theorem regWrite (h : Coherent l) (hpos : 1 ≤ r) (hr : r < 32)
    (hsome : (l.cachedRegisterValues r).isSome) (id : ValueId) :
    Coherent (l.addInstruction (.regWrite r id)).2 := by
  refine h.add (.regWrite r id) ?_ ?_ (fun _ hk => hk) fun k id hid => (h.cached k id hid).mono
  · rintro k hk
    cases hk
  · rintro k hk
    cases hk
    exact ⟨hpos, hr, hsome⟩

end Coherent

def writes (instructions : List IR.Instruction) : List ℕ :=
  instructions.filterMap fun inst => inst.kind.written

namespace Extends

theorem coherent (e : Extends l rs l') (h : Coherent l) : Coherent l' := by
  induction e with
  | refl => exact h
  | value _ hkind ih => exact ih.value hkind
  | read _ hr ih => exact ih.read hr
  | write _ hr hid ih => exact ih.write hr hid

theorem written_eq_none (hkind : kind.register = none) : kind.written = none := by
  cases kind <;> first
    | rfl
    | cases hkind

theorem writes_eq (e : Extends l rs l') :
    writes l'.currentInstructions = writes l.currentInstructions := by
  induction e with
  | refl => rfl
  | value _ hkind ih =>
    rw [← ih, addInstruction, writes, List.filterMap_append]
    simp [written_eq_none hkind, writes]
  | @read rs l' r _ hr ih =>
    rw [← ih]
    unfold Lifter.getRegisterValue
    split
    · simp [createConstant, addInstruction, writes, InstructionKind.written]
    · split
      · rfl
      · simp [addInstruction, writes, InstructionKind.written]
  | write _ hr hid ih =>
    rw [← ih]
    unfold Lifter.setRegisterValue
    split <;> rfl

theorem mem_modified (e : Extends l rs l') (r : ℕ) :
    r ∈ l'.modifiedRegisters ↔ r ∈ l.modifiedRegisters ∨ r ∈ rs ∧ r ≠ 0 := by
  induction e with
  | refl => simp
  | value _ _ ih => exact ih
  | @read rs l' k _ _ ih =>
    rw [← ih]
    unfold Lifter.getRegisterValue
    split
    · rfl
    · split <;> rfl
  | @write rs l' k id _ _ _ ih =>
    unfold Lifter.setRegisterValue
    split
    · have hk : k ≠ 0 := ‹_›
      rw [List.mem_insert_iff, ih, List.mem_cons]
      by_cases hrk : r = k
      · simp [hrk, hk]
      · simp [hrk]
    · have hk : k = 0 := not_not.mp ‹_›
      rw [ih, List.mem_cons]
      by_cases hrk : r = k
      · simp [hrk, hk]
      · simp [hrk]

end Extends

theorem produces_added (l : Lifter) (hty : kind.type = some .i64) :
    Produces (l.addInstruction kind).2.currentInstructions (l.addInstruction kind).1 .i64 :=
  ⟨_, List.mem_append_right _ List.mem_cons_self, rfl, hty⟩

section

variable {inst : RiscV.Instruction} {rd rs1 rs2 : ℕ} {imm : BitVec 64} (l : Lifter)

theorem liftRTypeBinaryOp_extends (opcode : BinaryOpcode) (hrd : rd < 32) (hrs1 : rs1 < 32)
    (hrs2 : rs2 < 32) (hops : inst.operands = [.register rd, .register rs1, .register rs2]) :
    ∃ l', l.liftRTypeBinaryOp inst opcode .i64 = .ok l' ∧ Extends l [rd] l' := by
  let r₁ := l.getRegisterValue rs1
  let r₂ := r₁.2.getRegisterValue rs2
  let r₃ := r₂.2.createBinaryOp opcode .i64 r₁.1 r₂.1
  have e : Extends l [] r₃.2 := .value (.read (.read .refl hrs1) hrs2) rfl
  refine ⟨r₃.2.setRegisterValue rd r₃.1, ?_, e.write hrd (produces_added _ rfl)⟩
  simp [Lifter.liftRTypeBinaryOp, RiscV.Instruction.getRegister, hops]
  rfl

theorem liftITypeBinaryOp_extends (opcode : BinaryOpcode) (hrd : rd < 32) (hrs1 : rs1 < 32)
    (hops : inst.operands = [.register rd, .register rs1, .immediate imm]) :
    ∃ l', l.liftITypeBinaryOp inst opcode .i64 = .ok l' ∧ Extends l [rd] l' := by
  let r₁ := l.getRegisterValue rs1
  let r₂ := r₁.2.createConstant .i64 imm
  let r₃ := r₂.2.createBinaryOp opcode .i64 r₁.1 r₂.1
  have e : Extends l [] r₃.2 := .value (.value (.read .refl hrs1) rfl) rfl
  refine ⟨r₃.2.setRegisterValue rd r₃.1, ?_, e.write hrd (produces_added _ rfl)⟩
  simp [Lifter.liftITypeBinaryOp, RiscV.Instruction.getRegister, RiscV.Instruction.getImmediate, hops]
  rfl

theorem liftWTypeBinaryOp_extends (opcode : BinaryOpcode) (hrd : rd < 32) (hrs1 : rs1 < 32)
    (hrs2 : rs2 < 32) (hops : inst.operands = [.register rd, .register rs1, .register rs2]) :
    ∃ l', l.liftWTypeBinaryOp inst opcode = .ok l' ∧ Extends l [rd] l' := by
  let r₁ := l.getRegisterValue rs1
  let r₂ := r₁.2.getRegisterValue rs2
  let r₃ := r₂.2.createTrunc .i32 r₁.1
  let r₄ := r₃.2.createTrunc .i32 r₂.1
  let r₅ := r₄.2.createBinaryOp opcode .i32 r₃.1 r₄.1
  let r₆ := r₅.2.createSext .i64 r₅.1
  have e : Extends l [] r₆.2 :=
    .value (.value (.value (.value (.read (.read .refl hrs1) hrs2) rfl) rfl) rfl) rfl
  refine ⟨r₆.2.setRegisterValue rd r₆.1, ?_, e.write hrd (produces_added _ rfl)⟩
  simp [Lifter.liftWTypeBinaryOp, RiscV.Instruction.getRegister, hops]
  rfl

theorem liftWTypeImmOp_extends (opcode : BinaryOpcode) (hrd : rd < 32) (hrs1 : rs1 < 32)
    (hops : inst.operands = [.register rd, .register rs1, .immediate imm]) :
    ∃ l', l.liftWTypeImmOp inst opcode = .ok l' ∧ Extends l [rd] l' := by
  let r₁ := l.getRegisterValue rs1
  let r₂ := r₁.2.createConstant .i32 imm
  let r₃ := r₂.2.createTrunc .i32 r₁.1
  let r₄ := r₃.2.createBinaryOp opcode .i32 r₃.1 r₂.1
  let r₅ := r₄.2.createSext .i64 r₄.1
  have e : Extends l [] r₅.2 := .value (.value (.value (.value (.read .refl hrs1) rfl) rfl) rfl) rfl
  refine ⟨r₅.2.setRegisterValue rd r₅.1, ?_, e.write hrd (produces_added _ rfl)⟩
  simp [Lifter.liftWTypeImmOp, RiscV.Instruction.getRegister, RiscV.Instruction.getImmediate, hops]
  rfl

theorem liftLoadInstruction_extends (ty : Ty) (sign : Bool) (hrd : rd < 32) (hrs1 : rs1 < 32)
    (hops : inst.operands = [.register rd, .register rs1, .immediate imm]) :
    ∃ l', l.liftLoadInstruction inst ty sign = .ok l' ∧ Extends l [rd] l' := by
  let r₁ := l.getRegisterValue rs1
  let r₂ := r₁.2.createConstant .i64 imm
  let r₃ := r₂.2.createBinaryOp .add .i64 r₁.1 r₂.1
  let r₄ := r₃.2.createLoad ty r₃.1
  let r₅ := if ty ≠ .i64 then if sign then r₄.2.createSext .i64 r₄.1 else r₄.2.createZext .i64 r₄.1
    else r₄
  have e₄ : Extends l [] r₄.2 := .value (.value (.value (.read .refl hrs1) rfl) rfl) rfl
  have e₅ : Extends l [] r₅.2 ∧ Produces r₅.2.currentInstructions r₅.1 .i64 := by
    by_cases hty : ty = .i64
    · subst hty
      exact ⟨e₄, produces_added _ rfl⟩
    · simp only [r₅, ne_eq, hty, not_false_eq_true, if_true]
      cases sign
      · exact ⟨e₄.value rfl, produces_added _ rfl⟩
      · exact ⟨e₄.value rfl, produces_added _ rfl⟩
  refine ⟨r₅.2.setRegisterValue rd r₅.1, ?_, e₅.1.write hrd e₅.2⟩
  simp only [Lifter.liftLoadInstruction, RiscV.Instruction.getRegister,
    RiscV.Instruction.getImmediate, hops, List.getElem?_cons_zero, List.getElem?_cons_succ]
  rfl

theorem liftStoreInstruction_extends (ty : Ty) (hrs1 : rs1 < 32) (hrs2 : rs2 < 32)
    (hops : inst.operands = [.register rs1, .register rs2, .immediate imm]) :
    ∃ l', l.liftStoreInstruction inst ty = .ok l' ∧ Extends l [] l' := by
  let r₁ := l.getRegisterValue rs1
  let r₂ := r₁.2.getRegisterValue rs2
  let r₃ := r₂.2.createConstant .i64 imm
  let r₄ := r₃.2.createBinaryOp .add .i64 r₁.1 r₃.1
  let r₅ := if ty ≠ .i64 then r₄.2.createTrunc ty r₂.1 else (r₂.1, r₄.2)
  have e₄ : Extends l [] r₄.2 := .value (.value (.read (.read .refl hrs1) hrs2) rfl) rfl
  have e₅ : Extends l [] r₅.2 := by
    by_cases hty : ty = .i64
    · simpa only [r₅, hty, ne_eq, not_true_eq_false, if_false] using e₄
    · simp only [r₅, ne_eq, hty, not_false_eq_true, if_true]
      exact e₄.value rfl
  refine ⟨(r₅.2.createStore r₅.1 r₄.1).2, ?_, e₅.value rfl⟩
  simp only [Lifter.liftStoreInstruction, RiscV.Instruction.getRegister,
    RiscV.Instruction.getImmediate, hops, List.getElem?_cons_zero, List.getElem?_cons_succ]
  rfl

end

def destination (inst : RiscV.Instruction) : Option ℕ :=
  match inst.opcode.format, inst.operands with
  | .r, .register rd :: _ | .i, .register rd :: _ | .u, .register rd :: _ | .j, .register rd :: _ =>
    some rd
  | _, _ => none

section

variable {inst : RiscV.Instruction} {l : Lifter}

def Adds (l : Lifter) (inst : RiscV.Instruction) : Prop :=
  ∃ l', l.liftSingleInstruction inst = .ok l' ∧ Extends l (destination inst).toList l'

theorem adds_register (opcode : BinaryOpcode) (hformat : inst.opcode.format = .r)
    (hs : Shaped .r inst.operands)
    (hl : l.liftSingleInstruction inst = l.liftRTypeBinaryOp inst opcode .i64) : Adds l inst := by
  generalize hops : inst.operands = operands at hs
  cases hs with
  | r hrd hrs1 hrs2 =>
    obtain ⟨l', hok, e⟩ := liftRTypeBinaryOp_extends l opcode hrd hrs1 hrs2 hops
    refine ⟨l', hl.trans hok, ?_⟩
    simpa [destination, hformat, hops] using e

theorem adds_word (opcode : BinaryOpcode) (hformat : inst.opcode.format = .r)
    (hs : Shaped .r inst.operands)
    (hl : l.liftSingleInstruction inst = l.liftWTypeBinaryOp inst opcode) : Adds l inst := by
  generalize hops : inst.operands = operands at hs
  cases hs with
  | r hrd hrs1 hrs2 =>
    obtain ⟨l', hok, e⟩ := liftWTypeBinaryOp_extends l opcode hrd hrs1 hrs2 hops
    refine ⟨l', hl.trans hok, ?_⟩
    simpa [destination, hformat, hops] using e

theorem adds_immediate (hformat : inst.opcode.format = .i) (hs : Shaped .i inst.operands)
    (hl : ∀ rd rs1 imm, rd < 32 → rs1 < 32 →
      inst.operands = [.register rd, .register rs1, .immediate imm] →
      ∃ l', l.liftSingleInstruction inst = .ok l' ∧ Extends l [rd] l') : Adds l inst := by
  generalize hops : inst.operands = operands at hs
  cases hs with
  | i hrd hrs1 imm =>
    obtain ⟨l', hok, e⟩ := hl _ _ _ hrd hrs1 hops
    refine ⟨l', hok, ?_⟩
    simpa [destination, hformat, hops] using e

theorem adds_store (ty : Ty) (hformat : inst.opcode.format = .s) (hs : Shaped .s inst.operands)
    (hl : l.liftSingleInstruction inst = l.liftStoreInstruction inst ty) : Adds l inst := by
  generalize hops : inst.operands = operands at hs
  cases hs with
  | s hrs1 hrs2 imm =>
    obtain ⟨l', hok, e⟩ := liftStoreInstruction_extends l ty hrs1 hrs2 hops
    refine ⟨l', hl.trans hok, ?_⟩
    simpa [destination, hformat, hops] using e

theorem adds_upperImmediate (hs : Shaped .u inst.operands)
    (hop : inst.opcode = .lui ∨ inst.opcode = .auipc) : Adds l inst := by
  generalize hops : inst.operands = operands at hs
  cases hs with
  | @u rd hrd imm =>
    generalize (imm ++ 0#12).signExtend 64 = k at hops
    have hdest : destination inst = some rd := by
      rcases hop with hop | hop <;> simp [destination, hop, Opcode.format, hops]
    rw [Adds, hdest]
    rcases hop with hop | hop
    · let r₁ := l.createConstant .i64 (k <<< 12)
      have e : Extends l [] r₁.2 := .value .refl rfl
      refine ⟨r₁.2.setRegisterValue rd r₁.1, ?_, e.write hrd (produces_added _ rfl)⟩
      simp [liftSingleInstruction, hop, RiscV.Instruction.getRegister,
        RiscV.Instruction.getImmediate, hops]
      rfl
    · let r₁ := l.createConstant .i64 inst.address
      let r₂ := r₁.2.createConstant .i64 (k <<< 12)
      let r₃ := r₂.2.createBinaryOp .add .i64 r₁.1 r₂.1
      have e : Extends l [] r₃.2 := .value (.value (.value .refl rfl) rfl) rfl
      refine ⟨r₃.2.setRegisterValue rd r₃.1, ?_, e.write hrd (produces_added _ rfl)⟩
      simp [liftSingleInstruction, hop, RiscV.Instruction.getRegister,
        RiscV.Instruction.getImmediate, hops]
      rfl

theorem liftSingleInstruction_adds (hi : Liftable inst) (l : Lifter) : Adds l inst := by
  obtain ⟨hop, hs⟩ := hi
  obtain ⟨opcode, operands, raw, address⟩ := inst
  dsimp only at hop hs
  cases opcode with
  | add => exact adds_register .add rfl hs rfl
  | sub => exact adds_register .sub rfl hs rfl
  | and => exact adds_register .and rfl hs rfl
  | or => exact adds_register .or rfl hs rfl
  | xor => exact adds_register .xor rfl hs rfl
  | sll => exact adds_register .shl rfl hs rfl
  | srl => exact adds_register .shr rfl hs rfl
  | sra => exact adds_register .sar rfl hs rfl
  | slt => exact adds_register .lt rfl hs rfl
  | sltu => exact adds_register .ltU rfl hs rfl
  | addw => exact adds_word .add rfl hs rfl
  | addi => exact adds_immediate rfl hs fun _ _ _ h h' hops => liftITypeBinaryOp_extends l .add h h' hops
  | andi => exact adds_immediate rfl hs fun _ _ _ h h' hops => liftITypeBinaryOp_extends l .and h h' hops
  | ori => exact adds_immediate rfl hs fun _ _ _ h h' hops => liftITypeBinaryOp_extends l .or h h' hops
  | xori => exact adds_immediate rfl hs fun _ _ _ h h' hops => liftITypeBinaryOp_extends l .xor h h' hops
  | slli => exact adds_immediate rfl hs fun _ _ _ h h' hops => liftITypeBinaryOp_extends l .shl h h' hops
  | srli => exact adds_immediate rfl hs fun _ _ _ h h' hops => liftITypeBinaryOp_extends l .shr h h' hops
  | srai => exact adds_immediate rfl hs fun _ _ _ h h' hops => liftITypeBinaryOp_extends l .sar h h' hops
  | slti => exact adds_immediate rfl hs fun _ _ _ h h' hops => liftITypeBinaryOp_extends l .lt h h' hops
  | sltiu => exact adds_immediate rfl hs fun _ _ _ h h' hops => liftITypeBinaryOp_extends l .ltU h h' hops
  | addiw => exact adds_immediate rfl hs fun _ _ _ h h' hops => liftWTypeImmOp_extends l .add h h' hops
  | slliw => exact adds_immediate rfl hs fun _ _ _ h h' hops => liftWTypeImmOp_extends l .shl h h' hops
  | lb => exact adds_immediate rfl hs fun _ _ _ h h' hops => liftLoadInstruction_extends l .i8 true h h' hops
  | lh => exact adds_immediate rfl hs fun _ _ _ h h' hops => liftLoadInstruction_extends l .i16 true h h' hops
  | lw => exact adds_immediate rfl hs fun _ _ _ h h' hops => liftLoadInstruction_extends l .i32 true h h' hops
  | lwu => exact adds_immediate rfl hs fun _ _ _ h h' hops => liftLoadInstruction_extends l .i32 false h h' hops
  | ld => exact adds_immediate rfl hs fun _ _ _ h h' hops => liftLoadInstruction_extends l .i64 false h h' hops
  | sw => exact adds_store .i32 rfl hs rfl
  | sd => exact adds_store .i64 rfl hs rfl
  | lui => exact adds_upperImmediate hs (.inl rfl)
  | auipc => exact adds_upperImmediate hs (.inr rfl)
  | _ => cases hop

theorem createConditionalBranch_extends {rs1 rs2 : ℕ} {imm : BitVec 64} (compareOp : BinaryOpcode)
    (fallThrough : BitVec 64) (hrs1 : rs1 < 32) (hrs2 : rs2 < 32)
    (hops : inst.operands = [.register rs1, .register rs2, .immediate imm]) :
    ∃ terminator l' rs, l.createConditionalBranch compareOp inst fallThrough = .ok (terminator, l') ∧
      Extends l rs l' := by
  let r₁ := l.getRegisterValue rs1
  let r₂ := r₁.2.getRegisterValue rs2
  let r₃ := r₂.2.createBinaryOp compareOp .i1 r₁.1 r₂.1
  refine ⟨.condBranch r₃.1 (inst.address + imm) fallThrough, r₃.2, [], ?_,
    .value (.read (.read .refl hrs1) hrs2) rfl⟩
  simp [Lifter.createConditionalBranch, RiscV.Instruction.getRegister,
    RiscV.Instruction.getImmediate, hops]
  rfl

theorem liftJalr_extends {rd rs1 : ℕ} {imm : BitVec 64} (fallThrough : BitVec 64)
    (hop : inst.opcode = .jalr) (hrd : rd < 32) (hrs1 : rs1 < 32)
    (hops : inst.operands = [.register rd, .register rs1, .immediate imm]) :
    ∃ terminator l' rs, l.liftTerminator inst fallThrough = .ok (terminator, l') ∧
      Extends l rs l' := by
  simp only [Lifter.liftTerminator, hop, RiscV.Instruction.getRegister, List.getElem?_cons_zero,
    RiscV.Instruction.getImmediate, List.getElem?_cons_succ, hops, bind, Except.bind]
  by_cases hret : rd = REG_ZERO ∧ rs1 = REG_RA ∧ imm = 0#64
  · rw [if_pos hret]
    exact ⟨_, _, _, rfl, .refl⟩
  · rw [if_neg hret]
    let r₁ := l.getRegisterValue rs1
    let r₂ := r₁.2.createConstant .i64 imm
    let r₃ := r₂.2.createBinaryOp .add .i64 r₁.1 r₂.1
    let r₄ := r₃.2.createConstant .i64 JALR_ALIGN_MASK
    let r₅ := r₄.2.createBinaryOp .and .i64 r₃.1 r₄.1
    have e : Extends l [] r₅.2 := .value (.value (.value (.value (.read .refl hrs1) rfl) rfl) rfl) rfl
    by_cases hrd0 : rd ≠ REG_ZERO
    · rw [if_pos hrd0]
      exact ⟨_, _, _, rfl, (e.value rfl).write hrd (produces_added _ rfl)⟩
    · rw [if_neg hrd0]
      exact ⟨_, _, _, rfl, e⟩

theorem liftTerminator_extends (fallThrough : BitVec 64)
    (hop : inst.opcode.isControlTransfer = true) (hs : Shaped inst.opcode.format inst.operands) :
    ∃ terminator l' rs, l.liftTerminator inst fallThrough = .ok (terminator, l') ∧
      Extends l rs l' := by
  obtain ⟨opcode, operands, raw, address⟩ := inst
  cases opcode with
  | jal =>
    cases hs with
    | @j rd hrd halfOffset =>
      let r₁ := l.createConstant .i64 (address + 4#64)
      exact ⟨_, r₁.2.setRegisterValue rd r₁.1, _, rfl,
        .write (.value .refl rfl) hrd (produces_added _ rfl)⟩
  | jalr =>
    cases hs with
    | i hrd hrs1 imm => exact liftJalr_extends fallThrough rfl hrd hrs1 rfl
  | beq =>
    cases hs with
    | b hrs1 hrs2 offset => exact createConditionalBranch_extends .eq fallThrough hrs1 hrs2 rfl
  | bne =>
    cases hs with
    | b hrs1 hrs2 offset => exact createConditionalBranch_extends .ne fallThrough hrs1 hrs2 rfl
  | blt =>
    cases hs with
    | b hrs1 hrs2 offset => exact createConditionalBranch_extends .lt fallThrough hrs1 hrs2 rfl
  | bge =>
    cases hs with
    | b hrs1 hrs2 offset => exact createConditionalBranch_extends .ge fallThrough hrs1 hrs2 rfl
  | bltu =>
    cases hs with
    | b hrs1 hrs2 offset => exact createConditionalBranch_extends .ltU fallThrough hrs1 hrs2 rfl
  | bgeu =>
    cases hs with
    | b hrs1 hrs2 offset => exact createConditionalBranch_extends .geU fallThrough hrs1 hrs2 rfl
  | _ => cases hop

end

section

variable {order : List ℕ → List ℕ} {body instructions : List RiscV.Instruction} {l : Lifter}

theorem liftInstructions_coherent (order : List ℕ → List ℕ) (hbody : ∀ i ∈ body, Liftable i)
    (h : Coherent l) :
    ∃ l', (∀ rest terminator, liftInstructions order (body ++ rest) terminator l =
        liftInstructions order rest terminator l') ∧
      Coherent l' ∧ writes l'.currentInstructions = writes l.currentInstructions ∧
      ∀ r, r ∈ l'.modifiedRegisters ↔
        r ∈ l.modifiedRegisters ∨ r ≠ 0 ∧ ∃ i ∈ body, destination i = some r := by
  induction body generalizing l with
  | nil => exact ⟨l, fun _ _ => rfl, h, rfl, by simp⟩
  | cons inst body ih =>
    have hi := hbody inst List.mem_cons_self
    obtain ⟨l₁, hok, e⟩ := liftSingleInstruction_adds hi l
    obtain ⟨l', heq, h', hwrites, hmodified⟩ :=
      ih (fun i hmem => hbody i (List.mem_cons_of_mem inst hmem)) (e.coherent h)
    refine ⟨l', fun rest terminator => ?_, h', hwrites.trans e.writes_eq, fun r => ?_⟩
    · rw [List.cons_append, liftInstructions_cons hi.not_isTerminator, hok, ← heq]
      rfl
    · rw [hmodified, e.mem_modified, Option.mem_toList]
      constructor
      · rintro ((hr | ⟨hd, h0⟩) | ⟨h0, i, hi, hd⟩)
        · exact .inl hr
        · exact .inr ⟨h0, inst, List.mem_cons_self, hd⟩
        · exact .inr ⟨h0, i, List.mem_cons_of_mem inst hi, hd⟩
      · rintro (hr | ⟨h0, i, hi, hd⟩)
        · exact .inl (.inl hr)
        · rcases List.mem_cons.mp hi with rfl | hi
          · exact .inl (.inr ⟨hd, h0⟩)
          · exact .inr ⟨h0, i, hi, hd⟩

theorem writes_coherent (rs : List ℕ) (h : Coherent l)
    (hrs : ∀ r ∈ rs, 1 ≤ r ∧ r < 32 ∧ (l.cachedRegisterValues r).isSome) :
    Coherent (rs.foldl (fun l regNum =>
        (l.addInstruction (.regWrite regNum ((l.cachedRegisterValues regNum).getD 0))).2) l) ∧
      writes (rs.foldl (fun l regNum => (l.addInstruction
          (.regWrite regNum ((l.cachedRegisterValues regNum).getD 0))).2) l).currentInstructions =
        writes l.currentInstructions ++ rs := by
  induction rs generalizing l with
  | nil => exact ⟨h, (List.append_nil _).symm⟩
  | cons r rs ih =>
    obtain ⟨hpos, hlt, hsome⟩ := hrs r List.mem_cons_self
    obtain ⟨hcoherent, hwrites⟩ :=
      ih (h.regWrite hpos hlt hsome ((l.cachedRegisterValues r).getD 0)) fun k hk =>
        hrs k (List.mem_cons_of_mem r hk)
    refine ⟨hcoherent, ?_⟩
    rw [List.foldl_cons, hwrites]
    simp [addInstruction, writes, InstructionKind.written]

theorem coherent_cleared (l : Lifter) : Coherent l.cleared where
  ids _ hi := by cases hi
  ordered := .nil
  registers _ hi := by cases hi
  cached _ _ hid := by cases hid
  modified _ hr := by cases hr
  nodup := .nil

theorem finalize_coherent (horder : ∀ rs, (order rs).Perm rs) (h : Coherent l)
    (hwrites : writes l.currentInstructions = []) :
    Coherent (l.finalizeRegisterWrites order) ∧
      (writes (l.finalizeRegisterWrites order).currentInstructions).Perm l.modifiedRegisters := by
  obtain ⟨hcoherent, heq⟩ := writes_coherent (order l.modifiedRegisters) h fun r hr =>
    h.modified r ((horder _).mem_iff.mp hr)
  rw [hwrites, List.nil_append] at heq
  refine ⟨hcoherent, ?_⟩
  rw [finalizeRegisterWrites, heq]
  exact horder _

theorem straightPart_cases
    (hlast : ∀ i ∈ instructions.dropLast, i.opcode.isControlTransfer = false) :
    straightPart instructions = instructions ∨
      ∃ t, instructions = straightPart instructions ++ [t] ∧ isTerminator t = true := by
  rcases List.eq_nil_or_concat instructions with rfl | ⟨before, t, rfl⟩
  · exact .inl rfl
  · rw [List.concat_eq_append] at hlast ⊢
    rw [List.dropLast_concat] at hlast
    have hbefore : ∀ i ∈ before, (!isTerminator i) = true := by
      intro i hi
      rw [isTerminator_eq, hlast i hi]
      rfl
    rw [straightPart, List.takeWhile_append_of_pos hbefore]
    cases ht : isTerminator t with
    | true => exact .inr ⟨t, by simp [ht], ht⟩
    | false => exact .inl (by simp [ht])

theorem liftBasicBlock_coherent (horder : ∀ rs, (order rs).Perm rs) (l : Lifter)
    (hsup : ∀ i ∈ instructions, i.Supported)
    (hlast : ∀ i ∈ instructions.dropLast, i.opcode.isControlTransfer = false) :
    ∃ block l', liftBasicBlock order instructions l = .ok (block, l') ∧
      block.instructions = l'.currentInstructions ∧ Coherent l' ∧
      (writes block.instructions).Nodup ∧ ∀ r, r ∈ writes block.instructions ↔
        r ≠ 0 ∧ ∃ i ∈ straightPart instructions, destination i = some r := by
  obtain ⟨l₁, heq, h₁, hwrites, hmodified⟩ :=
    liftInstructions_coherent order (straightPart_liftable hsup) (coherent_cleared l)
  obtain ⟨h₂, hperm⟩ := finalize_coherent horder h₁ hwrites
  have hmem (r : ℕ) : r ∈ writes (l₁.finalizeRegisterWrites order).currentInstructions ↔
      r ≠ 0 ∧ ∃ i ∈ straightPart instructions, destination i = some r := by
    rw [hperm.mem_iff, hmodified]
    simp [cleared]
  have hnodup := hperm.nodup_iff.mpr h₁.nodup
  rcases straightPart_cases hlast with hpart | ⟨t, hsplit, ht⟩
  · have hlift := heq [] (.branch 0#64)
    rw [List.append_nil, hpart, liftInstructions] at hlift
    rw [liftBasicBlock_eq, hlift]
    cases hl : instructions.getLast? with
    | none => exact ⟨_, _, rfl, rfl, h₂, hnodup, hmem⟩
    | some last =>
      have hlast : isTerminator last = false := by
        have hin := List.mem_of_getLast? hl
        rw [← hpart] at hin
        exact (straightPart_liftable hsup last hin).not_isTerminator
      simp only [Except.bind, hlast, Bool.not_false, if_true]
      exact ⟨_, _, rfl, rfl, h₂, hnodup, hmem⟩
  · have hlift := heq [t] (.branch 0#64)
    have hsupt : t.Supported := hsup t (by rw [hsplit]; simp)
    obtain ⟨terminator, l', rs, hok, e⟩ := liftTerminator_extends
      (l := l₁.finalizeRegisterWrites order) (fallThroughAddress t [])
      ((isTerminator_eq t).symm.trans ht) hsupt.operands
    rw [← hsplit, liftInstructions_transfer ht, hok] at hlift
    have hl : instructions.getLast? = some t := by rw [hsplit]; simp
    refine ⟨⟨l'.currentInstructions, terminator⟩, l', ?_, rfl, e.coherent h₂, ?_⟩
    · rw [liftBasicBlock_eq, hlift, hl]
      simp [Except.bind, ht]
    · dsimp only
      rw [e.writes_eq]
      exact ⟨hnodup, hmem⟩

end

end DinoRisc.Lifter
