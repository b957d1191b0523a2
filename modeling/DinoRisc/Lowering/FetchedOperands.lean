import DinoRisc.Lowering.BranchBlock

/-!
The allocation of a block that reads the operands of its branch at its end. Nothing but `X0` is
carried into that part, so the scan begins there with its first register.
-/

namespace DinoRisc

open Arm64 IR InstructionSelector LivenessAnalysis RegisterAllocator

variable {code before after : Code} {last : Arm64.Instruction} {v : VirtualRegister}
  {s : RegisterAllocator}

/-- Where all that is read from its last write on is written later, a register takes the first one. -/
theorem registerOf_first (hemitted : ∀ inst ∈ code, inst.Emitted)
    (hscan : allocateIntervals (computeLiveIntervals (code ++ selectRet)) init = some s)
    (hcode : code = before ++ last :: after) (hlast : last.target = some (.virtual v))
    (hv : .virtual v ∉ targets after)
    (hreads : ∀ inst ∈ last :: after, ∀ w, .virtual w ∈ inst.sources →
      w = v ∨ .virtual w ∈ targets after) : s.registerOf v = .x 1 := by
  have hk : code[before.length]? = some last := by simp [hcode]
  have hlater {i : ℕ} (hi : before.length < i) {inst : Arm64.Instruction}
      (hinst : code[i]? = some inst) : inst ∈ after := by
    rw [hcode, List.getElem?_append_right (by omega)] at hinst
    obtain ⟨k, hk⟩ : ∃ k, i - before.length = k + 1 := ⟨i - before.length - 1, by omega⟩
    rw [hk, List.getElem?_cons_succ] at hinst
    exact List.mem_of_getElem? hinst
  obtain ⟨a, ha, rfl, hle, hdef, -⟩ := interval_of_defines
    (defines_selectRet.mpr (defines_of_target hemitted hk hlast))
  have hstart : a.start = before.length := by
    by_contra hne
    obtain ⟨other, hother, htarget⟩ := target_of_defines hemitted (defines_selectRet.mp hdef)
    exact hv ⟨other, hlater (by omega) hother, htarget⟩
  have hzero : pressure (computeLiveIntervals (code ++ selectRet)) a.start = 0 := by
    rw [pressure, List.countP_eq_zero]
    intro b hb hheld
    obtain ⟨hlt, hstop⟩ : b.start < a.start ∧ a.start ≤ b.stop := by simpa using hheld
    obtain ⟨w, ⟨i, hi⟩, rfl⟩ := mem_computeLiveIntervals.mp hb
    rcases stop_cases (code ++ selectRet) w with heq | huse
    · omega
    · obtain ⟨user, huser, hused⟩ := uses_selectRet.mp huse
      rw [hstart] at hlt hstop
      have hmem : user ∈ last :: after := by
        rcases Nat.eq_or_lt_of_le hstop with heq | hlt
        · rw [← heq, hk] at huser
          cases huser
          exact List.mem_cons_self
        · exact List.mem_cons_of_mem _ (hlater hlt huser)
      rcases hreads user hmem w (source_of_used hused) with rfl | ⟨other, hother, htarget⟩
      · obtain ⟨_, -, rfl⟩ := mem_computeLiveIntervals.mp ha
        exact absurd hlt (Nat.not_lt.mpr hstart.ge)
      · obtain ⟨k, hk⟩ := List.mem_iff_getElem?.mp hother
        have hj : code[before.length + (k + 1)]? = some other := by
          rw [hcode, List.getElem?_append_right (Nat.le_add_right _ _), Nat.add_sub_cancel_left,
            List.getElem?_cons_succ]
          exact hk
        have hsite := (defSites_last (defines_selectRet.mpr (defines_of_target hemitted hj htarget))).2
        simp only [UseDef.interval] at hlt
        omega
  have hfirst := allocateIntervals_first (computeLiveIntervals_ordered _) hscan ha hzero
  rw [registerOf, hfirst, Option.getD_some]

namespace InstructionSelector

variable {p : Place} {e rest : Code} {out : Set Place} {ρ : VirtualRegister → Register}
  {a b c t f x : VirtualRegister} {condition : Condition} {trueBlock falseBlock : BitVec 64}

/-- Code that puts a guest register or a constant into `p`. -/
structure Fetches (p : Place) (code : Code) : Prop where
  target : ∀ inst ∈ code, inst.target = some p
  sources : ∀ inst ∈ code, ∀ q ∈ inst.sources, q = p ∨ q = .physical (.x 0)
  closed : Scoped {.physical (.x 0)} code
  ne : code ≠ []

theorem Loads.fetches (h : Loads p code) : Fetches p code :=
  ⟨h.target, fun inst hinst q hq => .inl (h.sources inst hinst q hq), h.closed _, h.ne⟩

namespace Fetches

theorem targets (h : Fetches p code) : targets code = {p} := targets_of_forall h.target h.ne

theorem live_subset (h : Fetches p code) : live out code ⊆ {.physical (.x 0)} ∪ (out \ {p}) := by
  rw [← h.targets]
  exact Arm64.live_subset h.closed

theorem compatible (h : Fetches p code) (hp : p.rename ρ ≠ .physical (.x 0))
    (hout : ∀ q ∈ out, q.rename ρ = p.rename ρ → q = p) : Compatible ρ out code := by
  rintro before inst after q rfl htarget r hr heq
  obtain rfl : q = p := Option.some.inj (htarget.symm.trans (h.target inst (by simp)))
  rcases mem_live hr with ⟨_, user, _, rfl, hsource, -⟩ | ⟨hr, -⟩
  · rcases h.sources user (by simp) r hsource with rfl | rfl
    · rfl
    · exact absurd heq.symm hp
  · exact hout r hr heq

end Fetches

/-- The comparison of two operands and the branch on its result. -/
def compareBranch (a b c t f x : VirtualRegister) (condition : Condition)
    (trueBlock falseBlock : BitVec 64) : Code :=
  [.twoOperand .cmp .x (.virtual a) (.virtual b), .conditional .cset .x (.virtual c) condition] ++
    (branchBody c t f x trueBlock falseBlock ++ [.twoOperand .mov .x X0 (.virtual x)])

theorem live_compareBranch : live {.physical (.x 0)}
    (compareBranch a b c t f x condition trueBlock falseBlock) ⊆ {.virtual a, .virtual b} := by
  rintro q (hq | ⟨hq | ⟨hq, hc⟩, -⟩)
  · simpa [Instruction.sources, Instruction.reads, Operand.place] using hq
  · simp [Instruction.sources, Instruction.reads] at hq
  · obtain rfl := live_branch hq
    exact absurd rfl hc

theorem compatible_compareBranch (hne : ρ t ≠ ρ f) : Compatible ρ {.physical (.x 0)}
    (compareBranch a b c t f x condition trueBlock falseBlock) := by
  apply compatible_cons.mpr
  constructor
  · rintro p htarget
    cases htarget
  · apply compatible_cons.mpr
    refine ⟨?_, compatible_branch hne⟩
    rintro p htarget q hq -
    cases htarget
    exact live_branch hq

end InstructionSelector

/-- Where nothing but `X0` is carried from `code` into `tail`, it is enough that they are compatible
apart. -/
theorem compatible_of_front {tail : Code} (hemitted : ∀ inst ∈ code ++ tail, inst.Emitted)
    (halloc : Allocates s (computeLiveIntervals (code ++ tail ++ selectRet)))
    (hclustered : Clustered code) (hclosed : Scoped {.physical (.x 0)} code)
    (hfresh : ∀ p ∈ targets code, ∃ vreg, p = .virtual vreg)
    (hdisjoint : ∀ vreg, .virtual vreg ∈ targets code → .virtual vreg ∉ targets tail)
    (hlive : live {.physical (.x 0)} tail ⊆ {.physical (.x 0)})
    (htail : Compatible s.registerOf {.physical (.x 0)} tail) :
    Compatible s.registerOf {.physical (.x 0)} (code ++ tail) := by
  refine Compatible.append (Compatible.anti ?_ hlive) htail
  refine compatible_of_separate hclosed halloc.registerOf_ne_X0 (fun p hp => .inr (hfresh p hp)) ?_
  rintro d v ⟨hvd, before, inst, mid, user, rest, rfl, hd, hsource, hbefore, -⟩
  have hv : .virtual v ∉ targets (inst :: (mid ++ user :: rest)) := by
    have hassoc : before ++ inst :: mid ++ user :: rest = before ++ inst :: (mid ++ user :: rest) := by
      simp
    refine (hassoc ▸ hclustered).notMem_targets hbefore ?_
    rw [hd]
    exact fun heq => hvd (Place.virtual.inj (Option.some.inj heq)).symm
  have hsplit : before ++ inst :: mid ++ user :: rest ++ tail =
      before ++ inst :: mid ++ user :: (rest ++ tail) := by
    simp
  refine registerOf_ne_of_split hemitted halloc hsplit hbefore hd hsource ?_ ?_
  · rw [← List.cons_append, ← List.append_assoc, targets_append]
    rintro (hmem | hmem)
    · exact hv (by simpa using hmem)
    · refine hdisjoint v ?_ hmem
      rw [List.append_assoc, targets_append]
      exact .inl hbefore
  · rw [targets_append]
    rintro (hmem | hmem)
    · exact hclustered.notMem_after hd hsource hvd hmem
    · exact hdisjoint d ⟨inst, by simp, hd⟩ hmem

namespace InstructionSelector

variable {a b c t f x w : VirtualRegister} {condition : Condition} {trueBlock falseBlock : BitVec 64}

/-- The part of a branch behind the first constant. -/
def selectTail (t f x : VirtualRegister) (falseBlock : BitVec 64) : Code :=
  selectConstIntoRegister .i64 falseBlock (.virtual f) ++
    [.conditionalSelect .csel .x (.virtual x) (.virtual t) (.virtual f) .ne,
      .twoOperand .mov .x X0 (.virtual x)]

theorem compareBranch_eq (a b c t f x : VirtualRegister) (condition : Condition)
    (trueBlock falseBlock : BitVec 64) :
    compareBranch a b c t f x condition trueBlock falseBlock =
      [.twoOperand .cmp .x (.virtual a) (.virtual b), .conditional .cset .x (.virtual c) condition,
        .twoOperand .cmp .x (.virtual c) (.immediate 0#64)] ++
        (selectConstIntoRegister .i64 trueBlock (.virtual t) ++ selectTail t f x falseBlock) := by
  simp [compareBranch, branchBody, selectTail]

theorem targets_selectTail (t f x : VirtualRegister) (falseBlock : BitVec 64) :
    targets (selectTail t f x falseBlock) = {.virtual f, .virtual x, .physical (.x 0)} := by
  have hf := selectConstIntoRegister_loads (.virtual f) rfl .i64 falseBlock
  rw [selectTail, targets_append, hf.targets]
  ext p
  simp [targets, Instruction.target, Operand.place, X0, eq_comm]

theorem reads_selectTail {inst : Arm64.Instruction} (hinst : inst ∈ selectTail t f x falseBlock)
    (hw : .virtual w ∈ inst.sources) : w = t ∨ w = f ∨ w = x := by
  have hf := selectConstIntoRegister_loads (.virtual f) rfl .i64 falseBlock
  rcases List.mem_append.mp hinst with hinst | hinst
  · exact .inr (.inl (Place.virtual.inj (hf.sources inst hinst _ hw)))
  · simp only [List.mem_cons, List.not_mem_nil, or_false] at hinst
    rcases hinst with rfl | rfl <;>
      simp [Instruction.sources, Instruction.reads, Operand.place] at hw <;> tauto

theorem targets_compareBranch : targets (compareBranch a b c t f x condition trueBlock falseBlock) =
    {.virtual c, .virtual t, .virtual f, .virtual x, .physical (.x 0)} := by
  have ht := selectConstIntoRegister_loads (.virtual t) rfl .i64 trueBlock
  rw [compareBranch_eq, targets_append, targets_append, ht.targets, targets_selectTail]
  ext p
  simp [targets, Instruction.target, Operand.place, eq_comm]
  tauto

theorem reads_compareBranch {inst : Arm64.Instruction}
    (hinst : inst ∈ compareBranch a b c t f x condition trueBlock falseBlock)
    (hw : .virtual w ∈ inst.sources) :
    w = a ∨ w = b ∨ w = c ∨ w = t ∨ w = f ∨ w = x := by
  have ht := selectConstIntoRegister_loads (.virtual t) rfl .i64 trueBlock
  rw [compareBranch_eq] at hinst
  rcases List.mem_append.mp hinst with hinst | hinst
  · simp only [List.mem_cons, List.not_mem_nil, or_false] at hinst
    rcases hinst with rfl | rfl | rfl <;>
      simp [Instruction.sources, Instruction.reads, Operand.place] at hw <;> tauto
  · rcases List.mem_append.mp hinst with hinst | hinst
    · have heq := Place.virtual.inj (ht.sources inst hinst _ hw)
      tauto
    · have := reads_selectTail hinst hw
      tauto

end InstructionSelector

section

variable {front e e' rest : Code} {a b c t f x : VirtualRegister} {condition : Condition}
  {trueBlock falseBlock : BitVec 64}

/-- A register that is loaded while nothing is held is the first one. -/
theorem registerOf_fetched (hemitted : ∀ inst ∈ code, inst.Emitted)
    (hscan : allocateIntervals (computeLiveIntervals (code ++ selectRet)) init = some s)
    (hfetch : Fetches (.virtual v) e) (hcode : code = front ++ e ++ rest)
    (hv : .virtual v ∉ targets rest)
    (hreads : ∀ inst ∈ rest, ∀ w, .virtual w ∈ inst.sources → w = v ∨ .virtual w ∈ targets rest) :
    s.registerOf v = .x 1 := by
  obtain ⟨inits, last, hlast⟩ := (List.eq_nil_or_concat _).resolve_left hfetch.ne
  have hmem : last ∈ e := by simp [hlast]
  have hsplit : code = (front ++ inits) ++ last :: rest := by simp [hcode, hlast]
  refine registerOf_first hemitted hscan hsplit (hfetch.target last hmem) hv ?_
  intro inst hinst w hw
  rcases List.mem_cons.mp hinst with rfl | hinst
  · rcases hfetch.sources _ hmem _ hw with heq | heq
    · exact .inl (Place.virtual.inj heq)
    · cases heq
  · exact hreads inst hinst w hw

variable
  (hemitted : ∀ inst ∈ front ++ compareBranch a b c t f x condition trueBlock falseBlock, inst.Emitted)
  (htf : t ≠ f) (htx : t ≠ x)

include hemitted htf htx

theorem registerOf_taken (hscan : allocateIntervals (computeLiveIntervals (front ++
    compareBranch a b c t f x condition trueBlock falseBlock ++ selectRet)) init = some s) :
    s.registerOf t = .x 1 := by
  have ht := selectConstIntoRegister_loads (.virtual t) rfl .i64 trueBlock
  have hcode : front ++ compareBranch a b c t f x condition trueBlock falseBlock =
      (front ++ [.twoOperand .cmp .x (.virtual a) (.virtual b),
        .conditional .cset .x (.virtual c) condition,
        .twoOperand .cmp .x (.virtual c) (.immediate 0#64)]) ++
          selectConstIntoRegister .i64 trueBlock (.virtual t) ++ selectTail t f x falseBlock := by
    simp [compareBranch_eq]
  refine registerOf_fetched hemitted hscan ht.fetches hcode ?_ ?_
  · simp [targets_selectTail, htf, htx]
  · intro inst hinst w hw
    rw [targets_selectTail]
    simpa using reads_selectTail hinst hw

theorem registerOf_constants_ne (halloc : Allocates s (computeLiveIntervals (front ++
    compareBranch a b c t f x condition trueBlock falseBlock ++ selectRet))) :
    s.registerOf t ≠ s.registerOf f := by
  have hcode : front ++ compareBranch a b c t f x condition trueBlock falseBlock =
      front ++ [.twoOperand .cmp .x (.virtual a) (.virtual b),
        .conditional .cset .x (.virtual c) condition] ++ branchBody c t f x trueBlock falseBlock ++
        [.twoOperand .mov .x X0 (.virtual x)] := by
    simp [compareBranch]
  rw [hcode] at hemitted halloc
  exact registerOf_targets_ne hemitted halloc htf htx

end

section

variable {front e e' : Code} {a b c t f x : VirtualRegister} {condition : Condition}
  {trueBlock falseBlock : BitVec 64}

/-- Two operands that are fetched at the end share no register, unless the first constant takes that
of the second operand. -/
theorem registerOf_operands_ne (ha : Fetches (.virtual a) e) (hb : Fetches (.virtual b) e')
    (hemitted : ∀ inst ∈ front ++ e ++ e' ++
      compareBranch a b c t f x condition trueBlock falseBlock, inst.Emitted)
    (hscan : allocateIntervals (computeLiveIntervals (front ++ e ++ e' ++
      compareBranch a b c t f x condition trueBlock falseBlock ++ selectRet)) init = some s)
    (halloc : Allocates s (computeLiveIntervals (front ++ e ++ e' ++
      compareBranch a b c t f x condition trueBlock falseBlock ++ selectRet)))
    (htf : t ≠ f) (htx : t ≠ x) (hac : a ≠ c ∧ a ≠ x) (hbc : b ≠ c ∧ b ≠ x) (hab : a ≠ b)
    (htaken : b ≠ t) (hfall : a = t ∧ b = f ∨ a ≠ t ∧ (a = f ∨ b = f)) :
    s.registerOf a ≠ s.registerOf b := by
  have hne := registerOf_constants_ne hemitted htf htx halloc
  have htaken' := registerOf_taken hemitted htf htx hscan
  have hread {inst : Arm64.Instruction} {w : VirtualRegister}
      (hinst : inst ∈ compareBranch a b c t f x condition trueBlock falseBlock)
      (hw : .virtual w ∈ inst.sources) := reads_compareBranch hinst hw
  rcases hfall with ⟨rfl, rfl⟩ | ⟨hat, rfl | rfl⟩
  · exact hne
  · -- the second operand keeps a register of its own
    have hfirst : s.registerOf b = .x 1 := by
      refine registerOf_fetched hemitted hscan hb rfl ?_ ?_
      · simp [targets_compareBranch, hbc, hab.symm, htaken]
      · intro inst hinst w hw
        have := hread hinst hw
        simp only [targets_compareBranch, Set.mem_insert_iff, Place.virtual.injEq,
          Set.mem_singleton_iff]
        tauto
    rw [hfirst, ← htaken']
    exact hne.symm
  · have hfirst : s.registerOf a = .x 1 := by
      have hcode : front ++ e ++ e' ++ compareBranch a b c t b x condition trueBlock falseBlock =
          front ++ e ++ (e' ++ compareBranch a b c t b x condition trueBlock falseBlock) := by
        simp
      refine registerOf_fetched hemitted hscan ha hcode ?_ ?_
      · simp [targets_append, hb.targets, targets_compareBranch, hac, hab, hat]
      · intro inst hinst w hw
        simp only [targets_append, hb.targets, targets_compareBranch, Set.mem_union,
          Set.mem_insert_iff, Place.virtual.injEq, Set.mem_singleton_iff]
        rcases List.mem_append.mp hinst with hinst | hinst
        · rcases hb.sources inst hinst _ hw with heq | heq
          · exact .inr (.inl (Place.virtual.inj heq))
          · cases heq
        · have := hread hinst hw
          tauto
    rw [hfirst, ← htaken']
    exact hne

end

def IR.InstructionKind.isFetch : InstructionKind → Bool
  | .const _ _ | .regRead _ => true
  | _ => false

namespace InstructionSelector

variable {σ σ' σ₁ : InstructionSelector} {inst : IR.Instruction} {code code' : Code} {id : ValueId}
  {v d : VirtualRegister} {kind : InstructionKind} {ty : Ty} {instructions : List IR.Instruction}

theorem enter_kept (h : σ.irToVReg id = some v) {k : ValueId} (henter : σ.enter k ty = (d, σ₁)) :
    σ₁.irToVReg id = some v := by
  rw [enter] at henter
  have hkept := assign_kept (σ := σ.recordValueType k ty) h k
  rwa [henter] at hkept

theorem Lowered.kept (hlow : Lowered σ inst code σ') (h : σ.irToVReg id = some v) :
    σ'.irToVReg id = some v := by
  cases hlow with
  | const henter | comparison henter | arithmetic henter | sext henter | zext henter
  | trunc henter | regRead henter => exact enter_kept h henter
  | load henter =>
    have hkept := enter_kept h henter
    exact hkept
  | store => exact h
  | regWrite => exact h

theorem selectAll_kept (hok : σ.selectAll instructions = .ok (code, σ'))
    (h : σ.irToVReg id = some v) : σ'.irToVReg id = some v := by
  induction instructions generalizing σ code with
  | nil =>
    cases hok
    exact h
  | cons inst rest ih =>
    obtain ⟨code₁, σ₁, code₂, hok₁, hok₂, rfl⟩ := selectAll_cons hok
    exact ih hok₂ ((selectInstruction_lowered hok₁).kept h)

theorem selectInstruction_fetches (hkind : kind.isFetch = true)
    (hok : σ.selectInstruction ⟨id, kind⟩ = .ok (code, σ')) :
    ∃ v, σ'.irToVReg id = some v ∧ Fetches (.virtual v) code := by
  cases selectInstruction_lowered hok with
  | const henter =>
    exact ⟨_, enter_register henter, (selectConstIntoRegister_loads (.virtual _) rfl _ _).fetches⟩
  | regRead henter =>
    refine ⟨_, enter_register henter, ?_, ?_, ?_, by simp⟩
    · simp [Instruction.target, Operand.place]
    · simp [Instruction.sources, Instruction.reads, Operand.place, X0]
    · exact ⟨by simp [Instruction.sources, Instruction.reads, Operand.place, X0], trivial⟩
  | _ => cases hkind

/-- `compareBranch` with the registers that the selector takes for the branch. -/
def branchEnd (σ : InstructionSelector) (a b c : VirtualRegister) (condition : Condition)
    (trueBlock falseBlock : BitVec 64) : Code :=
  compareBranch a b c σ.branchTemps.1 σ.branchTemps.2.1 σ.branchTemps.2.2.1 condition trueBlock
    falseBlock

/-- The code of a comparison. -/
def compareCode (a b c : VirtualRegister) (condition : Condition) : Code :=
  [.twoOperand .cmp .x (.virtual a) (.virtual b), .conditional .cset .x (.virtual c) condition]

/-- The code of a block that ends in a comparison and a branch on its result. -/
theorem selectInstructions_branch {block : BasicBlock} {front : List IR.Instruction}
    {condition lhs rhs : ValueId} {opcode : BinaryOpcode} {trueBlock falseBlock : BitVec 64}
    (hterm : block.terminator = .condBranch condition trueBlock falseBlock)
    (hinsts : block.instructions = front ++ [⟨condition, .binaryOp opcode ty lhs rhs⟩])
    (hop : opcode.isComparison = true) (hok : init.selectInstructions block = .ok (code, σ)) :
    ∃ before σ₀ σ₁ a b c cond, init.selectAll front = .ok (before, σ₀) ∧
      σ₀.selectAll [⟨condition, .binaryOp opcode ty lhs rhs⟩] = .ok (compareCode a b c cond, σ₁) ∧
      σ₁.irToVReg lhs = some a ∧ σ₁.irToVReg rhs = some b ∧ σ₁.irToVReg condition = some c ∧
      Allocated σ₁ (valueIds block.instructions) (allAddressTemps block.instructions init) ∧
      σ₁.nextVirtualReg = constantId block.instructions ∧
      code = before ++ σ₁.branchEnd a b c cond trueBlock falseBlock ++ selectRet := by
  obtain ⟨code₁, σ₁, code₂, hok₁, hok₂, rfl⟩ := selectInstructions_eq_ok.mp hok
  have halloc := Allocated.init.all hok₁
  have hnext := halloc.next
  rw [List.nil_append, List.nil_append] at halloc
  rw [List.nil_append, List.nil_append, length_allAddressTemps hok₁] at hnext
  rw [hinsts] at hok₁
  obtain ⟨before, σ₀, compare, hfront, hcompare, rfl⟩ := selectAll_append hok₁
  obtain ⟨compare, σ₂, rest, hinst, hnil, rfl⟩ := selectAll_cons hcompare
  cases hnil
  rw [List.append_nil] at hcompare ⊢
  obtain ⟨cond, hcond⟩ := comparisonCondition_comparison hop
  cases selectInstruction_lowered hinst with
  | comparison henter hcond' hl hr =>
    rw [hterm, selectTerminator, selectCondBranch_eq (enter_register henter), branchCode_eq] at hok₂
    cases hok₂
    refine ⟨before, σ₀, _, _, _, _, _, hfront, hcompare, hl, hr, enter_register henter, halloc, hnext, ?_⟩
    simp [branchEnd, compareBranch]
  | arithmetic _ hnone => cases hcond.symm.trans hnone

end InstructionSelector

section

variable {s : RegisterAllocator} {block : BasicBlock} {code straight : Code}
  {σ σ₀ σ₁ σ₂ : InstructionSelector} {front fetched : List IR.Instruction}
  {condition lhs rhs : ValueId} {opcode : BinaryOpcode} {ty : Ty} {trueBlock falseBlock : BitVec 64}
  {a b c : VirtualRegister} {cond : Condition} {before reads : Code}

theorem compatible_of_fetched {Γ : Types}
    (htyped : WellTyped (fun _ => none)
      (front ++ fetched ++ [⟨condition, .binaryOp opcode ty lhs rhs⟩]) Γ)
    (hfront : init.selectAll front = .ok (before, σ₀)) (hfetched : σ₀.selectAll fetched = .ok (reads, σ₁))
    (hcompare : σ₁.selectAll [⟨condition, .binaryOp opcode ty lhs rhs⟩] =
      .ok (compareCode a b c cond, σ₂))
    (hemitted : ∀ inst ∈ before ++ reads ++ σ₂.branchEnd a b c cond trueBlock falseBlock, inst.Emitted)
    (halloc : Allocates s (computeLiveIntervals
      (before ++ reads ++ σ₂.branchEnd a b c cond trueBlock falseBlock ++ selectRet)))
    (hconstants : ∀ v, v = σ₂.branchTemps.1 ∨ v = σ₂.branchTemps.2.1 → v < σ₂.nextVirtualReg →
      .virtual v ∈ targets reads ∨ v = c)
    (hcompat : Compatible s.registerOf {.virtual a, .virtual b} reads)
    (hlive : live {.virtual a, .virtual b} reads ⊆ {.physical (.x 0)}) :
    Compatible s.registerOf {.physical (.x 0)}
      (before ++ reads ++ σ₂.branchEnd a b c cond trueBlock falseBlock) := by
  rw [List.append_assoc] at htyped
  obtain ⟨Γ₀, htyped₀, htyped⟩ := htyped.split
  obtain ⟨Γ₁, htyped₁, htyped₂⟩ := htyped.split
  obtain ⟨hselects₀, hcovers₀⟩ := selectAll_selects .init htyped₀ hfront
  obtain ⟨hselects₁, hcovers₁⟩ := selectAll_selects hcovers₀ htyped₁ hfetched
  obtain ⟨hselects₂, hcovers₂⟩ := selectAll_selects hcovers₁ htyped₂ hcompare
  obtain ⟨hlt, hle⟩ := branchTemps_lt hcovers₂.toSeparate
  have hne := registerOf_constants_ne hemitted (branchTemps_distinct hcovers₂.toSeparate)
    (Nat.ne_of_lt hlt) halloc
  have hreads {v : VirtualRegister} (hv : .virtual v ∈ targets reads) : σ₀.nextVirtualReg ≤ v := by
    obtain ⟨w, heq, hle, -⟩ := hselects₁.fresh _ hv
    cases heq
    exact hle
  have hc : σ₀.nextVirtualReg ≤ c := by
    obtain ⟨w, heq, hle, -⟩ := hselects₂.fresh (.virtual c)
      ⟨.conditional .cset .x (.virtual c) cond, by simp [compareCode], rfl⟩
    cases heq
    exact hselects₁.next.trans hle
  have hnext := hselects₁.next.trans hselects₂.next
  have hconstant {v : VirtualRegister} (hv : v = σ₂.branchTemps.1 ∨ v = σ₂.branchTemps.2.1) :
      σ₀.nextVirtualReg ≤ v := by
    rcases Nat.lt_or_ge v σ₂.nextVirtualReg with hlt | hge
    · rcases hconstants v hv hlt with hmem | rfl
      · exact hreads hmem
      · exact hc
    · exact hnext.trans hge
  have hassoc : before ++ reads ++ σ₂.branchEnd a b c cond trueBlock falseBlock =
      before ++ (reads ++ σ₂.branchEnd a b c cond trueBlock falseBlock) := List.append_assoc ..
  rw [hassoc] at hemitted halloc ⊢
  refine compatible_of_front hemitted halloc hselects₀.clustered (scope_init ▸ hselects₀.closed) ?_ ?_ ?_ ?_
  · intro p hp
    obtain ⟨v, hv, -⟩ := hselects₀.fresh p hp
    exact ⟨v, hv⟩
  · intro v hv hmem
    obtain ⟨w, heq, -, hlow⟩ := hselects₀.fresh _ hv
    cases heq
    refine absurd hlow (Nat.not_lt.mpr ?_)
    rw [targets_append, branchEnd, targets_compareBranch] at hmem
    rcases hmem with hmem | hmem
    · exact hreads hmem
    · simp only [Set.mem_insert_iff, Place.virtual.injEq, Set.mem_singleton_iff, reduceCtorEq,
        or_false] at hmem
      rcases hmem with rfl | hv | hv | rfl
      · exact hc
      · exact hconstant (.inl hv)
      · exact hconstant (.inr hv)
      · exact hnext.trans hle
  · rw [live_append]
    exact (live_mono live_compareBranch).trans hlive
  · exact (hcompat.anti live_compareBranch).append (compatible_compareBranch hne)

theorem fetches_one {ρ : VirtualRegister → Register} (ha : Fetches (.virtual a) reads)
    (hX0 : ρ a ≠ .x 0) : Compatible ρ {.virtual a, .virtual a} reads ∧
      live {.virtual a, .virtual a} reads ⊆ {.physical (.x 0)} := by
  have hset : ({.virtual a, .virtual a} : Set Place) = {.virtual a} := Set.pair_eq_singleton _
  rw [hset]
  refine ⟨ha.compatible (fun heq => hX0 (Place.physical.inj heq)) fun q hq _ => hq, ?_⟩
  rintro q hq
  rcases ha.live_subset hq with hq | ⟨hq, hne⟩
  · exact hq
  · exact absurd hq hne

theorem fetches_two {ρ : VirtualRegister → Register} {reads' : Code} (ha : Fetches (.virtual a) reads)
    (hb : Fetches (.virtual b) reads') (hX0 : ∀ v, ρ v ≠ .x 0) (hne : ρ a ≠ ρ b) :
    Compatible ρ {.virtual a, .virtual b} (reads ++ reads') ∧
      live {.virtual a, .virtual b} (reads ++ reads') ⊆ {.physical (.x 0)} := by
  have hslot (v : VirtualRegister) : (Place.virtual v).rename ρ ≠ .physical (.x 0) :=
    fun heq => hX0 v (Place.physical.inj heq)
  have hrest : live {.virtual a, .virtual b} reads' ⊆ {.physical (.x 0), .virtual a} := by
    intro q hq
    rcases hb.live_subset hq with hq | ⟨hq | hq, hnot⟩
    · exact .inl hq
    · exact .inr hq
    · exact absurd hq hnot
  constructor
  · refine Compatible.append (ha.compatible (hslot a) ?_) (hb.compatible (hslot b) ?_)
    · intro q hq heq
      rcases hrest hq with rfl | hq
      · exact absurd heq.symm (hslot a)
      · exact hq
    · intro q hq heq
      rcases hq with rfl | hq
      · exact absurd (Place.physical.inj heq) hne
      · exact hq
  · rw [live_append]
    intro q hq
    rcases ha.live_subset hq with hq | ⟨hq, hnot⟩
    · exact hq
    · exact (hrest hq).resolve_right hnot

theorem branchTemps_values (ha : σ.irToVReg σ.nextVirtualReg = some a)
    (hb : σ.irToVReg (σ.nextVirtualReg + 1) = some b) :
    σ.branchTemps.1 = a ∧ σ.branchTemps.2.1 = b := by
  rw [branchTemps_some ha, branchTemps_fallThrough_some ha, hb, Option.getD_some]
  exact ⟨rfl, rfl⟩

theorem branchTemps_fresh (hnone : ¬ ∃ v, σ.irToVReg σ.nextVirtualReg = some v)
    (hb : σ.irToVReg (σ.nextVirtualReg + 2) = some b) :
    σ.branchTemps.1 = σ.nextVirtualReg + 1 ∧ σ.branchTemps.2.1 = b := by
  replace hnone := Option.eq_none_iff_forall_ne_some.mpr fun v hv => hnone ⟨v, hv⟩
  rw [branchTemps_taken hnone, branchTemps_fallThrough hnone, hb, Option.getD_some]
  exact ⟨rfl, rfl⟩

/-- Both operands are fetched at the end, and no constant alone takes the register of the second one. -/
theorem compatible_of_two {kind kind' : InstructionKind} (hblock : block.WellTyped)
    (hterm : block.terminator = .condBranch condition trueBlock falseBlock)
    (hinsts : block.instructions =
      front ++ [⟨lhs, kind⟩, ⟨rhs, kind'⟩] ++ [⟨condition, .binaryOp opcode ty lhs rhs⟩])
    (hop : opcode.isComparison = true) (hkind : kind.isFetch = true) (hkind' : kind'.isFetch = true)
    (hids : lhs ≠ rhs ∧ lhs ≠ condition ∧ rhs ≠ condition)
    (hconstant : constantId block.instructions = lhs ∧ constantId block.instructions + 1 = rhs ∨
      constantId block.instructions ∉ valueIds block.instructions ∧
        (constantId block.instructions + 2 = lhs ∨ constantId block.instructions + 2 = rhs))
    (hselect : init.selectInstructions block = .ok (code, σ))
    (hscan : allocateIntervals (computeLiveIntervals code) init = some s)
    (halloc : Allocates s (computeLiveIntervals code)) (hcode : code = straight ++ selectRet)
    (hemitted : ∀ inst ∈ straight, inst.Emitted) :
    Compatible s.registerOf {.physical (.x 0)} straight := by
  obtain ⟨before, σ₀, σ₂, a, b, c, cond, hfront, hcompare, ha, hb, hc, hall, hnext, heq⟩ :=
    selectInstructions_branch hterm hinsts hop hselect
  obtain rfl := List.append_cancel_right (hcode.symm.trans heq)
  subst hcode
  obtain ⟨before, σ₁, reads, hbefore, hfetched, rfl⟩ := selectAll_append hfront
  obtain ⟨e, σ₃, rest, hfirst, hsecond, rfl⟩ := selectAll_cons hfetched
  obtain ⟨e', σ₄, rest, hsecond, hnil, rfl⟩ := selectAll_cons hsecond
  cases hnil
  rw [List.append_nil] at hfetched hselect hscan halloc hemitted ⊢
  obtain ⟨a', ha', hfetches⟩ := selectInstruction_fetches hkind hfirst
  obtain ⟨b', hb', hfetches'⟩ := selectInstruction_fetches hkind' hsecond
  have hkept := selectAll_kept hcompare ((selectInstruction_lowered hsecond).kept ha')
  obtain rfl := Option.some.inj (hkept.symm.trans ha)
  obtain rfl := Option.some.inj ((selectAll_kept hcompare hb').symm.trans hb)
  obtain ⟨Γ, htyped, -⟩ := hblock
  rw [hinsts] at htyped
  rw [← hnext, ← hall.mem_ids] at hconstant
  have htemps : σ₂.branchTemps.1 = a' ∧ σ₂.branchTemps.2.1 = b' ∨
      σ₂.branchTemps.1 = σ₂.nextVirtualReg + 1 ∧
        (σ₂.branchTemps.2.1 = a' ∨ σ₂.branchTemps.2.1 = b') := by
    rcases hconstant with ⟨rfl, rfl⟩ | ⟨hnone, rfl | rfl⟩
    · exact .inl (branchTemps_values ha hb)
    · exact .inr ((branchTemps_fresh hnone ha).imp_right .inl)
    · exact .inr ((branchTemps_fresh hnone hb).imp_right .inr)
  have hconstants : ∀ v, v = σ₂.branchTemps.1 ∨ v = σ₂.branchTemps.2.1 → v < σ₂.nextVirtualReg →
      .virtual v ∈ targets (e ++ e') ∨ v = c := by
    intro v hv hlt
    rw [targets_append, hfetches.targets, hfetches'.targets]
    have hvalues : v = a' ∨ v = b' := by grind
    rcases hvalues with rfl | rfl
    · exact .inl (.inl rfl)
    · exact .inl (.inr rfl)
  have hne {id id' : ValueId} {v v' : VirtualRegister} (hid : id ≠ id') (hv : σ₂.irToVReg id = some v)
      (hv' : σ₂.irToVReg id' = some v') : v ≠ v' := by
    rintro rfl
    exact hid (hall.injective hv hv')
  obtain ⟨htx, hle⟩ := branchTemps_lt hall.toSeparate
  have hab := hne hids.1 ha hb
  have hoperands : s.registerOf a' ≠ s.registerOf b' := by
    have ha'' := hall.bound ha
    have hb'' := hall.bound hb
    have hassoc : before ++ (e ++ e') ++ σ₂.branchEnd a' b' c cond trueBlock falseBlock =
        before ++ e ++ e' ++ σ₂.branchEnd a' b' c cond trueBlock falseBlock := by
      simp
    rw [hassoc] at hemitted hscan halloc
    exact registerOf_operands_ne hfetches hfetches' hemitted hscan halloc
      (branchTemps_distinct hall.toSeparate) (Nat.ne_of_lt htx)
      ⟨hne hids.2.1 ha hc, Nat.ne_of_lt (ha''.trans_le hle)⟩
      ⟨hne hids.2.2 hb hc, Nat.ne_of_lt (hb''.trans_le hle)⟩ hab (by grind) (by grind)
  obtain ⟨hcompat, hlive⟩ := fetches_two hfetches hfetches' halloc.registerOf_ne_X0 hoperands
  exact compatible_of_fetched htyped hbefore hfetched hcompare hemitted halloc hconstants hcompat hlive

/-- An operand that is compared with itself can share its register with a constant. -/
theorem compatible_of_one {kind : InstructionKind} (hblock : block.WellTyped)
    (hterm : block.terminator = .condBranch condition trueBlock falseBlock)
    (hinsts : block.instructions =
      front ++ [⟨lhs, kind⟩] ++ [⟨condition, .binaryOp opcode ty lhs lhs⟩])
    (hop : opcode.isComparison = true) (hkind : kind.isFetch = true)
    (hconstant : constantId block.instructions = lhs ∧ constantId block.instructions + 1 = condition ∨
      constantId block.instructions ∉ valueIds block.instructions ∧
        constantId block.instructions + 2 = lhs)
    (hselect : init.selectInstructions block = .ok (code, σ))
    (halloc : Allocates s (computeLiveIntervals code)) (hcode : code = straight ++ selectRet)
    (hemitted : ∀ inst ∈ straight, inst.Emitted) :
    Compatible s.registerOf {.physical (.x 0)} straight := by
  obtain ⟨before, σ₀, σ₂, a, b, c, cond, hfront, hcompare, ha, hb, hc, hall, hnext, heq⟩ :=
    selectInstructions_branch hterm hinsts hop hselect
  obtain rfl := List.append_cancel_right (hcode.symm.trans heq)
  subst hcode
  obtain rfl := Option.some.inj (ha.symm.trans hb)
  obtain ⟨before, σ₁, reads, hbefore, hfetched, rfl⟩ := selectAll_append hfront
  obtain ⟨reads, σ₃, rest, hfirst, hnil, rfl⟩ := selectAll_cons hfetched
  cases hnil
  rw [List.append_nil] at hfetched halloc hemitted ⊢
  obtain ⟨a', ha', hfetches⟩ := selectInstruction_fetches hkind hfirst
  obtain rfl := Option.some.inj ((selectAll_kept hcompare ha').symm.trans ha)
  obtain ⟨Γ, htyped, -⟩ := hblock
  rw [hinsts] at htyped
  rw [← hnext, ← hall.mem_ids] at hconstant
  have hconstants : ∀ v, v = σ₂.branchTemps.1 ∨ v = σ₂.branchTemps.2.1 → v < σ₂.nextVirtualReg →
      .virtual v ∈ targets reads ∨ v = c := by
    intro v hv hlt
    rw [hfetches.targets]
    have hvalues : v = a' ∨ v = c := by
      rcases hconstant with ⟨rfl, rfl⟩ | ⟨hnone, rfl⟩
      · have htemps := branchTemps_values ha hc
        grind
      · have htemps := branchTemps_fresh hnone ha
        grind
    exact hvalues.imp_left fun heq => congrArg Place.virtual heq
  obtain ⟨hcompat, hlive⟩ := fetches_one hfetches (halloc.registerOf_ne_X0 a')
  exact compatible_of_fetched htyped hbefore hfetched hcompare hemitted halloc hconstants hcompat hlive

end

end DinoRisc
