import DinoRisc.Arm64.Effect
import DinoRisc.Lowering.AllocatorCorrect

/-! The values that flow between the instructions of a list, and the intervals that cover them. -/

namespace DinoRisc.LivenessAnalysis

open Arm64

variable {code : List Instruction} {inst : Instruction} {operand : Operand}
  {vreg : VirtualRegister} {i j k : ℕ}

theorem place_eq_virtual :
    operand.place = some (.virtual vreg) ↔ getVirtualRegisterFromOperand operand = some vreg := by
  cases operand <;> simp [getVirtualRegisterFromOperand, Operand.place]

theorem mem_places {operands : List Operand} : .virtual vreg ∈ operands.filterMap Operand.place ↔
    vreg ∈ operands.filterMap getVirtualRegisterFromOperand := by
  simp only [List.mem_filterMap, place_eq_virtual]

/-- The analysis sees every read, except that of a `MOVK`. -/
theorem used_of_source (hsource : .virtual vreg ∈ inst.sources) :
    vreg ∈ getUsedVirtualRegisters inst ∨
      ∃ size imm16 shift, inst = .moveWide .movk size (.virtual vreg) imm16 shift := by
  have hone (operand : Operand) : .virtual vreg ∈ [operand].filterMap Operand.place →
      vreg ∈ [operand].filterMap getVirtualRegisterFromOperand := mem_places.mp
  have hswap (a b : Operand) : vreg ∈ [a, b].filterMap getVirtualRegisterFromOperand →
      vreg ∈ [b, a].filterMap getVirtualRegisterFromOperand :=
    ((List.Perm.swap b a []).filterMap _).mem_iff.mp
  cases inst with
  | threeOperand opcode size dest src1 src2 => exact .inl (mem_places.mp hsource)
  | conditionalSelect opcode size dest src1 src2 => exact .inl (mem_places.mp hsource)
  | twoOperand opcode size dest src =>
    left
    cases opcode
    case cmp => exact hswap dest src (mem_places.mp hsource)
    all_goals exact hone src hsource
  | memory opcode size reg baseReg offset =>
    left
    cases opcode
    case str => exact hswap reg baseReg (mem_places.mp hsource)
    all_goals exact hone baseReg hsource
  | moveWide opcode size dest imm16 shift =>
    cases opcode
    case movk =>
      have hdest := hone dest hsource
      cases dest <;> simp_all [getVirtualRegisterFromOperand]
    all_goals cases hsource
  | branch | conditional => cases hsource

theorem source_of_used (h : vreg ∈ getUsedVirtualRegisters inst) : .virtual vreg ∈ inst.sources := by
  have hone (operand : Operand) : vreg ∈ [operand].filterMap getVirtualRegisterFromOperand →
      .virtual vreg ∈ [operand].filterMap Operand.place := mem_places.mpr
  have hswap (a b : Operand) : vreg ∈ [a, b].filterMap getVirtualRegisterFromOperand →
      .virtual vreg ∈ [b, a].filterMap Operand.place := fun hmem =>
    mem_places.mpr (((List.Perm.swap b a []).filterMap _).mem_iff.mp hmem)
  cases inst with
  | threeOperand opcode size dest src1 src2 => exact mem_places.mpr h
  | conditionalSelect opcode size dest src1 src2 => exact mem_places.mpr h
  | twoOperand opcode size dest src =>
    cases opcode
    case cmp => exact hswap src dest h
    all_goals exact hone src h
  | memory opcode size reg baseReg offset =>
    cases opcode
    case str => exact hswap baseReg reg h
    all_goals exact hone baseReg h
  | moveWide | branch | conditional => cases h

def Writes (code : List Instruction) (i : ℕ) (vreg : VirtualRegister) : Prop :=
  ∃ inst, code[i]? = some inst ∧ inst.target = some (.virtual vreg) ∧
    ∃ read flags mem value, inst.effect read flags mem = some (.write value)

def Reads (code : List Instruction) (i : ℕ) (vreg : VirtualRegister) : Prop :=
  ∃ inst, code[i]? = some inst ∧ .virtual vreg ∈ inst.sources

/-- The value that `i` writes is the one that `j` reads. -/
def Flows (code : List Instruction) (i j : ℕ) (vreg : VirtualRegister) : Prop :=
  i < j ∧ Writes code i vreg ∧ Reads code j vreg ∧ ∀ k, i < k → k < j → ¬ Writes code k vreg

theorem writes_of_exec {m m' : Machine} (hi : code[i]? = some inst)
    (hstep : exec inst m = some (.next m')) (htarget : inst.target = some (.virtual vreg)) :
    Writes code i vreg := by
  rw [Instruction.exec_eq_effect] at hstep
  obtain ⟨effect, heffect, -⟩ := Option.bind_eq_some_iff.mp hstep
  rcases Instruction.target_of_effect heffect with ⟨value, rfl⟩ | hnone
  · exact ⟨inst, hi, htarget, _, _, _, value, heffect⟩
  · cases htarget.symm.trans hnone

theorem Writes.defines (h : Writes code i vreg) : Defines code i vreg := by
  obtain ⟨inst, hi, htarget, read, flags, mem, value, heffect⟩ := h
  refine ⟨inst, hi, ?_⟩
  cases inst with
  | branch opcode target => cases htarget
  | threeOperand opcode size dest src1 src2 =>
    cases opcode <;> first | exact place_eq_virtual.mp htarget | cases htarget
  | twoOperand opcode size dest src =>
    cases opcode <;> first | exact place_eq_virtual.mp htarget | cases htarget
  | memory opcode size reg baseReg offset =>
    cases opcode <;> first | exact place_eq_virtual.mp htarget | cases htarget | cases heffect
  | moveWide opcode size dest imm16 shift =>
    cases opcode <;> exact place_eq_virtual.mp htarget
  | conditional opcode size dest condition => exact place_eq_virtual.mp htarget
  | conditionalSelect opcode size dest src1 src2 condition => exact place_eq_virtual.mp htarget

/-- A destination that is not written belongs to a comparison or to a `RET`. -/
theorem target_of_defined (h : getDefinedVirtualRegisters inst = some vreg) :
    inst.target = some (.virtual vreg) ∨
      (∃ size src1 src2, inst = .threeOperand .cmp size (.virtual vreg) src1 src2) ∨
      ∃ size src, inst = .twoOperand .ret size (.virtual vreg) src := by
  have hdest {operand : Operand} (hop : getVirtualRegisterFromOperand operand = some vreg) :
      operand = .virtual vreg := Operand.place_eq_some.mp (place_eq_virtual.mpr hop)
  cases inst with
  | branch opcode target => cases h
  | threeOperand opcode size dest src1 src2 =>
    obtain rfl := hdest h
    cases opcode
    case cmp => exact .inr (.inl ⟨size, src1, src2, rfl⟩)
    all_goals exact .inl rfl
  | twoOperand opcode size dest src =>
    cases opcode
    case cmp => cases h
    case ret =>
      obtain rfl := hdest h
      exact .inr (.inr ⟨size, src, rfl⟩)
    all_goals
      obtain rfl := hdest h
      exact .inl rfl
  | memory opcode size reg baseReg offset =>
    cases opcode
    case ldr =>
      obtain rfl := hdest h
      exact .inl rfl
    all_goals cases h
  | moveWide opcode size dest imm16 shift =>
    obtain rfl := hdest h
    exact .inl rfl
  | conditional opcode size dest condition =>
    obtain rfl := hdest h
    exact .inl rfl
  | conditionalSelect opcode size dest src1 src2 condition =>
    obtain rfl := hdest h
    exact .inl rfl

theorem Reads.uses_or_defines (h : Reads code i vreg) : Uses code i vreg ∨ Defines code i vreg := by
  obtain ⟨inst, hi, hsource⟩ := h
  rcases used_of_source hsource with hused | ⟨size, imm16, shift, rfl⟩
  · exact .inl ⟨inst, hi, hused⟩
  · exact .inr ⟨_, hi, rfl⟩

/-- One interval for each virtual register that is written, in the order of their starts, over all
flows of its values. -/
structure CoversFlows (code : List Instruction) (intervals : List LiveInterval) : Prop where
  sorted : intervals.Pairwise fun a b => a.start ≤ b.start
  distinct : (intervals.map LiveInterval.virtualRegister).Nodup
  exists_of_writes : ∀ i vreg, Writes code i vreg →
    ∃ interval ∈ intervals, interval.virtualRegister = vreg
  covers : ∀ i j vreg, Flows code i j vreg → ∀ interval ∈ intervals,
    interval.virtualRegister = vreg → interval.start ≤ i ∧ j ≤ interval.stop

theorem computeLiveIntervals_unique (h : Defines code i vreg) (interval : LiveInterval) :
    interval ∈ computeLiveIntervals code ∧ interval.virtualRegister = vreg ↔
      interval = (computeUseDef code).interval vreg := by
  constructor
  · rintro ⟨hmem, rfl⟩
    obtain ⟨v, -, rfl⟩ := mem_computeLiveIntervals.mp hmem
    rfl
  · rintro rfl
    exact ⟨mem_computeLiveIntervals.mpr ⟨vreg, ⟨i, h⟩, rfl⟩, rfl⟩

/-- The flows are covered if and only if no register that a value flows through is the destination
of an instruction after the write. -/
theorem computeLiveIntervals_covers_iff (code : List Instruction) :
    CoversFlows code (computeLiveIntervals code) ↔
      ∀ i j vreg, Flows code i j vreg → ∀ k, i < k → ¬ Defines code k vreg := by
  constructor
  · intro h i j vreg hflow k hk hdef
    obtain ⟨hmem, hvreg⟩ := (computeLiveIntervals_unique hdef _).mpr rfl
    have hstart := (h.covers i j vreg hflow _ hmem hvreg).1
    exact absurd (Nat.le_trans (defSites_last hdef).2 hstart) (Nat.not_le.mpr hk)
  · intro h
    have hordered := RegisterAllocator.computeLiveIntervals_ordered code
    refine ⟨hordered.imp fun h => h.1.le, List.pairwise_map.mpr (hordered.imp fun h => h.2), ?_, ?_⟩
    · intro i vreg hwrites
      exact ⟨_, (computeLiveIntervals_unique hwrites.defines _).mpr rfl⟩
    · intro i j vreg hflow interval hmem hvreg
      have hlast := h i j vreg hflow
      obtain ⟨hij, hwrites, hreads, -⟩ := hflow
      obtain rfl := (computeLiveIntervals_unique hwrites.defines _).mp ⟨hmem, hvreg⟩
      constructor
      · -- the start is the last definition
        by_contra hlt
        exact hlast _ (Nat.not_le.mp hlt) (defSites_last hwrites.defines).1
      · have huses := hreads.uses_or_defines.resolve_right (hlast j hij)
        exact le_stop huses

/-- The second chunk of a constant reads the first one. -/
theorem computeLiveIntervals_chunks : ¬ CoversFlows
    [.moveWide .movz .x (.virtual 0) 0x5678#16 0#8, .moveWide .movk .x (.virtual 0) 0x1234#16 16#8]
    (computeLiveIntervals [.moveWide .movz .x (.virtual 0) 0x5678#16 0#8,
      .moveWide .movk .x (.virtual 0) 0x1234#16 16#8]) := by
  intro h
  have hflow : Flows [.moveWide .movz .x (.virtual 0) 0x5678#16 0#8,
      .moveWide .movk .x (.virtual 0) 0x1234#16 16#8] 0 1 0 := by
    refine ⟨by decide, ⟨_, rfl, rfl, fun _ => 0#64, ⟨false, false, false, false⟩, default, _, rfl⟩,
      ⟨_, rfl, List.mem_singleton_self _⟩, ?_⟩
    intro k hk hk'
    omega
  have hinterval : ⟨0, 1, 1⟩ ∈ computeLiveIntervals [.moveWide .movz .x (.virtual 0) 0x5678#16 0#8,
      .moveWide .movk .x (.virtual 0) 0x1234#16 16#8] := by decide
  have hstart := (h.covers 0 1 0 hflow _ hinterval rfl).1
  exact absurd hstart (by decide)

end DinoRisc.LivenessAnalysis
