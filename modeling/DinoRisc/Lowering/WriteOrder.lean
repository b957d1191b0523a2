import DinoRisc.Lifter.WriteOrder
import DinoRisc.Lowering.BranchBlock

/-!
Code with the same stores to guest registers in another order: the liveness analysis and the
allocator see no difference.
-/

namespace DinoRisc

open Arm64 IR InstructionSelector LivenessAnalysis RegisterAllocator

/-- The store of a virtual register to a guest register. -/
def storeOf (p : VirtualRegister × ℕ) : Arm64.Instruction :=
  .memory .str .x (.virtual p.1) X0 (registerOffset p.2)

inductive Rearranged : Code → Code → Prop
  | intro {before after : Code} {stores stores' : List (VirtualRegister × ℕ)}
    (hperm : stores.Perm stores') (hbound : ∀ p ∈ stores, p.2 < 32)
    (hdistinct : (stores.map Prod.snd).Nodup) :
    Rearranged (before ++ stores.map storeOf ++ after) (before ++ stores'.map storeOf ++ after)

/-! ### Selection -/

namespace InstructionSelector

variable {σ σ' σ₁ σ₂ : InstructionSelector} {code code₁ code₂ : Code}
  {writes writes' : List IR.Instruction}

/-- The virtual register and the guest register of a register write. -/
def storeFor (σ : InstructionSelector) : InstructionKind → VirtualRegister × ℕ
  | .regWrite r id => ((σ.irToVReg id).getD 0, r)
  | _ => (0, 0)

def IsWrite (kind : InstructionKind) : Prop := ∃ r id, kind = .regWrite r id ∧ r < 32

theorem selectAll_writes (hwrites : ∀ kind ∈ writes.map (·.kind), IsWrite kind)
    (hok : σ.selectAll writes = .ok (code, σ')) :
    σ' = σ ∧ code = ((writes.map (·.kind)).map σ.storeFor).map storeOf := by
  induction writes generalizing code σ' with
  | nil =>
    cases hok
    exact ⟨rfl, rfl⟩
  | cons inst writes ih =>
    rw [List.map_cons, List.forall_mem_cons] at hwrites
    obtain ⟨⟨r, id, hkind, -⟩, hrest⟩ := hwrites
    obtain ⟨code₁, σ₁, code₂, hok₁, hok₂, rfl⟩ := selectAll_cons hok
    simp only [selectInstruction, hkind, selectRegWrite] at hok₁
    obtain ⟨vreg, hvreg, hcode⟩ := bind_eq_ok.mp hok₁
    cases hcode
    obtain ⟨rfl, rfl⟩ := ih hrest hok₂
    rw [List.map_cons, hkind, List.map_cons, storeFor, getVirtualRegisterOrThrow_ok hvreg]
    exact ⟨rfl, rfl⟩

theorem storeFor_snd (hwrites : ∀ kind ∈ writes.map (·.kind), IsWrite kind) :
    ((writes.map (·.kind)).map σ.storeFor).map Prod.snd = Lifter.writes writes := by
  induction writes with
  | nil => rfl
  | cons inst writes ih =>
    rw [List.map_cons, List.forall_mem_cons] at hwrites
    obtain ⟨⟨r, id, hkind, -⟩, hrest⟩ := hwrites
    have hwritten : inst.kind.written = some r := by rw [hkind]; rfl
    have hcons : Lifter.writes (inst :: writes) = r :: Lifter.writes writes :=
      List.filterMap_cons_some (f := fun inst : IR.Instruction => inst.kind.written) hwritten
    rw [hcons, List.map_cons, List.map_cons, List.map_cons, ih hrest, hkind]
    rfl

theorem selectInstructions_rearranged {block₁ block₂ : BasicBlock}
    (h : Lifter.Reordered block₁ block₂) (hok₁ : σ.selectInstructions block₁ = .ok (code₁, σ₁))
    (hok₂ : σ.selectInstructions block₂ = .ok (code₂, σ₂)) : Rearranged code₁ code₂ := by
  cases h with
  | @intro before writes writes' after terminator hperm hwrites hdistinct =>
    have hwrites' : ∀ kind ∈ writes'.map (·.kind), IsWrite kind := fun kind hkind =>
      hwrites kind (hperm.mem_iff.mpr hkind)
    obtain ⟨_, τ₁, ending₁, hall₁, hterm₁, rfl⟩ := selectInstructions_eq_ok.mp hok₁
    obtain ⟨_, ρ₁, after₁, hfront₁, hafter₁, rfl⟩ := selectAll_append hall₁
    obtain ⟨before₁, π₁, stores₁, hbefore₁, hstores₁, rfl⟩ := selectAll_append hfront₁
    obtain ⟨rfl, rfl⟩ := selectAll_writes hwrites hstores₁
    obtain ⟨_, τ₂, ending₂, hall₂, hterm₂, rfl⟩ := selectInstructions_eq_ok.mp hok₂
    obtain ⟨_, ρ₂, after₂, hfront₂, hafter₂, rfl⟩ := selectAll_append hall₂
    obtain ⟨before₂, π₂, stores₂, hbefore₂, hstores₂, rfl⟩ := selectAll_append hfront₂
    obtain ⟨rfl, rfl⟩ := selectAll_writes hwrites' hstores₂
    cases hbefore₁.symm.trans hbefore₂
    cases hafter₁.symm.trans hafter₂
    cases hterm₁.symm.trans hterm₂
    rw [List.append_assoc, List.append_assoc _ after₁]
    apply Rearranged.intro
    · exact hperm.map _
    · intro p hp
      obtain ⟨kind, hkind, rfl⟩ := List.mem_map.mp hp
      obtain ⟨r, id, rfl, hr⟩ := hwrites kind hkind
      exact hr
    · rwa [storeFor_snd hwrites]

end InstructionSelector

/-! ### Liveness -/

namespace LivenessAnalysis

variable {code code' : Code} {vreg : VirtualRegister} {point : ℕ}

theorem definitions_eq
    (h : code.map getDefinedVirtualRegisters = code'.map getDefinedVirtualRegisters) :
    (computeUseDef code).defined = (computeUseDef code').defined ∧
      (computeUseDef code).defSites = (computeUseDef code').defSites := by
  induction code using List.reverseRecOn generalizing code' with
  | nil =>
    obtain rfl := List.map_eq_nil_iff.mp h.symm
    exact ⟨rfl, rfl⟩
  | append_singleton code inst ih =>
    rcases List.eq_nil_or_concat code' with rfl | ⟨code', inst', rfl⟩
    · simp at h
    · rw [List.concat_eq_append, List.map_append, List.map_append] at h
      obtain ⟨hcode, hinst⟩ := List.append_inj' h rfl
      obtain ⟨hdefined, hsites⟩ := ih hcode
      rw [List.map_singleton, List.map_singleton, List.singleton_inj] at hinst
      have hlength : code.length = code'.length := by simpa using congrArg List.length hcode
      rw [List.concat_eq_append, computeUseDef_snoc, computeUseDef_snoc]
      simp only [UseDef.visit, hinst, hdefined, hsites, hlength, and_self]

theorem exists_use_iff : (∃ i, Uses code i vreg ∧ point ≤ i) ↔
    ∃ inst ∈ code.drop point, vreg ∈ getUsedVirtualRegisters inst := by
  constructor
  · rintro ⟨i, ⟨inst, hi, huse⟩, hle⟩
    refine ⟨inst, List.mem_iff_getElem?.mpr ⟨i - point, ?_⟩, huse⟩
    rw [List.getElem?_drop, Nat.add_sub_cancel' hle]
    exact hi
  · rintro ⟨inst, hmem, huse⟩
    obtain ⟨i, hi⟩ := List.mem_iff_getElem?.mp hmem
    rw [List.getElem?_drop] at hi
    exact ⟨point + i, ⟨inst, hi, huse⟩, Nat.le_add_right ..⟩

theorem le_stop_iff : point ≤ ((computeUseDef code).interval vreg).stop ↔
    (∃ inst ∈ code.drop point, vreg ∈ getUsedVirtualRegisters inst) ∨
      (∀ inst ∈ code, vreg ∉ getUsedVirtualRegisters inst) ∧
        point ≤ (computeUseDef code).defSites vreg := by
  have hsites : (computeUseDef code).useSites vreg = [] ↔
      ∀ inst ∈ code, vreg ∉ getUsedVirtualRegisters inst := by
    have hzero : (∃ i, Uses code i vreg ∧ 0 ≤ i) ↔
        ∃ inst ∈ code.drop 0, vreg ∈ getUsedVirtualRegisters inst := exists_use_iff
    simp only [Nat.zero_le, and_true, List.drop_zero] at hzero
    rw [List.eq_nil_iff_forall_not_mem]
    simp only [mem_useSites]
    rw [← not_exists, hzero]
    simp
  rw [← exists_use_iff, ← hsites]
  cases hcases : (computeUseDef code).useSites vreg with
  | nil =>
    have hnone (i : ℕ) : ¬ Uses code i vreg := by simp [← mem_useSites, hcases]
    simp [UseDef.interval, hcases, hnone]
  | cons site sites =>
    obtain ⟨hmem, hle⟩ := foldl_max site sites
    rw [← hcases] at hmem hle
    simp only [UseDef.interval, hcases, reduceCtorEq, false_and, or_false]
    constructor
    · intro h
      exact ⟨_, mem_useSites.mp hmem, h⟩
    · rintro ⟨i, huse, h⟩
      exact h.trans (hle i (mem_useSites.mpr huse))

end LivenessAnalysis

namespace Rearranged

variable {code₁ code₂ : Code} {vreg : VirtualRegister} {point : ℕ}

theorem definitions (h : Rearranged code₁ code₂) :
    code₁.map getDefinedVirtualRegisters = code₂.map getDefinedVirtualRegisters := by
  cases h with
  | @intro before after stores stores' hperm hbound hdistinct =>
    have hstores (ps : List (VirtualRegister × ℕ)) :
        (ps.map storeOf).map getDefinedVirtualRegisters = List.replicate ps.length none := by
      induction ps with
      | nil => rfl
      | cons p ps ih => exact congrArg (none :: ·) ih
    simp only [List.map_append, hstores, hperm.length_eq]

/-- The stores define nothing, and from any other position on the code has the same instructions. -/
theorem drop (h : Rearranged code₁ code₂) (hdef : Defines code₁ point vreg) :
    (code₁.drop point).Perm (code₂.drop point) := by
  cases h with
  | @intro before after stores stores' hperm hbound hdistinct =>
    have hlength : (stores.map storeOf).length = (stores'.map storeOf).length := by
      simp [hperm.length_eq]
    rcases Nat.lt_or_ge point before.length with hlt | hge
    · simp only [List.append_assoc, List.drop_append_of_le_length hlt.le]
      apply List.Perm.append_left
      exact (hperm.map _).append_right _
    · rcases Nat.lt_or_ge point (before ++ stores.map storeOf).length with hlt | hge'
      · obtain ⟨inst, hinst, hsome⟩ := hdef
        rw [List.getElem?_append_left hlt, List.getElem?_append_right hge] at hinst
        obtain ⟨p, -, rfl⟩ := List.mem_map.mp (List.mem_of_getElem? hinst)
        cases hsome
      · have hdrop {front : Code} (hle : front.length ≤ point) :
            (front ++ after).drop point = after.drop (point - front.length) := by
          rw [List.drop_append, List.drop_eq_nil_of_le hle, List.nil_append]
        have hfront : (before ++ stores.map storeOf).length = (before ++ stores'.map storeOf).length := by
          rw [List.length_append, List.length_append, hlength]
        rw [hdrop hge', hdrop (hfront ▸ hge'), hfront]

/-- A register reaches a definition in both or in neither. -/
theorem reaches (h : Rearranged code₁ code₂) (hdef : Defines code₁ point vreg)
    (v : VirtualRegister) : point ≤ ((computeUseDef code₁).interval v).stop ↔
      point ≤ ((computeUseDef code₂).interval v).stop := by
  obtain ⟨-, hsites⟩ := definitions_eq h.definitions
  have hall : ∀ inst, inst ∈ code₁ ↔ inst ∈ code₂ := by
    intro inst
    cases h with
    | @intro before after stores stores' hperm hbound hdistinct =>
      simp only [List.mem_append, (hperm.map storeOf).mem_iff]
  simp only [le_stop_iff, (h.drop hdef).mem_iff, hall, hsites]

end Rearranged

/-! ### Allocation -/

/-- Intervals of the same registers, with the same starts, that reach the same starts. -/
structure Agree (vregs : List VirtualRegister) (f f' : VirtualRegister → LiveInterval) : Prop where
  register : ∀ v ∈ vregs, (f v).virtualRegister = (f' v).virtualRegister
  start : ∀ v ∈ vregs, (f v).start = (f' v).start
  reaches : ∀ v ∈ vregs, ∀ w ∈ vregs, (f w).start ≤ (f v).stop ↔ (f w).start ≤ (f' v).stop

namespace Agree

variable {vregs rest : List VirtualRegister} {f f' : VirtualRegister → LiveInterval}

/-- An allocator whose active intervals are those of `active`. -/
def holding (f : VirtualRegister → LiveInterval) (allocation : VirtualRegister → Option Register)
    (active : List (VirtualRegister × Register)) : RegisterAllocator :=
  ⟨allocation, active.map fun a => ⟨f a.1, a.2⟩⟩

theorem expire_holding (allocation : VirtualRegister → Option Register)
    (active : List (VirtualRegister × Register)) (point : ℕ) :
    (holding f allocation active).expireOldIntervals point =
      holding f allocation (active.filter fun a => point ≤ (f a.1).stop) := by
  simp only [holding, expireOldIntervals, List.filter_map, Nat.not_lt]
  rfl

theorem getNextAvailableRegister_holding (f f' : VirtualRegister → LiveInterval)
    (allocation : VirtualRegister → Option Register)
    (active : List (VirtualRegister × Register)) :
    (holding f allocation active).getNextAvailableRegister =
      (holding f' allocation active).getNextAvailableRegister := by
  simp only [getNextAvailableRegister, holding, List.all_map]
  rfl

/-- The scan assigns the same registers. -/
theorem allocateIntervals_eq (h : Agree vregs f f') (hrest : rest ⊆ vregs)
    (allocation : VirtualRegister → Option Register) (active : List (VirtualRegister × Register))
    (hactive : ∀ a ∈ active, a.1 ∈ vregs) :
    (allocateIntervals (rest.map f) (holding f allocation active)).map (·.allocation) =
      (allocateIntervals (rest.map f') (holding f' allocation active)).map (·.allocation) := by
  induction rest generalizing allocation active with
  | nil => rfl
  | cons v rest ih =>
    obtain ⟨hv, hrest⟩ := List.cons_subset.mp hrest
    have hkept : (active.filter fun a => (f v).start ≤ (f a.1).stop) =
        active.filter fun a => (f' v).start ≤ (f' a.1).stop := by
      apply List.filter_congr
      intro a ha
      simp [← h.start v hv, h.reaches a.1 (hactive a ha) v hv]
    simp only [List.map_cons, allocateIntervals, allocateInterval, expire_holding, hkept,
      getNextAvailableRegister_holding f f']
    set kept := active.filter fun a => (f' v).start ≤ (f' a.1).stop with hkeptDef
    cases (holding f' allocation kept).getNextAvailableRegister with
    | none => rfl
    | some r =>
      have hkeptActive : ∀ a ∈ kept ++ [(v, r)], a.1 ∈ vregs := by
        intro a ha
        rcases List.mem_append.mp ha with ha | ha
        · exact hactive a (List.mem_of_mem_filter ha)
        · rwa [List.mem_singleton.mp ha]
      have hnext := ih hrest (Function.update allocation (f v).virtualRegister (some r)) _ hkeptActive
      simp only [holding, List.map_append, List.map_singleton] at hnext ⊢
      simpa [h.register v hv] using hnext

end Agree

namespace LivenessAnalysis

/-- The registers in the order of their definitions. -/
def definitionOrder (code : Code) : List VirtualRegister :=
  (computeUseDef code).defined.insertionSort fun a b =>
    (computeUseDef code).defSites a ≤ (computeUseDef code).defSites b

theorem computeLiveIntervals_eq (code : Code) :
    computeLiveIntervals code = (definitionOrder code).map (computeUseDef code).interval := by
  symm
  apply List.map_insertionSort
  intro a _ b _
  rfl

theorem mem_definitionOrder {code : Code} {v : VirtualRegister} :
    v ∈ definitionOrder code ↔ ∃ i, Defines code i v := by
  rw [definitionOrder, List.mem_insertionSort, mem_defined]

end LivenessAnalysis

namespace Rearranged

variable {code₁ code₂ : Code}

theorem definitionOrder_eq (h : Rearranged code₁ code₂) :
    definitionOrder code₁ = definitionOrder code₂ := by
  obtain ⟨hdefined, hsites⟩ := definitions_eq h.definitions
  rw [definitionOrder, definitionOrder, hdefined, hsites]

theorem agree (h : Rearranged code₁ code₂) :
    Agree (definitionOrder code₁) (computeUseDef code₁).interval (computeUseDef code₂).interval where
  register v _ := rfl
  start v _ := congrFun (definitions_eq h.definitions).2 v
  reaches v _ w hw := by
    obtain ⟨i, hi⟩ := mem_definitionOrder.mp hw
    exact h.reaches (defSites_last hi).1 v

theorem allocation_eq (h : Rearranged code₁ code₂) :
    (allocateIntervals (computeLiveIntervals code₁) init).map (·.allocation) =
      (allocateIntervals (computeLiveIntervals code₂) init).map (·.allocation) := by
  rw [computeLiveIntervals_eq, computeLiveIntervals_eq, ← h.definitionOrder_eq]
  exact h.agree.allocateIntervals_eq (List.Subset.refl _) _ [] (by simp)

end Rearranged

end DinoRisc
