import DinoRisc.Arm64.Effect
import DinoRisc.Lowering.Selection

/-!
The code of a well-typed block: which instructions it consists of, which registers they define, and
where they access the `GuestState`.
-/

namespace DinoRisc

open Arm64 IR

/-- An access that is based on `X0`. -/
def Arm64.Instruction.stateAccess : Arm64.Instruction → Option (Opcode × DataSize × BitVec 32)
  | .memory opcode size _ baseReg offset =>
    if baseReg = X0 then some (opcode, size, offset) else none
  | _ => none

def registerOffset (r : ℕ) : BitVec 32 := BitVec.ofNat 32 (r * REGISTER_SIZE_BYTES)

/-- The accesses of the code of an instruction to the `GuestState`. -/
def IR.InstructionKind.stateAccesses : InstructionKind → List (Opcode × DataSize × BitVec 32)
  | .regRead r => [(.ldr, .x, registerOffset r)]
  | .regWrite r _ => [(.str, .x, registerOffset r)]
  | .load .. | .store .. =>
    [(.ldr, .x, BitVec.ofNat 32 GUEST_MEMORY_BASE_OFFSET),
      (.ldr, .x, BitVec.ofNat 32 SHADOW_MEMORY_OFFSET)]
  | _ => []

namespace InstructionSelector

variable {σ σ' σ'' : InstructionSelector} {Γ : Types} {code code' : Code}
  {target : Arm64.Operand}

/-- Between two definitions of a virtual register there are only definitions of it that read no
other register. -/
def Clustered (code : Code) : Prop :=
  ∀ (i j k : ℕ) (first mid last : Arm64.Instruction) (vreg : VirtualRegister), i < j → j < k →
    code[i]? = some first → code[j]? = some mid → code[k]? = some last →
    first.target = some (.virtual vreg) → last.target = some (.virtual vreg) →
    mid.target = some (.virtual vreg) ∧ ∀ p ∈ mid.sources, p = .virtual vreg

theorem clustered_of_length (h : code.length ≤ 2) : Clustered code := by
  intro i j k first mid last vreg hij hjk hi hj hk
  have hlt := (List.getElem?_eq_some_iff.mp hk).1
  omega

theorem Clustered.append (h : Clustered code) (h' : Clustered code')
    (hdisjoint : ∀ vreg, .virtual vreg ∈ targets code → .virtual vreg ∉ targets code') :
    Clustered (code ++ code') := by
  intro i j k first mid last vreg hij hjk hi hj hk hfirst hlast
  by_cases hleft : i < code.length
  · rw [List.getElem?_append_left hleft] at hi
    have hk' : k < code.length := by
      by_contra hge
      rw [List.getElem?_append_right (not_lt.mp hge)] at hk
      exact hdisjoint vreg ⟨first, List.mem_of_getElem? hi, hfirst⟩ ⟨last, List.mem_of_getElem? hk, hlast⟩
    rw [List.getElem?_append_left (hjk.trans hk')] at hj
    rw [List.getElem?_append_left hk'] at hk
    exact h i j k first mid last vreg hij hjk hi hj hk hfirst hlast
  · rw [List.getElem?_append_right (by omega)] at hi hj hk
    exact h' (i - code.length) (j - code.length) (k - code.length) first mid last vreg (by omega)
      (by omega) hi hj hk hfirst hlast

def scope (σ : InstructionSelector) : Set Place :=
  {p | p = .physical (.x 0) ∨ ∃ id vreg, σ.irToVReg id = some vreg ∧ p = .virtual vreg}

theorem scope_define (id : ValueId) (ty : Ty) :
    (σ.define id ty).scope ⊆ σ.scope ∪ {.virtual σ.nextVirtualReg} := by
  rintro p (rfl | ⟨k, vreg, hk, rfl⟩)
  · exact .inl (.inl rfl)
  · by_cases hki : k = id
    · subst hki
      simp only [define, Function.update_self, Option.some.injEq] at hk
      exact .inr (by rw [hk]; rfl)
    · rw [define_irToVReg ty hki] at hk
      exact .inl (.inr ⟨k, vreg, hk, rfl⟩)

theorem mem_scope {id : ValueId} {vreg : VirtualRegister} (h : σ.irToVReg id = some vreg) :
    .virtual vreg ∈ σ.scope := .inr ⟨id, vreg, h, rfl⟩

/-! ### Constants -/

/-- Code that only puts a value into `p`. -/
structure Loads (p : Place) (code : Code) : Prop where
  emitted : ∀ inst ∈ code, inst.Emitted
  target : ∀ inst ∈ code, inst.target = some p
  sources : ∀ inst ∈ code, ∀ q ∈ inst.sources, q = p
  closed : ∀ places, Scoped places code
  access : ∀ inst ∈ code, inst.stateAccess = none
  ne : code ≠ []

theorem Loads.clustered {vreg : VirtualRegister} (h : Loads (.virtual vreg) code) :
    Clustered code := by
  intro i j k first mid last vreg' hij hjk hi hj hk hfirst hlast
  have hmem := List.mem_of_getElem? hj
  rw [h.target first (List.mem_of_getElem? hi)] at hfirst
  cases hfirst
  exact ⟨h.target mid hmem, h.sources mid hmem⟩

theorem targets_of_forall {p : Place} (htarget : ∀ inst ∈ code, inst.target = some p)
    (hne : code ≠ []) : targets code = {p} := by
  ext q
  constructor
  · rintro ⟨inst, hmem, hq⟩
    rw [htarget inst hmem] at hq
    exact (Option.some.inj hq).symm
  · rintro rfl
    obtain ⟨inst, hmem⟩ := List.exists_mem_of_ne_nil code hne
    exact ⟨inst, hmem, htarget inst hmem⟩

theorem Loads.targets {p : Place} (h : Loads p code) : targets code = {p} :=
  targets_of_forall h.target h.ne

theorem Loads.single {inst : Arm64.Instruction} {p : Place} (hemitted : inst.Emitted)
    (htarget : inst.target = some p) (hsources : inst.sources = [])
    (haccess : inst.stateAccess = none) : Loads p [inst] where
  emitted := by simpa using hemitted
  target := by simpa using htarget
  sources := by simp [hsources]
  closed places := ⟨by simp [hsources], trivial⟩
  access := by simpa using haccess
  ne := by simp

/-- Code that also reads `p`. -/
structure Extends (p : Place) (inst : Arm64.Instruction) : Prop where
  emitted : inst.Emitted
  target : inst.target = some p
  sources : inst.sources = [p]
  access : inst.stateAccess = none

theorem Extends.scoped {p : Place} (h : ∀ inst ∈ code, Extends p inst) {places : Set Place}
    (hp : p ∈ places) : Scoped places code := by
  induction code generalizing places with
  | nil => trivial
  | cons inst rest ih =>
    obtain ⟨hinst, hrest⟩ := List.forall_mem_cons.mp h
    exact ⟨by simpa [hinst.sources] using hp, ih hrest (.inl hp)⟩

theorem Loads.extend {p : Place} (h : Loads p code) (h' : ∀ inst ∈ code', Extends p inst) :
    Loads p (code ++ code') where
  emitted := List.forall_mem_append.mpr ⟨h.emitted, fun inst hi => (h' inst hi).emitted⟩
  target := List.forall_mem_append.mpr ⟨h.target, fun inst hi => (h' inst hi).target⟩
  sources := List.forall_mem_append.mpr
    ⟨h.sources, fun inst hi => by simp [(h' inst hi).sources]⟩
  closed places := (h.closed places).append
    (Extends.scoped h' (.inr (by rw [h.targets]; rfl)))
  access := List.forall_mem_append.mpr ⟨h.access, fun inst hi => (h' inst hi).access⟩
  ne := by simp [h.ne]

theorem chunk_shift {shift : ℕ} (h : shift ∈ [0, 16, 32, 48]) :
    BitVec.ofNat 8 shift ∈ [0#8, 16#8, 32#8, 48#8] := by
  simp only [List.mem_cons, List.not_mem_nil, or_false] at h
  rcases h with rfl | rfl | rfl | rfl <;> simp

section

variable {p : Place} {type : Ty} {value : BitVec 64}

theorem selectChunks_extends (htarget : target.IsSlot) (hp : target.place = some p)
    (size : DataSize) (value : BitVec 64) {shifts : List ℕ} (hshifts : shifts ⊆ [0, 16, 32, 48]) :
    ∀ inst ∈ selectChunks size target value false shifts, Extends p inst := by
  induction shifts with
  | nil => simp [selectChunks]
  | cons shift rest ih =>
    obtain ⟨hshift, hrest⟩ := List.cons_subset.mp hshifts
    rw [selectChunks]
    split
    · exact ih hrest
    · rw [List.forall_mem_cons]
      refine ⟨⟨.chunk (by simp) htarget (chunk_shift hshift), hp, ?_, rfl⟩, ih hrest⟩
      simp [Arm64.Instruction.sources, Arm64.Instruction.reads, hp]

theorem selectChunks_loads (htarget : target.IsSlot) (hp : target.place = some p)
    (size : DataSize) (value : BitVec 64) {shifts : List ℕ} (hshifts : shifts ⊆ [0, 16, 32, 48]) :
    Loads p (selectChunks size target value true shifts) := by
  induction shifts with
  | nil => exact .single (.chunk (by simp) htarget (by simp)) hp rfl rfl
  | cons shift rest ih =>
    obtain ⟨hshift, hrest⟩ := List.cons_subset.mp hshifts
    rw [selectChunks]
    split
    · exact ih hrest
    · exact (Loads.single (.chunk (by simp) htarget (chunk_shift hshift)) hp rfl rfl).extend
        (selectChunks_extends htarget hp size value hrest)

theorem selectConstIntoRegister_loads (htarget : target.IsSlot) (hp : target.place = some p)
    (type : Ty) (value : BitVec 64) : Loads p (selectConstIntoRegister type value target) := by
  rw [selectConstIntoRegister]
  split
  · rename_i hneg
    refine .single (.constant (by simp) htarget ?_) hp rfl rfl
    have hint := value.toInt_eq_toNat_cond
    rw [BitVec.toNat_not]
    split at hint <;> omega
  · split
    · rename_i hpos
      refine .single (.constant (by simp) htarget ?_) hp rfl rfl
      have hint := value.toInt_eq_toNat_cond
      split at hint <;> omega
    · exact selectChunks_loads htarget hp _ value (List.Subset.refl _)

end

/-! ### Code that defines new registers -/

/-- Code between two states of a selector: its registers and its accesses to the `GuestState`. -/
structure Selects (σ σ' : InstructionSelector) (accesses : List (Opcode × DataSize × BitVec 32))
    (code : Code) : Prop where
  emitted : ∀ inst ∈ code, inst.Emitted
  next : σ.nextVirtualReg ≤ σ'.nextVirtualReg
  fresh : ∀ p ∈ targets code, ∃ vreg, p = .virtual vreg ∧ σ.nextVirtualReg ≤ vreg ∧
    vreg < σ'.nextVirtualReg
  closed : Scoped σ.scope code
  scope : σ'.scope ⊆ σ.scope ∪ targets code
  clustered : Clustered code
  accesses : code.filterMap Arm64.Instruction.stateAccess = accesses

section

variable {id : ValueId} {ty : Ty} {accesses accesses' : List (Opcode × DataSize × BitVec 32)}
  {inst : Arm64.Instruction}

namespace Selects

theorem nil (σ : InstructionSelector) : Selects σ σ [] [] where
  emitted := by simp
  next := le_rfl
  fresh := by simp [targets]
  closed := trivial
  scope := Set.subset_union_left
  clustered := clustered_of_length (by simp)
  accesses := rfl

theorem append (h : Selects σ σ' accesses code) (h' : Selects σ' σ'' accesses' code') :
    Selects σ σ'' (accesses ++ accesses') (code ++ code') where
  emitted := List.forall_mem_append.mpr ⟨h.emitted, h'.emitted⟩
  next := h.next.trans h'.next
  fresh p hp := by
    rw [targets_append] at hp
    rcases hp with hp | hp
    · obtain ⟨vreg, rfl, hle, hlt⟩ := h.fresh p hp
      exact ⟨vreg, rfl, hle, hlt.trans_le h'.next⟩
    · obtain ⟨vreg, rfl, hle, hlt⟩ := h'.fresh p hp
      exact ⟨vreg, rfl, h.next.trans hle, hlt⟩
  closed := h.closed.append (h'.closed.mono h.scope)
  scope := by
    rw [targets_append, ← Set.union_assoc]
    exact h'.scope.trans (Set.union_subset_union_left _ h.scope)
  clustered := by
    refine h.clustered.append h'.clustered fun vreg hmem hmem' => ?_
    obtain ⟨v, hv, -, hlt⟩ := h.fresh _ hmem
    obtain ⟨v', hv', hle, -⟩ := h'.fresh _ hmem'
    cases hv
    cases hv'
    exact absurd (hlt.trans_le hle) (lt_irrefl _)
  accesses := by rw [List.filterMap_append, h.accesses, h'.accesses]

end Selects

theorem Loads.selects (h : Loads (.virtual σ.nextVirtualReg) code) :
    Selects σ (σ.define id ty) [] code where
  emitted := h.emitted
  next := Nat.le_succ _
  fresh p hp := by
    rw [h.targets] at hp
    exact ⟨_, hp, le_rfl, Nat.lt_succ_self _⟩
  closed := h.closed _
  scope := by
    rw [h.targets]
    exact scope_define id ty
  clustered := h.clustered
  accesses := List.filterMap_eq_nil_iff.mpr h.access

theorem selects_define (before : Code) (inst : Arm64.Instruction)
    (hemitted : ∀ i ∈ before ++ [inst], i.Emitted)
    (hbefore : targets before = ∅) (hlength : before.length ≤ 1)
    (htarget : inst.target = some (.virtual σ.nextVirtualReg))
    (hclosed : Scoped σ.scope (before ++ [inst])) :
    Selects σ (σ.define id ty) ((before ++ [inst]).filterMap Arm64.Instruction.stateAccess)
      (before ++ [inst]) := by
  have htargets : targets (before ++ [inst]) = {.virtual σ.nextVirtualReg} := by
    rw [targets_append, hbefore, Set.empty_union]
    ext p
    simp [targets, htarget, eq_comm]
  refine ⟨hemitted, Nat.le_succ _, ?_, hclosed, ?_, ?_, rfl⟩
  · rintro p hp
    rw [htargets] at hp
    exact ⟨_, hp, le_rfl, Nat.lt_succ_self _⟩
  · rw [htargets]
    exact scope_define id ty
  · apply clustered_of_length
    simpa using hlength

end

/-! ### The address translation -/

section

variable {l : VirtualRegister} {places : Set Place}

def baseLoads (n : VirtualRegister) : Code :=
  [.memory .ldr .x (.virtual (n + 1)) X0 (BitVec.ofNat 32 GUEST_MEMORY_BASE_OFFSET),
    .memory .ldr .x (.virtual (n + 2)) X0 (BitVec.ofNat 32 SHADOW_MEMORY_OFFSET)]

def hostAddress (n l : VirtualRegister) : Code :=
  [.threeOperand .sub .x (.virtual n) (.virtual l) (.virtual (n + 1)),
    .threeOperand .add .x (.virtual n) (.virtual n) (.virtual (n + 2))]

theorem generateAddressTranslation_eq (σ : InstructionSelector) (l : VirtualRegister) :
    (σ.generateAddressTranslation l).1 =
      baseLoads σ.nextVirtualReg ++ hostAddress σ.nextVirtualReg l := rfl

theorem targets_baseLoads (n : VirtualRegister) :
    targets (baseLoads n) = {.virtual (n + 1), .virtual (n + 2)} := by
  ext p
  simp [baseLoads, targets, Arm64.Instruction.target, Operand.place, eq_comm]

theorem targets_hostAddress (n l : VirtualRegister) :
    targets (hostAddress n l) = {.virtual n} := by
  ext p
  simp [hostAddress, targets, Arm64.Instruction.target, Operand.place, eq_comm]

theorem targets_generateAddressTranslation (σ : InstructionSelector) (l : VirtualRegister) :
    targets (σ.generateAddressTranslation l).1 = {.virtual σ.nextVirtualReg,
      .virtual (σ.nextVirtualReg + 1), .virtual (σ.nextVirtualReg + 2)} := by
  rw [generateAddressTranslation_eq, targets_append, targets_baseLoads, targets_hostAddress,
    Set.union_comm, Set.singleton_union]

theorem generateAddressTranslation_emitted (σ : InstructionSelector) (l : VirtualRegister) :
    ∀ inst ∈ (σ.generateAddressTranslation l).1, inst.Emitted := by
  rw [generateAddressTranslation_eq]
  intro inst hinst
  simp only [baseLoads, hostAddress, List.mem_append, List.mem_cons, List.not_mem_nil,
    or_false] at hinst
  rcases hinst with (rfl | rfl) | rfl | rfl
  · exact .memory (by simp) (.virtual _) (.general 0) (by decide) (by decide)
  · exact .memory (by simp) (.virtual _) (.general 0) (by decide) (by decide)
  · exact .compute (by simp) (.virtual _) (.virtual _) (.virtual _)
  · exact .compute (by simp) (.virtual _) (.virtual _) (.virtual _)

theorem generateAddressTranslation_scoped (hX0 : .physical (.x 0) ∈ places)
    (hl : .virtual l ∈ places) : Scoped places (σ.generateAddressTranslation l).1 := by
  rw [generateAddressTranslation_eq]
  refine Scoped.append ?_ ?_
  · refine ⟨by simpa [Arm64.Instruction.sources, Arm64.Instruction.reads, Operand.place, X0] using hX0,
      ?_, trivial⟩
    simpa [Arm64.Instruction.sources, Arm64.Instruction.reads, Operand.place, X0] using Or.inl hX0
  · rw [targets_baseLoads]
    refine ⟨?_, ?_, trivial⟩
    · simp [Arm64.Instruction.sources, Arm64.Instruction.reads, Operand.place, hl]
    · simp [Arm64.Instruction.sources, Arm64.Instruction.reads, Arm64.Instruction.target,
        Operand.place]

theorem generateAddressTranslation_clustered (σ : InstructionSelector) (l : VirtualRegister) :
    Clustered (σ.generateAddressTranslation l).1 := by
  rw [generateAddressTranslation_eq]
  refine (clustered_of_length le_rfl).append (clustered_of_length le_rfl) ?_
  intro vreg hmem hmem'
  rw [targets_baseLoads] at hmem
  rw [targets_hostAddress] at hmem'
  cases hmem'
  simp at hmem

theorem generateAddressTranslation_accesses (σ : InstructionSelector) (l : VirtualRegister) :
    (σ.generateAddressTranslation l).1.filterMap Arm64.Instruction.stateAccess =
      [(.ldr, .x, BitVec.ofNat 32 GUEST_MEMORY_BASE_OFFSET),
        (.ldr, .x, BitVec.ofNat 32 SHADOW_MEMORY_OFFSET)] := by
  rw [generateAddressTranslation_eq]
  rfl

end

/-! ### The code of a block -/

section

variable {l r : VirtualRegister} {id operand : ValueId} {ty : Ty}

theorem selects_single {inst : Arm64.Instruction} (hemitted : inst.Emitted)
    (htarget : inst.target = some (.virtual σ.nextVirtualReg))
    (hsources : ∀ p ∈ inst.sources, p ∈ σ.scope) :
    Selects σ (σ.define id ty) ([inst].filterMap Arm64.Instruction.stateAccess) [inst] :=
  selects_define [] inst (by simpa using hemitted) (by simp [targets]) (by simp) htarget
    ⟨hsources, trivial⟩

theorem selects_comparison (hl : .virtual l ∈ σ.scope) (hr : .virtual r ∈ σ.scope)
    (condition : Condition) :
    Selects σ (σ.define id ty) [] [.twoOperand .cmp .x (.virtual l) (.virtual r),
      .conditional .cset .x (.virtual σ.nextVirtualReg) condition] := by
  refine selects_define [.twoOperand .cmp .x (.virtual l) (.virtual r)]
    (.conditional .cset .x (.virtual σ.nextVirtualReg) condition) ?_
    (by simp [targets, Arm64.Instruction.target]) (by simp) rfl ⟨?_, ?_, trivial⟩
  · intro inst hinst
    simp only [List.singleton_append, List.mem_cons, List.not_mem_nil, or_false] at hinst
    rcases hinst with rfl | rfl
    · exact .compare (.virtual _) (.inl (.virtual _))
    · exact .set (.virtual _)
  · simpa [Arm64.Instruction.sources, Arm64.Instruction.reads, Operand.place] using ⟨hl, hr⟩
  · simp [Arm64.Instruction.sources, Arm64.Instruction.reads]

theorem fresh_add {n : VirtualRegister} {i k : ℕ} (h : i < k) :
    ∃ vreg, Place.virtual (n + i) = .virtual vreg ∧ n ≤ vreg ∧ vreg < n + k :=
  ⟨_, rfl, Nat.le_add_right _ _, Nat.add_lt_add_left h _⟩

theorem selects_load (hl : .virtual l ∈ σ.scope) (size : DataSize) :
    Selects σ ((σ.define id ty).skip 3) (InstructionKind.load ty operand).stateAccesses
      (((σ.define id ty).generateAddressTranslation l).1 ++
        [.memory .ldr size (.virtual σ.nextVirtualReg) (.virtual (σ.nextVirtualReg + 1)) 0#32]) := by
  have htargets : targets [Arm64.Instruction.memory .ldr size (.virtual σ.nextVirtualReg)
      (.virtual (σ.nextVirtualReg + 1)) 0#32] = {.virtual σ.nextVirtualReg} := by
    ext p
    simp [targets, Arm64.Instruction.target, Operand.place, eq_comm]
  have htranslation := targets_generateAddressTranslation (σ.define id ty) l
  have hnext : (σ.define id ty).nextVirtualReg = σ.nextVirtualReg + 1 := rfl
  rw [hnext] at htranslation
  refine ⟨?_, Nat.le_add_right _ 4, ?_, ?_, ?_, ?_, ?_⟩
  · refine List.forall_mem_append.mpr ⟨generateAddressTranslation_emitted _ _, ?_⟩
    intro inst hinst
    obtain rfl := List.mem_singleton.mp hinst
    exact .memory (by simp) (.virtual _) (.virtual _) (by decide) (by decide)
  · intro p hp
    rw [targets_append, htranslation, htargets] at hp
    have hbound : ((σ.define id ty).skip 3).nextVirtualReg = σ.nextVirtualReg + 4 := rfl
    rw [hbound]
    rcases hp with (rfl | rfl | rfl) | rfl
    · exact fresh_add (i := 1) (by decide)
    · exact fresh_add (i := 2) (by decide)
    · exact fresh_add (i := 3) (by decide)
    · exact fresh_add (i := 0) (by decide)
  · refine (generateAddressTranslation_scoped (.inl rfl) hl).append ⟨?_, trivial⟩
    rw [htranslation]
    simp [Arm64.Instruction.sources, Arm64.Instruction.reads, Operand.place]
  · rw [targets_append, htargets, Set.union_comm (targets _), ← Set.union_assoc]
    exact (scope_define id ty).trans Set.subset_union_left
  · refine (generateAddressTranslation_clustered _ _).append (clustered_of_length (by simp)) ?_
    intro vreg hmem hmem'
    rw [htranslation] at hmem
    rw [htargets] at hmem'
    cases hmem'
    rcases hmem with h | h | h
    · exact virtual_ne (Nat.lt_add_of_pos_right (by decide)) h
    · exact virtual_ne (Nat.lt_add_of_pos_right (k := 2) (by decide)) h
    · exact virtual_ne (Nat.lt_add_of_pos_right (k := 3) (by decide)) h
  · rw [List.filterMap_append, generateAddressTranslation_accesses]
    rfl

theorem selects_store (hl : .virtual l ∈ σ.scope) (hr : .virtual r ∈ σ.scope) (size : DataSize) :
    Selects σ (σ.skip 3) (InstructionKind.store id operand).stateAccesses
      ((σ.generateAddressTranslation r).1 ++
        [.memory .str size (.virtual l) (.virtual σ.nextVirtualReg) 0#32]) := by
  have htargets : targets [Arm64.Instruction.memory .str size (.virtual l)
      (.virtual σ.nextVirtualReg) 0#32] = ∅ := by simp [targets, Arm64.Instruction.target]
  have htranslation := targets_generateAddressTranslation σ r
  refine ⟨?_, Nat.le_add_right _ 3, ?_, ?_, ?_, ?_, ?_⟩
  · refine List.forall_mem_append.mpr ⟨generateAddressTranslation_emitted _ _, ?_⟩
    intro inst hinst
    obtain rfl := List.mem_singleton.mp hinst
    exact .memory (by simp) (.virtual _) (.virtual _) (by decide) (by decide)
  · intro p hp
    rw [targets_append, htranslation, htargets, Set.union_empty] at hp
    have hbound : (σ.skip 3).nextVirtualReg = σ.nextVirtualReg + 3 := rfl
    rw [hbound]
    rcases hp with rfl | rfl | rfl
    · exact fresh_add (i := 0) (by decide)
    · exact fresh_add (i := 1) (by decide)
    · exact fresh_add (i := 2) (by decide)
  · refine (generateAddressTranslation_scoped (.inl rfl) hr).append ⟨?_, trivial⟩
    rw [htranslation]
    simp [Arm64.Instruction.sources, Arm64.Instruction.reads, Operand.place, hl]
  · exact Set.subset_union_left
  · refine (generateAddressTranslation_clustered _ _).append (clustered_of_length (by simp)) ?_
    intro vreg hmem hmem'
    rw [htargets] at hmem'
    exact hmem'
  · rw [List.filterMap_append, generateAddressTranslation_accesses]
    rfl

theorem irBinaryOpToARM64_mem {opcode : BinaryOpcode} {o : Arm64.Opcode}
    (hop : opcode.isArithmetic = true) (ho : irBinaryOpToARM64 opcode = .ok o) :
    o ∈ [.add, .sub, .and, .orr, .eor, .lsl, .lsr, .asr] := by
  cases opcode <;> first
    | exact absurd hop (by decide)
    | (cases ho; simp)

theorem registerOffset_toNat {r : ℕ} (hr : r < 32) :
    (registerOffset r).toNat ≤ 280 ∧ (registerOffset r).toNat % 8 = 0 := by
  rw [registerOffset, REGISTER_SIZE_BYTES, BitVec.toNat_ofNat]
  omega

theorem selectInstruction_selects {inst : IR.Instruction} {type : Option Ty} (h : Covers σ Γ)
    (hid : Γ inst.valueId = none) (hlow : Lowerable Γ inst.kind type)
    (hok : σ.selectInstruction inst = .ok (code, σ')) :
    Selects σ σ' inst.kind.stateAccesses code := by
  obtain ⟨id, kind⟩ := inst
  dsimp only at hid hlow ⊢
  have hfresh := h.fresh hid
  cases hlow with
  | const64 value | const32 value =>
    cases hok.symm.trans (selectInstruction_const hfresh value)
    exact (selectConstIntoRegister_loads (.virtual _) rfl _ value).selects
  | @arithmetic opcode ty lhs rhs hop hty hl hr =>
    obtain ⟨-, l, hl⟩ := h.typed hl
    obtain ⟨-, r, hr⟩ := h.typed hr
    obtain ⟨hnone, o, ho⟩ := comparisonCondition_arithmetic hop
    cases hok.symm.trans (selectInstruction_arithmetic hfresh hnone ho hl hr)
    have hmem := irBinaryOpToARM64_mem hop ho
    have hsources : ∀ p ∈ [Place.virtual l, .virtual r], p ∈ σ.scope := by
      simpa using ⟨mem_scope hl, mem_scope hr⟩
    simp only [List.mem_cons, List.not_mem_nil, or_false] at hmem
    rcases hmem with rfl | rfl | rfl | rfl | rfl | rfl | rfl | rfl <;>
      exact selects_single (.compute (by simp) (.virtual _) (.virtual _) (.virtual _)) rfl hsources
  | comparison hop hty hl hr =>
    obtain ⟨-, l, hl⟩ := h.typed hl
    obtain ⟨-, r, hr⟩ := h.typed hr
    obtain ⟨condition, hcond⟩ := comparisonCondition_comparison hop
    cases hok.symm.trans (selectInstruction_comparison hfresh hcond hl hr)
    exact selects_comparison (mem_scope hl) (mem_scope hr) condition
  | @sext ty operand hty ha =>
    obtain ⟨hty', l, hl⟩ := h.typed ha
    cases hok.symm.trans (selectInstruction_sext hfresh hty' hl)
    refine selects_single (.convert ?_ (.virtual _) (.virtual _)) ?_ ?_
    · rcases hty with rfl | rfl | rfl <;> simp [sextOpcode]
    · rcases hty with rfl | rfl | rfl <;> rfl
    · rcases hty with rfl | rfl | rfl <;>
        simpa [sextOpcode, Arm64.Instruction.sources, Arm64.Instruction.reads, Operand.place]
          using mem_scope hl
  | zext ha =>
    obtain ⟨hty, l, hl⟩ := h.typed ha
    cases hok.symm.trans (selectInstruction_zext hfresh hty hl)
    exact selects_single (.convert (by simp) (.virtual _) (.virtual _)) rfl (by
      simpa [Arm64.Instruction.sources, Arm64.Instruction.reads, Operand.place] using mem_scope hl)
  | trunc ha =>
    obtain ⟨-, l, hl⟩ := h.typed ha
    cases hok.symm.trans (selectInstruction_trunc hfresh hl)
    exact selects_single (.convert (by simp) (.virtual _) (.virtual _)) rfl (by
      simpa [Arm64.Instruction.sources, Arm64.Instruction.reads, Operand.place] using mem_scope hl)
  | load hty ha =>
    obtain ⟨-, l, hl⟩ := h.typed ha
    cases hok.symm.trans (selectInstruction_load hfresh hl)
    exact selects_load (mem_scope hl) _
  | store hty hv ha =>
    obtain ⟨hty, l, hl⟩ := h.typed hv
    obtain ⟨-, r, hr⟩ := h.typed ha
    cases hok.symm.trans (selectInstruction_store hty hl hr)
    exact selects_store (mem_scope hl) (mem_scope hr) _
  | @regRead r hr =>
    cases hok.symm.trans (selectInstruction_regRead hfresh _)
    obtain ⟨hle, haligned⟩ := registerOffset_toNat hr
    exact selects_single (.memory (by simp) (.virtual _) (.general 0) hle haligned) rfl
      (by simpa [Arm64.Instruction.sources, Arm64.Instruction.reads, Operand.place, X0]
        using .inl rfl)
  | @regWrite r value hr hv =>
    obtain ⟨-, l, hl⟩ := h.typed hv
    cases hok.symm.trans (selectInstruction_regWrite _ hl)
    obtain ⟨hle, haligned⟩ := registerOffset_toNat hr
    refine ⟨?_, le_rfl, ?_, ⟨?_, trivial⟩, Set.subset_union_left, clustered_of_length (by simp),
      rfl⟩
    · intro inst hinst
      obtain rfl := List.mem_singleton.mp hinst
      exact .memory (by simp) (.virtual _) (.general 0) hle haligned
    · simp [targets, Arm64.Instruction.target]
    · simpa [Arm64.Instruction.sources, Arm64.Instruction.reads, Operand.place, X0]
        using ⟨mem_scope hl, .inl rfl⟩

theorem selectAll_selects {instructions : List IR.Instruction} {Γ' : Types} (h : Covers σ Γ)
    (htyped : WellTyped Γ instructions Γ') (hok : σ.selectAll instructions = .ok (code, σ')) :
    Selects σ σ' (instructions.flatMap fun inst => inst.kind.stateAccesses) code ∧
      Covers σ' Γ' := by
  induction htyped generalizing σ code with
  | nil Γ =>
    cases hok
    exact ⟨.nil _, h⟩
  | cons hfresh hlow _ ih =>
    obtain ⟨code₁, σ₁, code₂, hok₁, hok₂, rfl⟩ := selectAll_cons hok
    obtain ⟨code', σ'', hok', h'⟩ := selectInstruction_covers h hfresh hlow
    cases hok₁.symm.trans hok'
    obtain ⟨hrest, hcovers⟩ := ih h' hok₂
    exact ⟨(selectInstruction_selects h hfresh hlow hok₁).append hrest, hcovers⟩

end

/-! ### The code behind the instructions -/

/-- Code that leaves the physical registers alone. -/
structure Body (places : Set Place) (code : Code) : Prop where
  emitted : ∀ inst ∈ code, inst.Emitted
  fresh : ∀ p ∈ targets code, ∃ vreg, p = .virtual vreg
  closed : Scoped places code

/-- Code that only puts the next program counter into `X0`. -/
structure Ending (places : Set Place) (code : Code) : Prop where
  emitted : ∀ inst ∈ code, inst.Emitted
  target : ∀ inst ∈ code, inst.target = some (.physical (.x 0))
  closed : Scoped places code
  access : ∀ inst ∈ code, inst.stateAccess = none
  ne : code ≠ []

theorem Selects.body {accesses : List (Opcode × DataSize × BitVec 32)}
    (h : Selects σ σ' accesses code) : Body σ.scope code where
  emitted := h.emitted
  fresh p hp := by
    obtain ⟨vreg, rfl, -⟩ := h.fresh p hp
    exact ⟨vreg, rfl⟩
  closed := h.closed

theorem Body.append {places : Set Place} (h : Body places code)
    (h' : Body (places ∪ targets code) code') : Body places (code ++ code') where
  emitted := List.forall_mem_append.mpr ⟨h.emitted, h'.emitted⟩
  fresh p hp := by
    rw [targets_append] at hp
    exact hp.elim (h.fresh p) (h'.fresh p)
  closed := h.closed.append h'.closed

theorem Loads.ending {places : Set Place} (h : Loads (.physical (.x 0)) code) :
    Ending places code :=
  ⟨h.emitted, h.target, h.closed places, h.access, h.ne⟩

theorem ending_mov {vreg : VirtualRegister} {places : Set Place} (h : .virtual vreg ∈ places) :
    Ending places [.twoOperand .mov .x X0 (.virtual vreg)] where
  emitted inst hinst := by
    obtain rfl := List.mem_singleton.mp hinst
    exact .convert (by simp) (.general 0) (.virtual vreg)
  target inst hinst := by
    obtain rfl := List.mem_singleton.mp hinst
    rfl
  closed := ⟨by simpa [Arm64.Instruction.sources, Arm64.Instruction.reads, Operand.place] using h,
    trivial⟩
  access inst hinst := by
    obtain rfl := List.mem_singleton.mp hinst
    rfl
  ne := by simp

def branchBody (cond t f target : VirtualRegister) (trueBlock falseBlock : BitVec 64) : Code :=
  .twoOperand .cmp .x (.virtual cond) (.immediate 0#64) ::
    (selectConstIntoRegister .i64 trueBlock (.virtual t) ++
      (selectConstIntoRegister .i64 falseBlock (.virtual f) ++
        [.conditionalSelect .csel .x (.virtual target) (.virtual t) (.virtual f) .ne]))

theorem branchCode_eq (cond t f target : VirtualRegister) (trueBlock falseBlock : BitVec 64) :
    branchCode cond t f target trueBlock falseBlock =
      branchBody cond t f target trueBlock falseBlock ++
        [.twoOperand .mov .x X0 (.virtual target)] ++ selectRet := by
  simp [branchCode, branchBody]

section

variable {cond t f target : VirtualRegister} {places : Set Place}

theorem targets_branchBody (trueBlock falseBlock : BitVec 64) :
    targets (branchBody cond t f target trueBlock falseBlock) =
      {.virtual t, .virtual f, .virtual target} := by
  have hcsel : targets [Arm64.Instruction.conditionalSelect .csel .x (.virtual target) (.virtual t)
      (.virtual f) .ne] = {.virtual target} := by
    ext p
    simp [targets, Arm64.Instruction.target, Operand.place, eq_comm]
  rw [branchBody, targets_cons, targets_append, targets_append, hcsel,
    (selectConstIntoRegister_loads (.virtual t) rfl _ _).targets,
    (selectConstIntoRegister_loads (.virtual f) rfl _ _).targets]
  ext p
  simp only [Arm64.Instruction.target, reduceCtorEq, Set.ofPred_false, Set.empty_union,
    Set.union_singleton, Set.mem_union, Set.mem_insert_iff, Set.mem_singleton_iff]
  tauto

theorem branchBody_body (hcond : .virtual cond ∈ places) (trueBlock falseBlock : BitVec 64) :
    Body places (branchBody cond t f target trueBlock falseBlock) := by
  have ht := selectConstIntoRegister_loads (.virtual t) rfl .i64 trueBlock
  have hf := selectConstIntoRegister_loads (.virtual f) rfl .i64 falseBlock
  refine ⟨?_, ?_, ?_⟩
  · simp only [branchBody, List.forall_mem_append, List.forall_mem_cons]
    exact ⟨.compare (.virtual _) (.inr rfl), ht.emitted, hf.emitted,
      .select (.virtual _) (.virtual _) (.virtual _), by simp⟩
  · intro p hp
    rw [targets_branchBody] at hp
    rcases hp with rfl | rfl | rfl <;> exact ⟨_, rfl⟩
  · refine ⟨by simpa [Arm64.Instruction.sources, Arm64.Instruction.reads, Operand.place] using hcond,
      (ht.closed _).append ((hf.closed _).append ⟨?_, trivial⟩)⟩
    rw [ht.targets, hf.targets]
    simp [Arm64.Instruction.sources, Arm64.Instruction.reads, Operand.place]

end

theorem branchBody_access (cond t f target : VirtualRegister) (trueBlock falseBlock : BitVec 64) :
    (branchBody cond t f target trueBlock falseBlock).filterMap Arm64.Instruction.stateAccess =
      [] := by
  have ht := selectConstIntoRegister_loads (.virtual t) rfl .i64 trueBlock
  have hf := selectConstIntoRegister_loads (.virtual f) rfl .i64 falseBlock
  simp only [List.filterMap_eq_nil_iff, branchBody, List.forall_mem_cons, List.forall_mem_append]
  exact ⟨rfl, ht.access, hf.access, rfl, by simp⟩

theorem selectTerminator_ends {terminator : Terminator} (h : Covers σ Γ)
    (htyped : terminator.Typed Γ) (hok : σ.selectTerminator terminator = .ok (code, σ')) :
    ∃ body ending, code = body ++ ending ++ selectRet ∧ Body σ.scope body ∧
      body.filterMap Arm64.Instruction.stateAccess = [] ∧
      Ending (σ.scope ∪ targets body) ending := by
  have hnil : Body σ.scope [] := (Selects.nil σ).body
  have hconst (value : BitVec 64) :=
    selectConstIntoRegister_loads (p := .physical (.x 0)) (.general 0) rfl .i64 value
  cases htyped with
  | branch target =>
    cases hok
    exact ⟨[], _, rfl, hnil, rfl, (hconst target).ending⟩
  | condBranch trueBlock falseBlock hc =>
    obtain ⟨-, c, hc⟩ := h.typed hc
    rw [selectTerminator, selectCondBranch_eq hc, branchCode_eq] at hok
    cases hok
    exact ⟨_, _, rfl, branchBody_body (mem_scope hc) _ _, branchBody_access _ _ _ _ _ _,
      ending_mov (by rw [targets_branchBody]; simp)⟩
  | ret =>
    cases hok
    exact ⟨[], _, rfl, hnil, rfl, (hconst 0#64).ending⟩
  | retValue hv =>
    obtain ⟨-, v, hv⟩ := h.typed hv
    simp only [selectTerminator, getVirtualRegisterOrThrow_eq hv, bind, Except.bind, pure,
      Except.pure] at hok
    cases hok
    exact ⟨[], _, rfl, hnil, rfl, ending_mov (.inl (mem_scope hv))⟩

theorem scope_init : init.scope = {.physical (.x 0)} := by
  ext p
  simp [scope, init]

theorem selectInstructions_shape {block : BasicBlock} (hblock : block.WellTyped)
    (hok : init.selectInstructions block = .ok (code, σ)) :
    ∃ body ending, code = body ++ ending ++ selectRet ∧ Body {.physical (.x 0)} body ∧
      body.filterMap Arm64.Instruction.stateAccess =
        (block.instructions.flatMap fun inst => inst.kind.stateAccesses) ∧
      Ending ({.physical (.x 0)} ∪ targets body) ending := by
  obtain ⟨Γ, hinsts, hterm⟩ := hblock
  obtain ⟨code₁, σ₁, code₂, hok₁, hok₂, rfl⟩ := selectInstructions_eq_ok.mp hok
  obtain ⟨hselects, hcovers⟩ := selectAll_selects .init hinsts hok₁
  obtain ⟨body, ending, rfl, hbody, haccesses, hending⟩ := selectTerminator_ends hcovers hterm hok₂
  have hscope : σ₁.scope ⊆ {.physical (.x 0)} ∪ targets code₁ := by
    rw [← scope_init]
    exact hselects.scope
  refine ⟨code₁ ++ body, ending, by simp, ?_, ?_, ?_⟩
  · rw [← scope_init]
    exact hselects.body.append ⟨hbody.emitted, hbody.fresh, hbody.closed.mono hselects.scope⟩
  · rw [List.filterMap_append, hselects.accesses, haccesses, List.append_nil]
  · refine { hending with closed := hending.closed.mono ?_ }
    rw [targets_append, ← Set.union_assoc]
    exact Set.union_subset_union_left _ hscope

end InstructionSelector

end DinoRisc
