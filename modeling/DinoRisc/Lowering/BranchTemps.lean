import DinoRisc.Lowering.Inversion

/-! The three registers of a conditional branch, beside those of the values and of the addresses. -/

namespace DinoRisc.InstructionSelector

open Arm64 IR

variable {σ σ' σ₁ : InstructionSelector} {inst : IR.Instruction} {code body : Code}
  {id : ValueId} {ids : List ValueId} {ty : Ty} {d v : VirtualRegister}
  {temps : List VirtualRegister}

def valueIds (instructions : List IR.Instruction) : List ValueId :=
  instructions.filterMap fun inst => inst.kind.type.map fun _ => inst.valueId

/-- The three registers that an access to the guest memory takes for its address. -/
def addressTemps (kind : InstructionKind) (after : InstructionSelector) : List VirtualRegister :=
  match kind with
  | .load _ _ | .store _ _ =>
    [after.nextVirtualReg - 3, after.nextVirtualReg - 2, after.nextVirtualReg - 1]
  | _ => []

def allAddressTemps : List IR.Instruction → InstructionSelector → List VirtualRegister
  | [], _ => []
  | inst :: rest, s =>
    match s.selectInstruction inst with
    | .ok (_, s') => addressTemps inst.kind s' ++ allAddressTemps rest s'
    | .error _ => []

structure Allocated (σ : InstructionSelector) (ids : List ValueId)
    (temps : List VirtualRegister) : Prop extends Separate σ where
  mem_ids : ∀ id, (∃ v, σ.irToVReg id = some v) ↔ id ∈ ids
  nodup : temps.Nodup
  temps_lt : ∀ v ∈ temps, v < σ.nextVirtualReg
  disjoint : ∀ id v, σ.irToVReg id = some v → v ∉ temps
  next : σ.nextVirtualReg = ids.dedup.length + temps.length

namespace Allocated

theorem init : Allocated init [] [] where
  injective h := by cases h
  bound h := by cases h
  mem_ids id := by simp [InstructionSelector.init]
  nodup := List.nodup_nil
  temps_lt v hv := by cases hv
  disjoint id v h := by cases h
  next := rfl

theorem enter (h : Allocated σ ids temps) (henter : σ.enter id ty = (d, σ₁)) :
    Allocated σ₁ (ids ++ [id]) temps := by
  have hrecord : Separate (σ.recordValueType id ty) := ⟨h.injective, h.bound⟩
  have hassign := hrecord.assign id
  rw [InstructionSelector.enter] at henter
  rw [henter] at hassign
  rw [assignVirtualRegister] at henter
  have hmap : (σ.recordValueType id ty).irToVReg = σ.irToVReg := rfl
  have hdedup : (ids ++ [id]).dedup.length = (id :: ids).dedup.length :=
    (List.perm_append_comm.dedup).length_eq
  rw [hmap] at henter
  cases hid : σ.irToVReg id with
  | some vreg =>
    -- the id has been there before
    rw [hid] at henter
    cases henter
    have hmem : id ∈ ids := (h.mem_ids id).mp ⟨_, hid⟩
    refine ⟨hassign.1, fun k => ?_, h.nodup, h.temps_lt, h.disjoint, ?_⟩
    · rw [hmap, h.mem_ids, List.mem_append, List.mem_singleton]
      exact ⟨.inl, fun hk => hk.elim (fun hk => hk) fun hk => hk ▸ hmem⟩
    · rw [hdedup, List.dedup_cons_of_mem hmem]
      exact h.next
  | none =>
    rw [hid] at henter
    cases henter
    have hmem : id ∉ ids := by
      rw [← h.mem_ids, hid]
      simp
    refine ⟨hassign.1, fun k => ?_, h.nodup, fun v hv => ?_, fun k v hk => ?_, ?_⟩
    · rw [List.mem_append, List.mem_singleton, ← h.mem_ids]
      by_cases hk : k = id
      · simp [hk]
      · simp [hk, hmap]
    · exact Nat.lt_succ_of_lt (h.temps_lt v hv)
    · by_cases hki : k = id
      · simp only [hki, Function.update_self, Option.some.injEq] at hk
        intro hv
        exact absurd (h.temps_lt v hv) (hk ▸ Nat.lt_irrefl _)
      · simp only [Function.update_of_ne hki] at hk
        exact h.disjoint k v hk
    · rw [hdedup, List.dedup_cons_of_notMem hmem, List.length_cons, Nat.add_right_comm, ← h.next]
      rfl

theorem mem_three {n v : ℕ} : v ∈ [n, n + 1, n + 2] ↔ n ≤ v ∧ v < n + 3 := by
  simp only [List.mem_cons, List.not_mem_nil, or_false]
  omega

theorem skip (h : Allocated σ ids temps) : Allocated (σ.skip 3) ids
    (temps ++ [σ.nextVirtualReg, σ.nextVirtualReg + 1, σ.nextVirtualReg + 2]) where
  toSeparate := h.toSeparate.skip 3
  mem_ids := h.mem_ids
  nodup := by
    apply List.nodup_append.mpr
    refine ⟨h.nodup, by simp, ?_⟩
    rintro v hv w hw rfl
    exact absurd (h.temps_lt v hv) (Nat.not_lt.mpr (mem_three.mp hw).1)
  temps_lt v hv := by
    rcases List.mem_append.mp hv with hv | hv
    · exact Nat.lt_of_lt_of_le (h.temps_lt v hv) (Nat.le_add_right _ 3)
    · exact (mem_three.mp hv).2
  disjoint id v hv hmem := by
    rcases List.mem_append.mp hmem with hmem | hmem
    · exact h.disjoint id v hv hmem
    · exact absurd (h.bound hv) (Nat.not_lt.mpr (mem_three.mp hmem).1)
  next := by
    rw [List.length_append, ← Nat.add_assoc, ← h.next]
    rfl

theorem step (h : Allocated σ ids temps) (hlow : Lowered σ inst code σ') :
    Allocated σ' (ids ++ valueIds [inst]) (temps ++ addressTemps inst.kind σ') := by
  cases hlow with
  | const henter | comparison henter | arithmetic henter | sext henter | zext henter
  | trunc henter | regRead henter =>
    change Allocated _ _ (temps ++ [])
    rw [List.append_nil]
    exact h.enter henter
  | load henter => exact (h.enter henter).skip
  | store =>
    change Allocated _ (ids ++ []) _
    rw [List.append_nil]
    exact h.skip
  | regWrite =>
    change Allocated _ (ids ++ []) (temps ++ [])
    rw [List.append_nil, List.append_nil]
    exact h

theorem all {instructions : List IR.Instruction} (h : Allocated σ ids temps)
    (hok : σ.selectAll instructions = .ok (code, σ')) :
    Allocated σ' (ids ++ valueIds instructions) (temps ++ allAddressTemps instructions σ) := by
  induction instructions generalizing σ ids temps code with
  | nil =>
    cases hok
    simpa [valueIds, allAddressTemps] using h
  | cons inst rest ih =>
    obtain ⟨code₁, σ₁, code₂, hok₁, hok₂, rfl⟩ := selectAll_cons hok
    have hrest := ih (h.step (selectInstruction_lowered hok₁)) hok₂
    have hids : valueIds [inst] ++ valueIds rest = valueIds (inst :: rest) :=
      (List.filterMap_append ..).symm
    rw [List.append_assoc, List.append_assoc, hids] at hrest
    rwa [allAddressTemps, hok₁]

end Allocated

def isAccess (inst : IR.Instruction) : Bool :=
  match inst.kind with
  | .load _ _ | .store _ _ => true
  | _ => false

theorem length_allAddressTemps {instructions : List IR.Instruction}
    (hok : σ.selectAll instructions = .ok (code, σ')) :
    (allAddressTemps instructions σ).length = 3 * instructions.countP isAccess := by
  induction instructions generalizing σ code with
  | nil => rfl
  | cons inst rest ih =>
    obtain ⟨code₁, σ₁, code₂, hok₁, hok₂, rfl⟩ := selectAll_cons hok
    rw [allAddressTemps, hok₁, List.length_append, ih hok₂, List.countP_cons]
    have hone : (addressTemps inst.kind σ₁).length = 3 * if isAccess inst = true then 1 else 0 := by
      obtain ⟨id, kind⟩ := inst
      cases kind <;> rfl
    rw [hone]
    omega

/-- What a virtual register is there for. -/
inductive Carrier
  | value (id : ValueId)
  | address (n : ℕ)
  | taken
  | fallThrough
  | target

namespace Carrier

def register (irToVReg : ValueId → Option VirtualRegister) (temps : List VirtualRegister)
    (t f x : VirtualRegister) : Carrier → Option VirtualRegister
  | value id => irToVReg id
  | address n => temps[n]?
  | taken => some t
  | fallThrough => some f
  | target => some x

theorem register_injective {irToVReg : ℕ → Option ℕ} {temps : List ℕ} {n : ℕ}
    (hinjective : ∀ id id' v, irToVReg id = some v → irToVReg id' = some v → id = id')
    (hbound : ∀ id v, irToVReg id = some v → v < n) (hnodup : temps.Nodup)
    (htemps : ∀ v ∈ temps, v < n) (hdisjoint : ∀ id v, irToVReg id = some v → v ∉ temps)
    {a b : Carrier} {v : ℕ} (ha : a.register irToVReg temps (n + 1) (n + 3) (n + 4) = some v)
    (hb : b.register irToVReg temps (n + 1) (n + 3) (n + 4) = some v) : a = b := by
  have hmem {k : ℕ} (hk : temps[k]? = some v) : v ∈ temps := List.mem_of_getElem? hk
  -- the values and the address temporaries are below `n`
  have hbelow {c : Carrier} (hc : c.register irToVReg temps (n + 1) (n + 3) (n + 4) = some v) :
      v < n ↔ (∃ id, c = value id) ∨ ∃ k, c = address k := by
    cases c with
    | value id => simp [hbound id v hc]
    | address k => simp [htemps v (hmem hc)]
    | taken | fallThrough | target =>
      cases hc
      simp
  by_cases hlt : v < n
  · rcases (hbelow ha).mp hlt with ⟨id, rfl⟩ | ⟨k, rfl⟩ <;>
      rcases (hbelow hb).mp hlt with ⟨id', rfl⟩ | ⟨k', rfl⟩
    · rw [hinjective id id' v ha hb]
    · exact absurd (hmem hb) (hdisjoint id v ha)
    · exact absurd (hmem ha) (hdisjoint id' v hb)
    · have hk := (List.getElem?_eq_some_iff.mp ha).1
      rw [(List.getElem?_inj hk hnodup).mp (ha.trans hb.symm)]
  · have hnota := mt (hbelow ha).mpr hlt
    have hnotb := mt (hbelow hb).mpr hlt
    clear hbelow
    cases a <;> cases b <;> simp_all [register] <;> grind

end Carrier

/-- The first id that `selectCondBranch` takes for a constant: the number of the registers that the
block has taken. -/
def constantId (instructions : List IR.Instruction) : ℕ :=
  (valueIds instructions).dedup.length + 3 * instructions.countP isAccess

theorem branchTemps_some (h : σ.irToVReg σ.nextVirtualReg = some v) : σ.branchTemps.1 = v := by
  simp [branchTemps, assignVirtualRegister, InstructionSelector.skip, h]

section

variable (h : σ.irToVReg σ.nextVirtualReg = none)

include h

/-- The register of the second constant is looked up after that of the first one. -/
theorem branchTemps_fallThrough : σ.branchTemps.2.1 =
    (σ.irToVReg (σ.nextVirtualReg + 2)).getD (σ.nextVirtualReg + 3) := by
  have hne : σ.nextVirtualReg + 1 + 1 ≠ σ.nextVirtualReg := Nat.ne_of_gt (Nat.lt_add_of_pos_right
    (by decide : 0 < 2))
  simp only [branchTemps, assignVirtualRegister, takeVirtualReg, InstructionSelector.skip, h,
    Function.update_of_ne hne]
  cases σ.irToVReg (σ.nextVirtualReg + 1 + 1) with
  | none => rfl
  | some v => rfl

theorem branchTemps_none (h' : σ.irToVReg (σ.nextVirtualReg + 2) = none) :
    σ.branchTemps.1 = σ.nextVirtualReg + 1 ∧ σ.branchTemps.2.1 = σ.nextVirtualReg + 3 ∧
      σ.branchTemps.2.2.1 = σ.nextVirtualReg + 4 := by
  have hne : σ.nextVirtualReg + 1 + 1 ≠ σ.nextVirtualReg := Nat.ne_of_gt (Nat.lt_add_of_pos_right
    (by decide : 0 < 2))
  replace h' : σ.irToVReg (σ.nextVirtualReg + 1 + 1) = none := h'
  simp [branchTemps, assignVirtualRegister, takeVirtualReg, InstructionSelector.skip, h, h',
    Function.update_of_ne hne]

end

/-- The registers of a conditional branch are its own if and only if the ids of its two constants are
no values of the block. -/
theorem selectCondBranch_fresh_iff {block : BasicBlock} {condition : ValueId}
    {trueBlock falseBlock : BitVec 64}
    (hterm : block.terminator = .condBranch condition trueBlock falseBlock)
    (hok : init.selectInstructions block = .ok (code, σ)) :
    ∃ body σ₁ cond t f x, init.selectAll block.instructions = .ok (body, σ₁) ∧
      code = body ++ branchCode cond t f x trueBlock falseBlock ∧
      ((∀ v a b,
          Carrier.register σ₁.irToVReg (allAddressTemps block.instructions init) t f x a = some v →
          Carrier.register σ₁.irToVReg (allAddressTemps block.instructions init) t f x b = some v →
          a = b) ↔
        constantId block.instructions ∉ valueIds block.instructions ∧
          constantId block.instructions + 2 ∉ valueIds block.instructions) := by
  obtain ⟨body, σ₁, ending, hbody, hending, rfl⟩ := selectInstructions_eq_ok.mp hok
  rw [hterm] at hending
  obtain ⟨cond, hcond, -⟩ := bind_eq_ok.mp hending
  have hbranch := selectCondBranch_eq (getVirtualRegisterOrThrow_ok hcond) trueBlock falseBlock
  cases hending.symm.trans hbranch
  refine ⟨body, σ₁, cond, _, _, _, hbody, rfl, ?_⟩
  have halloc := Allocated.init.all hbody
  rw [List.nil_append, List.nil_append] at halloc
  have hnext : σ₁.nextVirtualReg = constantId block.instructions := by
    rw [halloc.next, length_allAddressTemps hbody]
    rfl
  rw [← hnext, ← halloc.mem_ids, ← halloc.mem_ids]
  constructor
  · intro hunique
    have hfirst : ¬ ∃ v, σ₁.irToVReg σ₁.nextVirtualReg = some v := by
      rintro ⟨v, hv⟩
      cases hunique v (.value _) .taken hv (congrArg some (branchTemps_some hv))
    refine ⟨hfirst, ?_⟩
    rintro ⟨v, hv⟩
    have hnone : σ₁.irToVReg σ₁.nextVirtualReg = none := by
      simpa [Option.eq_none_iff_forall_ne_some] using hfirst
    have hsecond : σ₁.branchTemps.2.1 = v := by
      rw [branchTemps_fallThrough hnone, hv]
      rfl
    cases hunique v (.value _) .fallThrough hv (congrArg some hsecond)
  · rintro ⟨hfirst, hsecond⟩ v a b ha hb
    have hnone {id : ValueId} (h : ¬ ∃ v, σ₁.irToVReg id = some v) : σ₁.irToVReg id = none := by
      simpa [Option.eq_none_iff_forall_ne_some] using h
    obtain ⟨ht, hf, hx⟩ := branchTemps_none (hnone hfirst) (hnone hsecond)
    rw [ht, hf, hx] at ha hb
    exact Carrier.register_injective (fun id id' v => halloc.injective) (fun id v => halloc.bound)
      halloc.nodup halloc.temps_lt halloc.disjoint ha hb

def beqBlock : BasicBlock where
  instructions := [⟨1, .regRead 1⟩, ⟨2, .regRead 2⟩, ⟨3, .binaryOp .eq .i1 1 2⟩]
  terminator := .condBranch 3 0x1008#64 0x1004#64

theorem selectCondBranch_fresh_iff_beq :
    ∃ body σ₁ cond t f x, init.selectAll beqBlock.instructions = .ok (body, σ₁) ∧
      [.memory .ldr .x (.virtual 0) X0 8#32, .memory .ldr .x (.virtual 1) X0 16#32,
        .twoOperand .cmp .x (.virtual 0) (.virtual 1), .conditional .cset .x (.virtual 2) .eq] ++
        branchCode 2 2 5 6 0x1008#64 0x1004#64 = body ++ branchCode cond t f x 0x1008#64 0x1004#64 ∧
      ((∀ v a b,
          Carrier.register σ₁.irToVReg (allAddressTemps beqBlock.instructions init) t f x a = some v →
          Carrier.register σ₁.irToVReg (allAddressTemps beqBlock.instructions init) t f x b = some v →
          a = b) ↔
        constantId beqBlock.instructions ∉ valueIds beqBlock.instructions ∧
          constantId beqBlock.instructions + 2 ∉ valueIds beqBlock.instructions) :=
  selectCondBranch_fresh_iff rfl rfl

/-- The taken target is put into the register of the condition. -/
theorem selectCondBranch_beq :
    ∃ body σ₁ σ, init.selectAll beqBlock.instructions = .ok (body, σ₁) ∧
      init.selectInstructions beqBlock =
        .ok (body ++ branchCode 2 2 5 6 0x1008#64 0x1004#64, σ) ∧
      ¬ ∀ v a b,
        Carrier.register σ₁.irToVReg (allAddressTemps beqBlock.instructions init) 2 5 6 a = some v →
        Carrier.register σ₁.irToVReg (allAddressTemps beqBlock.instructions init) 2 5 6 b = some v →
        a = b := by
  refine ⟨_, _, _, rfl, rfl, fun hunique => ?_⟩
  cases hunique 2 (.value 3) .taken rfl rfl

end DinoRisc.InstructionSelector
