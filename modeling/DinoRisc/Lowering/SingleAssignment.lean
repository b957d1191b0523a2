import DinoRisc.Lowering.AllocationSound

/-! Straight-line code that assigns every virtual register once, and its code after the allocation. -/

namespace DinoRisc

open Arm64 InstructionSelector LivenessAnalysis RegisterAllocator

variable {code body final before after : List Instruction} {inst : Instruction} {ending : Code}
  {vreg d v : VirtualRegister} {r : Register} {s : RegisterAllocator} {i j : ℕ}

namespace Arm64

/-- The forms of the selected instructions. -/
inductive Instruction.Selectable : Instruction → Prop
  | compute {opcode size dest src1 src2}
    (hop : opcode ∈ [.add, .sub, .mul, .udiv, .sdiv, .and, .orr, .eor, .lsl, .lsr, .asr])
    (hdest : dest.place ≠ none) : Selectable (.threeOperand opcode size dest src1 src2)
  | convert {opcode size dest src} (hop : opcode ∈ [.mov, .movn, .sxtb, .sxth, .sxtw, .uxtb, .uxth])
    (hdest : dest.place ≠ none) : Selectable (.twoOperand opcode size dest src)
  | compare {size src1 src2} : Selectable (.twoOperand .cmp size src1 src2)
  | load {size reg baseReg offset} (hreg : reg.place ≠ none) :
    Selectable (.memory .ldr size reg baseReg offset)
  | store {size reg baseReg offset} : Selectable (.memory .str size reg baseReg offset)
  | movz {size dest imm16 shift} (hdest : dest.place ≠ none) :
    Selectable (.moveWide .movz size dest imm16 shift)
  | movk {size reg imm16 shift} : Selectable (.moveWide .movk size (.register reg) imm16 shift)
  | set {size dest condition} (hdest : dest.place ≠ none) :
    Selectable (.conditional .cset size dest condition)
  | select {size dest src1 src2 condition} (hdest : dest.place ≠ none) :
    Selectable (.conditionalSelect .csel size dest src1 src2 condition)

/-- The machine at the end of the code, or at its first `RET`. -/
def finish : List Instruction → Machine → Option Machine
  | [], m => some m
  | inst :: rest, m =>
    match exec inst m with
    | some (.next m') => finish rest m'
    | some (.jump m' _) => some m'
    | none => none

theorem Reaches.finish {m m' : Machine} (h : Reaches code m m') (rest : List Instruction) :
    Arm64.finish (code ++ rest) m = Arm64.finish rest m' := by
  induction h with
  | nil m => rfl
  | cons hstep _ ih => rw [List.cons_append, Arm64.finish, hstep, ← ih]

namespace Instruction.Selectable

theorem exec_next (h : inst.Selectable) (m : Machine) : ∃ m', exec inst m = some (.next m') := by
  have hwrite {dest : Operand} (hdest : dest.place ≠ none) (value : BitVec 64) :
      ∃ m', m.write dest value = some m' := by
    obtain ⟨p, hp⟩ := Option.ne_none_iff_exists'.mp hdest
    exact ⟨_, m.write_eq p value hp⟩
  cases h with
  | @compute opcode size dest src1 src2 hop hdest =>
    simp only [List.mem_cons, List.not_mem_nil, or_false] at hop
    rcases hop with rfl | rfl | rfl | rfl | rfl | rfl | rfl | rfl | rfl | rfl | rfl <;>
      simp [exec, Opcode.compute, hwrite hdest]
  | @convert opcode size dest src hop hdest =>
    simp only [List.mem_cons, List.not_mem_nil, or_false] at hop
    rcases hop with rfl | rfl | rfl | rfl | rfl | rfl | rfl <;>
      simp [exec, Opcode.convert, hwrite hdest]
  | compare | store => exact ⟨_, rfl⟩
  | load hdest | movz hdest | set hdest | select hdest => simp [exec, hwrite hdest]
  | movk => exact ⟨_, rfl⟩

theorem operand (h : inst.Selectable) (hmem : .virtual vreg ∈ inst.operands) :
    .virtual vreg ∈ inst.sources ∨ inst.target = some (.virtual vreg) := by
  have hsource (hread : .virtual vreg ∈ inst.reads) : .virtual vreg ∈ inst.sources :=
    List.mem_filterMap.mpr ⟨_, hread, rfl⟩
  cases h with
  | @compute opcode size dest src1 src2 hop hdest =>
    simp only [operands, List.mem_cons, List.not_mem_nil, or_false] at hmem hop
    rcases hmem with rfl | hmem
    · right
      rcases hop with rfl | rfl | rfl | rfl | rfl | rfl | rfl | rfl | rfl | rfl | rfl <;> rfl
    · exact .inl (hsource (by simpa [reads] using hmem))
  | @convert opcode size dest src hop hdest =>
    simp only [operands, List.mem_cons, List.not_mem_nil, or_false] at hmem hop
    rcases hmem with rfl | rfl
    · right
      rcases hop with rfl | rfl | rfl | rfl | rfl | rfl | rfl <;> rfl
    · left
      rcases hop with rfl | rfl | rfl | rfl | rfl | rfl | rfl <;> exact hsource (by simp [reads])
  | compare | store => exact .inl (hsource (by simpa [operands, reads] using hmem))
  | load hreg =>
    simp only [operands, List.mem_cons, List.not_mem_nil, or_false] at hmem
    rcases hmem with rfl | rfl
    · exact .inr rfl
    · exact .inl (hsource (by simp [reads]))
  | movz hdest | set hdest =>
    simp only [operands, List.mem_cons, List.not_mem_nil, or_false] at hmem
    subst hmem
    exact .inr rfl
  | movk => simp [operands] at hmem
  | select hdest =>
    simp only [operands, List.mem_cons, List.not_mem_nil, or_false] at hmem
    rcases hmem with rfl | hmem
    · exact .inr rfl
    · exact .inl (hsource (by simpa [reads] using hmem))

end Instruction.Selectable

end Arm64

/-- The registers that the allocator keeps out of its pool. -/
def reserved : List Register := [.x 0, .x 29, .x 30, .xsp]

/-- Every virtual register is written once, and read behind that instruction. -/
structure SingleAssignment (code : List Instruction) : Prop where
  straight : ∃ body ending, code = body ++ ending ∧ (∀ inst ∈ body, inst.Selectable) ∧
    (ending = [] ∨ ending = selectRet)
  physical : ∀ inst ∈ code, ∀ r, .register r ∈ inst.operands → r ∈ reserved
  once : ∀ i j vreg, Writes code i vreg → Writes code j vreg → i = j
  later : ∀ j vreg, Reads code j vreg → ∃ i < j, Writes code i vreg

namespace SingleAssignment

theorem selectable (h : SingleAssignment code) (hinst : inst ∈ code) :
    inst.Selectable ∨ inst = .twoOperand .ret .x X30 X30 := by
  obtain ⟨body, ending, rfl, hbody, hending⟩ := h.straight
  rcases List.mem_append.mp hinst with hinst | hinst
  · exact .inl (hbody inst hinst)
  · rcases hending with rfl | rfl
    · cases hinst
    · exact .inr (List.mem_singleton.mp hinst)

theorem writes (h : SingleAssignment code) (hi : code[i]? = some inst)
    (htarget : inst.target = some (.virtual vreg)) : Writes code i vreg := by
  rcases h.selectable (List.mem_of_getElem? hi) with hinst | rfl
  · obtain ⟨m', hstep⟩ :=
      hinst.exec_next ⟨fun _ => 0#64, ⟨false, false, false, false⟩, fun _ => 0#8⟩
    exact writes_of_exec hi hstep htarget
  · cases htarget

theorem writes_of_defines (h : SingleAssignment code) (hi : Defines code i vreg) :
    Writes code i vreg := by
  obtain ⟨inst, hinst, hdef⟩ := hi
  have hform := h.selectable (List.mem_of_getElem? hinst)
  rcases target_of_defined hdef with htarget | ⟨size, src1, src2, rfl⟩ | ⟨size, src, rfl⟩
  · exact h.writes hinst htarget
  · rcases hform with hform | hform
    · cases hform with
      | compute hop => simp at hop
    · cases hform
  · rcases hform with hform | hform
    · cases hform with
      | convert hop => simp at hop
    · cases hform

theorem exists_writes (h : SingleAssignment code) (hinst : inst ∈ code)
    (hmem : .virtual vreg ∈ inst.operands) : ∃ i, Writes code i vreg := by
  obtain ⟨j, hj⟩ := List.mem_iff_getElem?.mp hinst
  rcases h.selectable hinst with hform | rfl
  · rcases hform.operand hmem with hsource | htarget
    · obtain ⟨i, -, hi⟩ := h.later j vreg ⟨inst, hj, hsource⟩
      exact ⟨i, hi⟩
    · exact ⟨j, h.writes hj htarget⟩
  · simp [Instruction.operands, X30] at hmem

theorem exists_interval (h : SingleAssignment code) (hi : Writes code i vreg) :
    ∃ interval ∈ computeLiveIntervals code, interval.virtualRegister = vreg ∧
      interval.start = i ∧ ∀ j, Reads code j vreg → j ≤ interval.stop := by
  obtain ⟨interval, hmem, hvreg, -, hstart, hstop⟩ := interval_of_defines hi.defines
  refine ⟨interval, hmem, hvreg, h.once _ _ _ (h.writes_of_defines hstart) hi, ?_⟩
  intro j hj
  rcases hj.uses_or_defines with huses | hdef
  · exact hstop j huses
  · obtain ⟨k, hk, hwrites⟩ := h.later j vreg hj
    exact absurd (h.once _ _ _ hwrites (h.writes_of_defines hdef)) hk.ne

theorem reserved_of_source (h : SingleAssignment code) (hinst : inst ∈ code)
    (hsource : .physical r ∈ inst.sources) : r ∈ reserved :=
  h.physical inst hinst r (Instruction.mem_operands_of_source hsource)

theorem reserved_of_target (h : SingleAssignment code) (hinst : inst ∈ code)
    (htarget : inst.target = some (.physical r)) : r ∈ reserved :=
  h.physical inst hinst r (Instruction.mem_operands_of_target htarget)

end SingleAssignment

theorem registerOf_not_reserved {intervals : List LiveInterval} (halloc : Allocates s intervals)
    (vreg : VirtualRegister) : s.registerOf vreg ∉ reserved := by
  have hpool : ∀ r ∈ availableRegisters, r ∉ reserved := by decide
  exact hpool _ (halloc.registerOf vreg)

/-- The places that the code shares with what is around it. -/
def shared : Set Place := {p | ∃ r ∈ reserved, p = .physical r}

theorem getElem?_mid : (before ++ inst :: after)[before.length]? = some inst := by
  rw [List.getElem?_append_right le_rfl, Nat.sub_self]
  rfl

namespace SingleAssignment

theorem writes_before {mid rest : List Instruction} {user : Instruction}
    (h : SingleAssignment (before ++ inst :: mid ++ user :: rest))
    (htarget : inst.target ≠ some (.virtual vreg)) (hmid : .virtual vreg ∉ targets mid)
    (hsource : .virtual vreg ∈ user.sources) :
    ∃ i < before.length, Writes (before ++ inst :: mid ++ user :: rest) i vreg := by
  obtain ⟨i, hi, hwrites⟩ := h.later _ vreg ⟨user, getElem?_mid, hsource⟩
  refine ⟨i, ?_, hwrites⟩
  obtain ⟨first, hfirst, hv, -⟩ := hwrites
  rw [List.getElem?_append_left hi] at hfirst
  by_contra hle
  rw [List.getElem?_append_right (Nat.not_lt.mp hle)] at hfirst
  cases hk : i - before.length with
  | zero =>
    rw [hk] at hfirst
    cases hfirst
    exact htarget hv
  | succ k =>
    rw [hk] at hfirst
    exact hmid ⟨first, List.mem_of_getElem? hfirst, hv⟩

theorem compatible (h : SingleAssignment (body ++ ending))
    (halloc : Allocates s (computeLiveIntervals (body ++ ending))) :
    Compatible s.registerOf shared body := by
  rintro before inst after p rfl htarget q hq heq
  have hkept : ∀ r, .physical r ∈ live shared after → r ∈ reserved := by
    intro r hr
    rcases mem_live hr with ⟨mid, user, rest, rfl, hsource, -⟩ | ⟨⟨r, hr, hplace⟩, -⟩
    · exact h.reserved_of_source (by simp) hsource
    · cases hplace
      exact hr
  cases p with
  | physical r =>
    have hr := h.reserved_of_target (by simp) htarget
    cases q with
    | physical r' => exact heq
    | virtual v =>
      rw [← Place.physical.inj heq] at hr
      exact absurd hr (registerOf_not_reserved halloc v)
  | virtual d =>
    cases q with
    | physical r =>
      have hr := hkept r hq
      rw [Place.physical.inj heq] at hr
      exact absurd hr (registerOf_not_reserved halloc d)
    | virtual v =>
      by_contra hne
      have hvd : v ≠ d := fun heq => hne (congrArg _ heq)
      rcases mem_live hq with ⟨mid, user, rest, rfl, hsource, hnot⟩ | ⟨⟨_, -, hplace⟩, -⟩
      · have hcode : before ++ inst :: (mid ++ user :: rest) ++ ending =
            before ++ inst :: mid ++ user :: (rest ++ ending) := by simp
        rw [hcode] at h halloc
        have htarget' : inst.target ≠ some (.virtual v) := by
          rw [htarget]
          exact fun heq => hvd (Place.virtual.inj (Option.some.inj heq)).symm
        obtain ⟨i, hi, hwrites⟩ := h.writes_before htarget' hnot hsource
        have hinst : (before ++ inst :: mid ++ user :: (rest ++ ending))[before.length]? =
            some inst := by
          rw [List.append_assoc]
          exact getElem?_mid
        obtain ⟨a, ha, rfl, hastart, hastop⟩ := h.exists_interval hwrites
        obtain ⟨b, hb, rfl, hbstart, -⟩ := h.exists_interval (h.writes hinst htarget)
        have hread := hastop _ ⟨user, getElem?_mid, hsource⟩
        have hle : before.length ≤ (before ++ inst :: mid).length := by simp
        exact registerOf_ne halloc ha hb (by omega) (by omega) (Place.physical.inj heq)
      · cases hplace

theorem live_subset_shared (h : SingleAssignment (body ++ ending)) :
    live shared body ⊆ shared := by
  intro p hp
  rcases mem_live hp with ⟨before, user, after, rfl, hsource, hnot⟩ | ⟨hp, -⟩
  · cases p with
    | physical r => exact ⟨r, h.reserved_of_source (by simp) hsource, rfl⟩
    | virtual vreg =>
      rw [List.append_assoc, List.cons_append] at h
      obtain ⟨i, hi, first, hfirst, hv, -⟩ := h.later _ vreg ⟨user, getElem?_mid, hsource⟩
      rw [List.getElem?_append_left hi] at hfirst
      exact absurd ⟨first, List.mem_of_getElem? hfirst, hv⟩ hnot
  · exact hp

theorem reaches (h : ∀ inst ∈ body, inst.Selectable) (m : Machine) : ∃ n, Reaches body m n := by
  induction body generalizing m with
  | nil => exact ⟨m, .nil m⟩
  | cons inst rest ih =>
    obtain ⟨hinst, hrest⟩ := List.forall_mem_cons.mp h
    obtain ⟨m', hstep⟩ := hinst.exec_next m
    obtain ⟨n, hreach⟩ := ih hrest m'
    exact ⟨n, .cons hstep hreach⟩

theorem finish_ending (hending : ending = [] ∨ ending = selectRet) (m : Machine)
    (ρ : VirtualRegister → Register) :
    finish ending m = some m ∧ finish (ending.map (Instruction.rename ρ)) m = some m := by
  rcases hending with rfl | rfl
  · exact ⟨rfl, rfl⟩
  · rw [rename_ret]
    exact ⟨rfl, rfl⟩

theorem finish_rename (h : SingleAssignment code)
    (halloc : Allocates s (computeLiveIntervals code)) (m : Machine) :
    ∃ n n', finish code m = some n ∧
      finish (code.map (Instruction.rename s.registerOf)) m = some n' ∧
      n'.mem = n.mem ∧ n'.flags = n.flags ∧ ∀ p ∈ shared, n'.reg p = n.reg p := by
  obtain ⟨body, ending, rfl, hbody, hending⟩ := h.straight
  obtain ⟨n, hreach⟩ := reaches hbody m
  have hkeep : ∀ p ∈ shared, p.rename s.registerOf = p := by
    rintro _ ⟨r, -, rfl⟩
    rfl
  have hagree : Agree s.registerOf (live shared body) m m := by
    refine ⟨fun p hp => ?_, rfl, rfl⟩
    rw [hkeep p (h.live_subset_shared hp)]
  obtain ⟨n', hreach', hout, -⟩ := reaches_agree hreach (h.compatible halloc) hagree
  refine ⟨n, n', ?_, ?_, hout.mem, hout.flags, ?_⟩
  · rw [hreach.finish, (finish_ending hending n s.registerOf).1]
  · rw [List.map_append, hreach'.finish, (finish_ending hending n' s.registerOf).2]
  · intro p hp
    have hp' := hout.reg p hp
    rwa [hkeep p hp] at hp'

end SingleAssignment

def WritesPhysical (code : List Instruction) (i : ℕ) (r : Register) : Prop :=
  ∃ inst, code[i]? = some inst ∧ inst.target = some (.physical r)

theorem writesPhysical_rename {ρ : VirtualRegister → Register} (hρ : ∀ vreg, ρ vreg ≠ r) :
    WritesPhysical (code.map (Instruction.rename ρ)) i r ↔ WritesPhysical code i r := by
  rw [WritesPhysical, WritesPhysical, List.getElem?_map]
  cases code[i]? with
  | none => simp
  | some inst =>
    simp only [Option.map_some, Option.some.injEq, exists_eq_left', Instruction.target_rename]
    cases inst.target with
    | none => simp
    | some p =>
      cases p with
      | physical q => rfl
      | virtual vreg => simp [Place.rename, hρ vreg]

/-- Linear scan keeps the meaning of code that assigns every virtual register once. -/
theorem allocateRegisters_single (h : SingleAssignment code)
    (hok : allocateRegisters code (computeLiveIntervals code) = .ok (true, final)) :
    (∃ ρ, final = code.map (Instruction.rename ρ)) ∧
      (∀ inst ∈ final, inst.hasVirtual = false) ∧
      (∀ r ∈ reserved, ∀ i, WritesPhysical final i r ↔ WritesPhysical code i r) ∧
      ∀ m, ∃ n n', finish code m = some n ∧ finish final m = some n' ∧ n'.mem = n.mem ∧
        n'.flags = n.flags ∧ n'.reg (.physical (.x 0)) = n.reg (.physical (.x 0)) := by
  rcases allocateIntervals_ordered (computeLiveIntervals_ordered code) with
    ⟨s, hscan, halloc, -⟩ | ⟨hnone, -⟩
  · have hcode := allocateRegisters_eq hscan fun inst hinst vreg hmem => by
      obtain ⟨i, hi⟩ := h.exists_writes hinst hmem
      obtain ⟨interval, hinterval, hvreg, -⟩ := h.exists_interval hi
      exact hvreg ▸ halloc.assigned interval hinterval
    rw [hcode] at hok
    cases hok
    refine ⟨⟨_, rfl⟩, ?_, ?_, ?_⟩
    · intro inst hinst
      obtain ⟨inst, -, rfl⟩ := List.mem_map.mp hinst
      exact Instruction.rename_hasVirtual _ inst
    · intro r hr i
      apply writesPhysical_rename
      rintro vreg rfl
      exact registerOf_not_reserved halloc vreg hr
    · intro m
      obtain ⟨n, n', hn, hn', hmem, hflags, hshared⟩ := h.finish_rename halloc m
      exact ⟨n, n', hn, hn', hmem, hflags, hshared _ ⟨.x 0, by decide, rfl⟩⟩
  · rw [allocateRegisters, hnone] at hok
    cases hok

def loadThenStore (reg : Operand) : List Instruction :=
  [.memory .ldr .x reg X0 8#32, .memory .str .x reg X0 16#32, .twoOperand .ret .x X30 X30]

theorem loadThenStore_single : SingleAssignment (loadThenStore (.virtual 0)) where
  straight := by
    refine ⟨[_, _], selectRet, rfl, ?_, .inr rfl⟩
    simp only [List.forall_mem_cons]
    exact ⟨.load (by simp [Operand.place]), .store, by simp⟩
  physical := by
    simp only [loadThenStore, List.forall_mem_cons]
    simp [Instruction.operands, X0, X30, reserved]
  once i j vreg hi hj := by
    have hfirst {k : ℕ} (hk : Writes (loadThenStore (.virtual 0)) k vreg) : k = 0 := by
      obtain ⟨inst, hinst, htarget, -⟩ := hk
      rcases k with _ | _ | _ | k
      · rfl
      · cases hinst
        cases htarget
      · cases hinst
        cases htarget
      · cases hinst
    rw [hfirst hi, hfirst hj]
  later j vreg hj := by
    obtain ⟨inst, hinst, hsource⟩ := hj
    have hwrites : Writes (loadThenStore (.virtual 0)) 0 0 :=
      ⟨_, rfl, rfl, fun _ => 0#64, ⟨false, false, false, false⟩, fun _ => 0#8, _, rfl⟩
    rcases j with _ | _ | _ | j
    · cases hinst
      simp [Instruction.sources, Instruction.reads, Operand.place, X0] at hsource
    · cases hinst
      have hvreg : vreg = 0 := by
        simpa [Instruction.sources, Instruction.reads, Operand.place, X0] using hsource
      exact ⟨0, by omega, hvreg ▸ hwrites⟩
    · cases hinst
      simp [Instruction.sources, Instruction.reads, Operand.place, X30] at hsource
    · cases hinst

theorem allocateRegisters_single_load :
    (∃ ρ, loadThenStore (.register (.x 1)) =
        (loadThenStore (.virtual 0)).map (Instruction.rename ρ)) ∧
      (∀ inst ∈ loadThenStore (.register (.x 1)), inst.hasVirtual = false) ∧
      (∀ r ∈ reserved, ∀ i, WritesPhysical (loadThenStore (.register (.x 1))) i r ↔
        WritesPhysical (loadThenStore (.virtual 0)) i r) ∧
      ∀ m, ∃ n n', finish (loadThenStore (.virtual 0)) m = some n ∧
        finish (loadThenStore (.register (.x 1))) m = some n' ∧ n'.mem = n.mem ∧
        n'.flags = n.flags ∧ n'.reg (.physical (.x 0)) = n.reg (.physical (.x 0)) :=
  allocateRegisters_single loadThenStore_single rfl

end DinoRisc
