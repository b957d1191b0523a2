import DinoRisc.Lowering.CalleeSaved
import DinoRisc.Lowering.ExactCode
import DinoRisc.Lowering.Transfers

/-! The machine code of a block, on the processor, does what the block does. -/

namespace DinoRisc

open Arm64 Encoder IR ByteMemory InstructionSelector LivenessAnalysis RegisterAllocator

def Arm64.Machine.ofCpu (cpu : A64.Cpu) : Machine where
  reg
    | .physical (.x n) => cpu.x n
    | .physical .xsp => cpu.sp
    | .virtual _ => 0#64
  flags := cpu.flags
  mem := cpu.mem

section

variable {s : RegisterAllocator} {block : BasicBlock} {code body ending : Code}
  {σ : InstructionSelector} {inst : Arm64.Instruction} {encoded : List (List (BitVec 8))}
  {bytes : List (BitVec 8)}

theorem X30_not_mem_targets (hbody : Body {.physical (.x 0)} body)
    (hending : Ending ({.physical (.x 0)} ∪ targets body) ending)
    (halloc : Allocates s (computeLiveIntervals (body ++ ending ++ selectRet))) :
    .physical (.x 30) ∉ targets ((body ++ ending).map (Instruction.rename s.registerOf)) := by
  rw [mem_targets_final hbody hending halloc (by decide)]
  rintro ⟨vreg, hvreg⟩
  obtain ⟨n, hn, -, hle⟩ := mem_availableRegisters (halloc.available hvreg).1
  cases hn
  exact absurd hle (by decide)

theorem renders_ret (hok : encodeInstruction (.twoOperand .ret .x X30 X30) = .ok bytes) :
    Renders bytes (.twoOperand .ret .x X30 X30) :=
  renders_of_encodable ⟨.inr rfl, ⟨30, rfl⟩, .inl ⟨30, rfl⟩⟩ trivial hok

theorem renders_final (hblock : block.WellTyped)
    (hexact : ∀ inst ∈ block.instructions, inst.kind.Exact)
    (hselect : init.selectInstructions block = .ok (code, σ))
    (halloc : Allocates s (computeLiveIntervals code)) :
    ∀ inst ∈ code.map (Instruction.rename s.registerOf), ∀ bytes,
      encodeInstruction inst = .ok bytes → Renders bytes inst := by
  intro renamed hrenamed bytes hok
  obtain ⟨inst, hmem, rfl⟩ := List.mem_map.mp hrenamed
  have hinst := selectInstructions_exact hblock hexact hselect inst hmem
  obtain ⟨body, ending, rfl, hbody, -, hending⟩ := selectInstructions_shape hblock hselect
  rcases List.mem_append.mp hmem with hmem | hmem
  · have hemitted : (inst.rename s.registerOf).Emitted := by
      refine (List.forall_mem_append.mpr ⟨hbody.emitted, hending.emitted⟩ inst hmem).rename ?_
      exact fun vreg _ => halloc.registerOf_general vreg
    exact renders_of_emitted hemitted (inst.rename_hasVirtual _) ((inst.exact_rename _).mpr hinst) hok
  · obtain rfl := List.mem_singleton.mp hmem
    exact renders_ret hok

variable {L : Layout} {g g' : Guest} {pc : BitVec 64} {host : A64.Cpu} {access : A64.Access}
  {mem : Memory 64}

theorem permitted_of_inState (h : L.InState access) (mem : Memory 64) :
    ExecutionEngine.permitted L.state mem access = true := by
  rw [ExecutionEngine.permitted, Bool.or_eq_true]
  exact .inl (decide_eq_true h)

theorem permitted_of_valid (hguest : Represents L mem g)
    (hsize : load mem (L.field SHADOW_MEMORY_SIZE_OFFSET) 8 = BitVec.ofNat 64 L.shadowMemorySize)
    {a : IR.Access} (hvalid : L.valid a.1 a.2 = true)
    (haccess : (access.address, access.size) = L.hostAccess a) :
    ExecutionEngine.permitted L.state mem access = true := by
  have hshadow : load mem (L.state + BitVec.ofNat 64 SHADOW_MEMORY_OFFSET) 8 = L.shadowMemory :=
    hguest.shadowMemory
  have hsize : load mem (L.state + BitVec.ofNat 64 SHADOW_MEMORY_SIZE_OFFSET) 8 = _ := hsize
  obtain ⟨haddress, hbytes⟩ := Prod.mk.inj haccess
  rw [ExecutionEngine.permitted, Bool.or_eq_true, hshadow, hsize, BitVec.toNat_ofNat,
    Nat.mod_eq_of_lt L.shadowMemorySize_lt, haddress, hbytes]
  exact .inr (decide_eq_true (Layout.within_host hvalid))

/-- The machine code does what the block does when the allocation is compatible with it and leaves
the registers of the caller alone. -/
theorem executeBlock_compatible (hblock : block.WellTyped)
    (hexact : ∀ inst ∈ block.instructions, inst.kind.Exact)
    (hselect : init.selectInstructions block = .ok (code, σ))
    (halloc : Allocates s (computeLiveIntervals code))
    (hpressure : ∀ interval ∈ computeLiveIntervals code,
      pressure (computeLiveIntervals code) interval.start < 18)
    (hcompat : ∀ straight, code = straight ++ selectRet →
      Compatible s.registerOf {.physical (.x 0)} straight)
    (hencode : (code.map (Instruction.rename s.registerOf)).mapM encodeInstruction = .ok encoded)
    (heval : evalBlock L.valid block g = some (g', pc)) (hguest : Represents L host.mem g)
    (hsize : IR.accesses block.instructions ⟨fun _ => none, g⟩ ≠ [] →
      load host.mem (L.field SHADOW_MEMORY_SIZE_OFFSET) 8 = BitVec.ofNat 64 L.shadowMemorySize) :
    ∃ cpu, ExecutionEngine.executeBlock encoded.flatten L.state .executable host = .ok (pc, cpu) ∧
      Represents L cpu.mem g' ∧ ∀ x, L.Outside x → cpu.mem x = host.mem x := by
  have hrenders := renders_final hblock hexact hselect halloc
  obtain ⟨m, hm⟩ : ∃ m, Machine.ofCpu { host with x := Function.update host.x 0 L.state } = m :=
    ⟨_, rfl⟩
  have hcpu : m.cpu = { host with x := Function.update host.x 0 L.state } := by
    subst hm
    rfl
  have hstate : m.reg (.physical (.x 0)) = L.state := by
    subst hm
    exact Function.update_self (0 : Fin 31) L.state host.x
  have hreg {n : Fin 31} (hn : n ≠ 0) : m.reg (.physical (.x n)) = host.x n := by
    subst hm
    exact Function.update_of_ne hn L.state host.x
  have hhost : m.mem = host.mem := by
    subst hm
    rfl
  rw [← hhost] at hguest hsize
  have htransfers := selectInstructions_transfers hblock heval hstate hguest hselect
  obtain ⟨_, _, n, hselect', hrun, hguest', hX0, hframe⟩ :=
    selectInstructions_run hblock heval hstate hguest
  cases hselect.symm.trans hselect'
  obtain ⟨body, ending, rfl, hbody, -, hending⟩ := selectInstructions_shape hblock hselect
  obtain ⟨n₁, n', hrun₁, hrun', hX0', hmem, heq⟩ := run_rename hbody hending (hcompat _ rfl) m
  obtain rfl : n = n₁ := (Prod.mk.inj (Option.some.inj (hrun.symm.trans hrun₁))).1
  obtain ⟨n₂, -, hrun₂, hkeep⟩ := run_final hbody hending halloc m
  obtain rfl : n' = n₂ := (Prod.mk.inj (Option.some.inj (hrun'.symm.trans hrun₂))).1
  have hsaved := calleeSaved_not_mem hbody hending halloc hpressure
  have hX (k : Fin 31) (hk : 19 ≤ k.val) : n'.cpu.x k = host.x k := by
    refine (hkeep _ (hsaved _ (mem_calleeSaved k hk))).trans (hreg ?_)
    rintro rfl
    exact absurd hk (by decide)
  have hpermitted : ∀ access ∈ transfers ((body ++ ending ++ selectRet).map
      (Instruction.rename s.registerOf)) m, ExecutionEngine.permitted L.state m.mem access = true := by
    rw [heq]
    intro access hmem
    rcases htransfers access hmem with h | ⟨a, ha, hvalid, haccess⟩
    · exact permitted_of_inState h m.mem
    · exact permitted_of_valid hguest (hsize (List.ne_nil_of_mem ha)) hvalid haccess
  have hengine := run_encoded hencode hrenders hpermitted hrun'
  obtain ⟨_, hencode', hne⟩ := mapM_encodeInstruction_ok hbody hending halloc
  cases hencode.symm.trans hencode'
  have hrestored : ExecutionEngine.Restored host n'.cpu := by
    refine ⟨?_, fun k hlow _ => hX k hlow⟩
    refine (hkeep _ (hsaved .xsp (by decide))).trans ?_
    subst hm
    rfl
  have hX30 : n'.reg (.physical (.x 30)) = host.x 30 := hX 30 (by decide)
  refine ⟨n'.cpu, ?_, ?_, ?_⟩
  · rw [hcpu, hX30, hhost] at hengine
    have hpc : n'.cpu.x 0 = pc := hX0'.trans hX0
    have hempty : encoded.flatten.isEmpty = false := by simpa using hne
    simp only [ExecutionEngine.executeBlock, hempty, Bool.false_eq_true, false_or, reduceCtorEq,
      if_false, hengine, hrestored, and_self, not_true_eq_false, hpc, bind, Except.bind]
    rfl
  · rw [← hmem] at hguest'
    exact hguest'
  · intro x hx
    rw [← hhost, ← hframe x hx, ← hmem]
    rfl

theorem executeBlock_encoded (hblock : block.WellTyped)
    (hexact : ∀ inst ∈ block.instructions, inst.kind.Exact)
    (hselect : init.selectInstructions block = .ok (code, σ))
    (halloc : Allocates s (computeLiveIntervals code))
    (hpressure : ∀ interval ∈ computeLiveIntervals code,
      pressure (computeLiveIntervals code) interval.start < 18)
    (hsep : ∀ straight, code = straight ++ selectRet → ∀ d v, Interferes straight d v →
      s.registerOf v ≠ s.registerOf d)
    (hencode : (code.map (Instruction.rename s.registerOf)).mapM encodeInstruction = .ok encoded)
    (heval : evalBlock L.valid block g = some (g', pc)) (hguest : Represents L host.mem g)
    (hsize : IR.accesses block.instructions ⟨fun _ => none, g⟩ ≠ [] →
      load host.mem (L.field SHADOW_MEMORY_SIZE_OFFSET) 8 = BitVec.ofNat 64 L.shadowMemorySize) :
    ∃ cpu, ExecutionEngine.executeBlock encoded.flatten L.state .executable host = .ok (pc, cpu) ∧
      Represents L cpu.mem g' ∧ ∀ x, L.Outside x → cpu.mem x = host.mem x := by
  refine executeBlock_compatible hblock hexact hselect halloc hpressure ?_ hencode heval hguest hsize
  rintro straight rfl
  obtain ⟨body, ending, heq, hbody, -, hending⟩ := selectInstructions_shape hblock hselect
  obtain rfl := List.append_cancel_right heq
  exact compatible_of_interferes hbody hending halloc (hsep _ rfl)

/-- Without a conditional branch the allocator keeps apart what the code keeps apart. -/
theorem separate_of_no_branch (hblock : block.WellTyped)
    (hbranch : ∀ c t f, block.terminator ≠ .condBranch c t f)
    (hselect : init.selectInstructions block = .ok (code, σ))
    (halloc : Allocates s (computeLiveIntervals code)) :
    ∀ straight, code = straight ++ selectRet → ∀ d v, Interferes straight d v →
      s.registerOf v ≠ s.registerOf d := by
  rintro straight rfl d v hd
  obtain ⟨body, ending, heq, hbody, -, hending⟩ := selectInstructions_shape hblock hselect
  obtain rfl := List.append_cancel_right heq
  exact separate_of_clustered (List.forall_mem_append.mpr ⟨hbody.emitted, hending.emitted⟩)
    (selectInstructions_clustered hblock hselect hbranch).left halloc hd

end

end DinoRisc
