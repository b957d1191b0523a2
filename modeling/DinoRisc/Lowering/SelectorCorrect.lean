import DinoRisc.Lifter.Terminator
import DinoRisc.Lowering.Simulation

/-! The selector preserves the meaning of every block that the lifter produces. -/

namespace DinoRisc.InstructionSelector

open Arm64 IR ByteMemory

variable {L : Layout} {m₀ m m' : Machine} {σ : InstructionSelector} {s s' : EvalState}
  {pc : BitVec 64}

theorem types_eq_none {env : Env} {id : ValueId} : env.types id = none ↔ env id = none := by
  simp [Env.types]

theorem selectAll_reaches {instructions : List IR.Instruction} {Γ : Types}
    (htyped : WellTyped s.env.types instructions Γ) (h : Simulates L m₀ σ s m)
    (heval : evalInstructions L.valid instructions s = some s') :
    s'.env.types = Γ ∧ ∃ code σ' m', σ.selectAll instructions = .ok (code, σ') ∧
      Reaches code m m' ∧ Simulates L m₀ σ' s' m' := by
  induction instructions generalizing σ s m with
  | nil =>
    cases htyped
    cases heval
    exact ⟨rfl, [], σ, m, rfl, .nil m, h⟩
  | cons inst rest ih =>
    cases htyped with
    | cons hfresh hlow hrest =>
      simp only [evalInstructions, Option.bind_eq_some_iff] at heval
      obtain ⟨s₁, hstep, heval⟩ := heval
      rw [← evalInstruction_types hlow hstep] at hrest
      obtain ⟨code, σ₁, m₁, hok, hreach, h₁, -⟩ :=
        selectInstruction_step h (types_eq_none.mp hfresh) hlow hstep
      obtain ⟨htypes, code', σ', m', hok', hreach', h'⟩ := ih hrest h₁ heval
      refine ⟨htypes, code ++ code', σ', m', ?_, hreach.append hreach', h'⟩
      simp only [selectAll, hok, hok', bind, Except.bind]
      rfl

theorem run_body_ret {body : Code} (h : Reaches body m m') :
    run (body ++ selectRet) m = some (m', m'.reg (.physical (.x 30))) := by
  rw [h.run]
  rfl

theorem branchCode_reaches (cond target : VirtualRegister) {t f : VirtualRegister} (hne : t ≠ f)
    (trueBlock falseBlock : BitVec 64) (m : Machine) :
    ∃ body m', branchCode cond t f target trueBlock falseBlock = body ++ selectRet ∧
      Reaches body m m' ∧ m'.mem = m.mem ∧
      m'.reg (.physical (.x 0)) =
        (if m.reg (.virtual cond) ≠ 0#64 then trueBlock else falseBlock) ∧
      ∀ reg, reg ≠ .x 0 → m'.reg (.physical reg) = m.reg (.physical reg) := by
  let m₁ := m.compare .x (.virtual cond) (.immediate 0#64)
  let m₂ := m₁.set (.virtual t) trueBlock
  let m₃ := m₂.set (.virtual f) falseBlock
  let chosen := if m.reg (.virtual cond) ≠ 0#64 then trueBlock else falseBlock
  have htrue : Reaches (selectConstIntoRegister .i64 trueBlock (.virtual t)) m₁ m₂ :=
    selectConstIntoRegister_i64 rfl trueBlock m₁
  have hfalse : Reaches (selectConstIntoRegister .i64 falseBlock (.virtual f)) m₂ m₃ :=
    selectConstIntoRegister_i64 rfl falseBlock m₂
  have hz : m₃.flags.z = decide (m.reg (.virtual cond) = 0#64) := by
    simp [m₃, m₂, m₁, Machine.compare, A64.subFlags, Machine.read, DataSize.width]
  have hcsel : exec (.conditionalSelect .csel .x (.virtual target) (.virtual t) (.virtual f) .ne)
      m₃ = some (.next (m₃.set (.virtual target) chosen)) := by
    have ht : m₃.read (.virtual t) = trueBlock := by
      rw [Machine.read, Machine.set_reg_ne _ _ _ (by simpa using hne), Machine.set_reg_self]
    have hf : m₃.read (.virtual f) = falseBlock := Machine.set_reg_self ..
    rw [exec_csel rfl, ht, hf]
    simp [chosen, Condition.holds, hz]
  have hmov : exec (.twoOperand .mov .x X0 (.virtual target)) (m₃.set (.virtual target) chosen) =
      some (.next ((m₃.set (.virtual target) chosen).set (.physical (.x 0)) chosen)) := by
    rw [exec_convert rfl rfl]
    simp [DataSize.result, DataSize.width, Machine.read]
  refine ⟨_, _, rfl, ((Reaches.cons rfl htrue).append hfalse).append (.cons hcsel (.single hmov)),
    rfl, Machine.set_reg_self .., ?_⟩
  intro reg hreg
  rw [Machine.set_reg_ne _ _ _ (by simpa using hreg), Machine.set_reg_ne _ _ _ (by simp),
    Machine.set_reg_ne _ _ _ (by simp), Machine.set_reg_ne _ _ _ (by simp)]
  rfl

theorem selectTerminator_reaches {terminator : Terminator} (h : Simulates L m₀ σ s m)
    (htyped : terminator.Typed s.env.types) (hpc : terminator.nextPC s.env = some pc) :
    ∃ body σ' m', σ.selectTerminator terminator = .ok (body ++ selectRet, σ') ∧
      Reaches body m m' ∧ m'.mem = m.mem ∧ m'.reg (.physical (.x 0)) = pc ∧
      ∀ reg, reg ≠ .x 0 → m'.reg (.physical reg) = m.reg (.physical reg) := by
  have hset (reg : Register) (hreg : reg ≠ .x 0) (value : BitVec 64) :
      (m.set (.physical (.x 0)) value).reg (.physical reg) = m.reg (.physical reg) :=
    Machine.set_reg_ne _ _ _ (by simpa using hreg)
  have hconst (value : BitVec 64) : Reaches (selectConstIntoRegister .i64 value X0) m
      (m.set (.physical (.x 0)) value) := selectConstIntoRegister_i64 rfl value m
  cases htyped with
  | branch target =>
    cases hpc
    exact ⟨_, σ, _, rfl, hconst pc, rfl,
      Machine.set_reg_self .., fun reg hreg => hset reg hreg pc⟩
  | @condBranch condition trueBlock falseBlock hc =>
    obtain ⟨c, hc, -⟩ := value_of_type hc
    obtain ⟨cond, -, hcond, -, hbits⟩ := h.register hc
    simp only [Terminator.nextPC, hc, Option.map_some, Option.some.injEq] at hpc
    obtain ⟨body, m', hcode, hreach, hmem, hX0, hregs⟩ := branchCode_reaches cond
      σ.branchTemps.2.2.1 (branchTemps_distinct h.covers.toSeparate) trueBlock falseBlock m
    rw [hbits, hpc] at hX0
    refine ⟨body, σ.branchTemps.2.2.2, m', ?_, hreach, hmem, hX0, hregs⟩
    rw [← hcode]
    exact selectCondBranch_eq hcond trueBlock falseBlock
  | ret =>
    cases hpc
    exact ⟨_, σ, _, rfl, hconst 0#64, rfl, Machine.set_reg_self ..,
      fun reg hreg => hset reg hreg 0#64⟩
  | @retValue value hv =>
    obtain ⟨v, hv, -⟩ := value_of_type hv
    obtain ⟨r, -, hr, -, hbits⟩ := h.register hv
    simp only [Terminator.nextPC, hv, Option.map_some, Option.some.injEq] at hpc
    have hmov : exec (.twoOperand .mov .x X0 (.virtual r)) m =
        some (.next (m.set (.physical (.x 0)) pc)) := by
      rw [exec_convert rfl rfl, ← hpc, ← hbits]
      simp [DataSize.result, DataSize.width, Machine.read]
    refine ⟨[.twoOperand .mov .x X0 (.virtual r)], σ, _, ?_, .single hmov, rfl,
      Machine.set_reg_self .., fun reg hreg => hset reg hreg _⟩
    simp only [selectTerminator, getVirtualRegisterOrThrow_eq hr, bind, Except.bind]
    rfl

section

variable {block : BasicBlock} {g g' : Guest}

theorem simulates_init (hstate : m.reg (.physical (.x 0)) = L.state)
    (hguest : Represents L m.mem g) : Simulates L m init ⟨fun _ => none, g⟩ m where
  covers := .init
  value hv := by cases hv
  guest := hguest
  state := hstate
  physical _ := rfl
  frame _ _ := rfl

/-- The code of a typed block, run from a machine that holds the guest. -/
theorem selectInstructions_run (hblock : block.WellTyped)
    (heval : evalBlock L.valid block g = some (g', pc))
    (hstate : m.reg (.physical (.x 0)) = L.state) (hguest : Represents L m.mem g) :
    ∃ code σ m', init.selectInstructions block = .ok (code, σ) ∧
      run code m = some (m', m.reg (.physical (.x 30))) ∧ Represents L m'.mem g' ∧
      m'.reg (.physical (.x 0)) = pc ∧ ∀ x, L.Outside x → m'.mem x = m.mem x := by
  obtain ⟨Γ, hinsts, hterm⟩ := hblock
  simp only [evalBlock, Option.bind_eq_bind, Option.bind_eq_some_iff] at heval
  obtain ⟨s, hrun, pc', hpc, heq⟩ := heval
  cases heq
  replace hinsts : WellTyped (EvalState.env ⟨fun _ => none, g⟩).types block.instructions Γ := hinsts
  obtain ⟨htypes, code, σ, m₁, hok, hreach, h₁⟩ :=
    selectAll_reaches hinsts (simulates_init hstate hguest) hrun
  obtain ⟨body, σ', m', hok', hreach', hmem, hX0, hregs⟩ :=
    selectTerminator_reaches h₁ (htypes ▸ hterm) hpc
  refine ⟨code ++ (body ++ selectRet), σ', m', ?_, ?_, hmem ▸ h₁.guest, hX0, ?_⟩
  · exact selectInstructions_eq_ok.mpr ⟨code, σ, _, hok, hok', rfl⟩
  · rw [← List.append_assoc, run_body_ret (hreach.append hreach'), hregs _ (by decide),
      h₁.physical]
  · intro x hx
    rw [hmem, h₁.frame x hx]

end

section

variable {order : List ℕ → List ℕ} {instructions : List RiscV.Instruction}

/-- The code that the selector makes of a lifted block, run on unbounded registers, leaves the
guest and the next program counter that the block denotes. -/
theorem selectInstructions_lifted (horder : ∀ rs, (order rs).Perm rs) (l : Lifter)
    (hsup : ∀ i ∈ instructions, i.Supported)
    (hlast : ∀ i ∈ instructions.dropLast, i.opcode.isControlTransfer = false)
    {block : BasicBlock} {l' : Lifter}
    (hlift : Lifter.liftBasicBlock order instructions l = .ok (block, l')) (L : Layout) (g : Guest)
    (hvalid : ∀ access ∈ IR.accesses block.instructions ⟨fun _ => none, g⟩,
      L.valid access.1 access.2 = true) (m : Machine)
    (hstate : m.reg (.physical (.x 0)) = L.state) (hguest : Represents L m.mem g) :
    ∃ code σ m' g' pc, init.selectInstructions block = .ok (code, σ) ∧
      evalBlock Lifter.unrestricted block g = some (g', pc) ∧
      run code m = some (m', m.reg (.physical (.x 30))) ∧ Represents L m'.mem g' ∧
      m'.reg (.physical (.x 0)) = pc ∧ ∀ x, L.Outside x → m'.mem x = m.mem x := by
  obtain ⟨block', l'', hlift', hblock⟩ := Lifter.liftBasicBlock_wellTyped horder l hsup hlast
  cases hlift.symm.trans hlift'
  obtain ⟨g', pc, heval, hall⟩ := hblock.eval g hvalid
  obtain ⟨code, σ, m', hok, hrun, hguest', hX0, hframe⟩ :=
    selectInstructions_run hblock heval hstate hguest
  exact ⟨code, σ, m', g', pc, hok, hall, hrun, hguest', hX0, hframe⟩

/-- The next program counter of a block is the ISA's, in the state that the instructions before
the control transfer leave, but for the return `jalr x0, ra, 0`; the selector puts it in `X0`. -/
theorem selectInstructions_nextPC (horder : ∀ rs, (order rs).Perm rs) (l : Lifter)
    (hne : instructions ≠ []) (hsup : ∀ i ∈ instructions, i.Supported)
    (hlast : ∀ i ∈ instructions.dropLast, i.opcode.isControlTransfer = false) (g : Guest) :
    ∃ block l' before l'' g₁ pc₁, Lifter.liftBasicBlock order instructions l = .ok (block, l') ∧
      Lifter.liftBasicBlock order (Lifter.straightPart instructions) l = .ok (before, l'') ∧
      evalBlock Lifter.unrestricted before g = some (g₁, pc₁) ∧
      evalBlock Lifter.unrestricted block g = some (g₁, Lifter.nextPC (instructions.getLast hne)
        ((instructions.getLast hne).address + 4#64) g₁) ∧
      ∀ (L : Layout) (m : Machine), m.reg (.physical (.x 0)) = L.state → Represents L m.mem g →
        (∀ access ∈ IR.accesses block.instructions ⟨fun _ => none, g⟩,
          L.valid access.1 access.2 = true) →
        ∃ code σ m', init.selectInstructions block = .ok (code, σ) ∧
          run code m = some (m', m.reg (.physical (.x 30))) ∧
          m'.reg (.physical (.x 0)) = Lifter.nextPC (instructions.getLast hne)
            ((instructions.getLast hne).address + 4#64) g₁ := by
  have hbody := Lifter.straightPart_liftable hsup
  obtain ⟨g₁, hsteps⟩ := Lifter.steps_unrestricted hbody g
  obtain ⟨block, l', hok, hends⟩ := Lifter.liftBasicBlock_ends horder l hne hsup hlast hsteps
  obtain ⟨before, l'', hok', hends'⟩ := Lifter.liftBasicBlock_body_ends horder l hbody hsteps
  refine ⟨block, l', before, l'', g₁, _, hok, hok', hends'.eval, hends.eval, ?_⟩
  intro L m hstate hguest hvalid
  obtain ⟨g', pc, heval, hall⟩ := hends.wellTyped.eval g hvalid
  cases hall.symm.trans hends.eval
  obtain ⟨code, σ, m', hselect, hrun, -, hX0, -⟩ :=
    selectInstructions_run hends.wellTyped heval hstate hguest
  exact ⟨code, σ, m', hselect, hrun, hX0⟩

theorem hostLayout_disjoint (x : BitVec 64) (h : InRange 0x16FD00100#64 GUEST_STATE_SIZE x) :
    ¬ InRange 0x104000000#64 0x800000 x := by
  intro h'
  simp only [InRange, GUEST_STATE_SIZE, BitVec.toNat_sub, BitVec.toNat_ofNat] at h h'
  omega

/-- A guest with its memory at `0x80000000`, on a host with the `GuestState` on its stack. -/
def hostLayout : Layout where
  state := 0x16FD00100#64
  shadowMemory := 0x104000000#64
  shadowMemorySize := 0x800000
  guestMemoryBase := 0x80000000#64
  disjoint := hostLayout_disjoint

/-- Every register points into the memory. -/
def pointers : Guest := ⟨fun r => 0x80000000#64 + BitVec.ofNat 64 (0x100 * r), fun a => a.setWidth 8⟩

/-- The machine before a call from `0x100003F00`. -/
def hostMachine : Machine where
  reg := fun p => if p = .physical (.x 0) then hostLayout.state else 0x100003F00#64
  flags := A64.subFlags 0#64 0#64
  mem := hostLayout.image pointers

/-- `sd x5, 8(x6)` -/
def storeExample : RiscV.Instruction :=
  ⟨.sd, [.register 6, .register 5, .immediate ((8#12).signExtend 64)], 0#32, 0x1000#64⟩

/-- `bne x5, x6, 16` -/
def branchExample : RiscV.Instruction :=
  ⟨.bne, [.register 5, .register 6, .immediate ((8#12 ++ 0#1).signExtend 64)], 0#32, 0x1004#64⟩

def storeBranch : BasicBlock where
  instructions := [⟨1, .regRead 6⟩, ⟨2, .regRead 5⟩, ⟨3, .const .i64 ((8#12).signExtend 64)⟩,
    ⟨4, .binaryOp .add .i64 1 3⟩, ⟨5, .store 2 4⟩, ⟨6, .binaryOp .ne .i1 2 1⟩]
  terminator := .condBranch 6 0x1014#64 0x1008#64

theorem storeBranch_supported : ∀ i ∈ [storeExample, branchExample], i.Supported := by
  intro i hi
  simp only [List.mem_cons, List.not_mem_nil, or_false] at hi
  rcases hi with rfl | rfl
  · exact ⟨rfl, .s (by decide) (by decide) 8#12⟩
  · exact ⟨rfl, .b (by decide) (by decide) 8#12⟩

theorem storeBranch_dropLast :
    ∀ i ∈ [storeExample, branchExample].dropLast, i.opcode.isControlTransfer = false := by
  intro i hi
  obtain rfl := List.mem_singleton.mp hi
  rfl

theorem storeBranch_valid : ∀ access ∈ IR.accesses storeBranch.instructions ⟨fun _ => none, pointers⟩,
    hostLayout.valid access.1 access.2 = true := by
  have haccesses : IR.accesses storeBranch.instructions ⟨fun _ => none, pointers⟩ =
      [(0x80000608#64, 8)] := rfl
  rw [haccesses]
  decide

def returnExample : RiscV.Instruction :=
  ⟨.jalr, [.register 0, .register 1, .immediate ((0#12).signExtend 64)], 0x00008067#32, 0x1000#64⟩

theorem selectInstructions_lifted_storeBranch :
    ∃ code σ m' g' pc, init.selectInstructions storeBranch = .ok (code, σ) ∧
      evalBlock Lifter.unrestricted storeBranch pointers = some (g', pc) ∧
      run code hostMachine = some (m', 0x100003F00#64) ∧ Represents hostLayout m'.mem g' ∧
      m'.reg (.physical (.x 0)) = pc ∧
      ∀ x, hostLayout.Outside x → m'.mem x = hostMachine.mem x :=
  selectInstructions_lifted (fun rs => List.Perm.refl (id rs)) Lifter.init storeBranch_supported
    storeBranch_dropLast rfl hostLayout pointers storeBranch_valid hostMachine rfl
    (hostLayout.represents_image pointers)

theorem selectInstructions_nextPC_storeBranch :
    ∃ g₁ code σ m', evalBlock Lifter.unrestricted storeBranch pointers = some (g₁, 0x1014#64) ∧
      init.selectInstructions storeBranch = .ok (code, σ) ∧
      run code hostMachine = some (m', 0x100003F00#64) ∧
      m'.reg (.physical (.x 0)) = 0x1014#64 := by
  obtain ⟨block, l', before, l'', g₁, pc₁, hlift, hlift', hbefore, heval, hselect⟩ :=
    selectInstructions_nextPC (fun rs => List.Perm.refl (id rs)) Lifter.init
      (List.cons_ne_nil storeExample [branchExample]) storeBranch_supported storeBranch_dropLast
      pointers
  obtain rfl : storeBranch = block := (Prod.mk.inj (Except.ok.inj hlift)).1
  cases hlift'
  cases hbefore
  obtain ⟨code, σ, m', hok, hrun, hX0⟩ := hselect hostLayout hostMachine rfl
    (hostLayout.represents_image pointers) storeBranch_valid
  exact ⟨_, code, σ, m', heval, hok, hrun, hX0⟩

/-- A return to `0x2004` hands 0 to the dispatcher. -/
theorem liftBasicBlock_return :
    ∃ block l', Lifter.liftBasicBlock id [returnExample] Lifter.init = .ok (block, l') ∧
      evalBlock Lifter.unrestricted block ⟨fun _ => 0x2004#64, fun _ => 0#8⟩ =
        some (⟨fun _ => 0x2004#64, fun _ => 0#8⟩, 0#64) ∧
      RiscV.Isa.step Lifter.unrestricted returnExample ⟨fun _ => 0x2004#64, fun _ => 0#8⟩ =
        some (⟨fun _ => 0x2004#64, fun _ => 0#8⟩, 0x2004#64) :=
  ⟨_, _, rfl, rfl, rfl⟩

end

end DinoRisc.InstructionSelector
