import DinoRisc.Allocation
import DinoRisc.Dispatch
import DinoRisc.Faithful
import DinoRisc.InitialState
import DinoRisc.Lowering.Capacity

/-!
The dispatch loop simulates RV64I: the translated blocks of a program, executed one after the other,
take the guest where the program takes it.
-/

namespace DinoRisc

open RiscV ByteMemory InstructionSelector LivenessAnalysis RegisterAllocator BinaryTranslator

variable {order : List ℕ → List ℕ} {p : Program} {L : Layout} {t : BinaryTranslator}
  {mem₀ : Memory 64} {pc : BitVec 64} {s s' : Program.State}

/-- The branch of the block keeps its operands, and the registers that the caller of the code does not
expect back are enough. -/
structure Fits (order : List ℕ → List ℕ) (instructions : List RiscV.Instruction) : Prop where
  keeps : Lifter.KeepsOperands instructions
  registers : ∀ block l code σ, Lifter.init.liftBasicBlock order instructions = .ok (block, l) →
    InstructionSelector.init.selectInstructions block = .ok (code, σ) →
      ∀ interval ∈ computeLiveIntervals code,
        pressure (computeLiveIntervals code) interval.start < 18

/-- The translator, about to execute the block at a program counter, holds the state of the
program; `mem₀` is the memory around it. -/
structure Tracks (L : Layout) (p : Program) (mem₀ : Memory 64) (c : BinaryTranslator × BitVec 64)
    (s : Program.State) : Prop where
  text : c.1.textSectionData = p.text
  base : c.1.textBaseAddress = p.base
  mapped : ∀ n, c.1.mappings n = .executable
  holds : Holds L c.1 s.guest
  pc : c.2 = s.pc
  frame : ∀ x, L.Outside x → ¬ InRange (L.field PC_OFFSET) 8 x → c.1.host.mem x = mem₀ x

theorem Tracks.setField (h : Tracks L p mem₀ (t, pc) s) (v : BitVec 64) :
    Tracks L p mem₀ (t.setField PC_OFFSET v, pc) s where
  text := h.text
  base := h.base
  mapped := h.mapped
  holds := h.holds.setPC v
  pc := h.pc
  frame x hx hpc := by
    have hstate := h.holds.state
    dsimp only at hstate
    rw [← h.frame x hx hpc]
    simp only [BinaryTranslator.setField, hstate]
    exact store_outside v hpc

theorem isValidPC_of_holds {i : Encoding.Instr} (hsize : p.base.toNat + p.text.length < 2 ^ 64)
    (h : Tracks L p mem₀ (t, pc) s) (hfetch : Decoder.Holds p.text (p.offset s.pc) i.encode) :
    t.isValidPC s.pc = true := by
  have hle := Program.Holds.le hfetch
  have hbase := h.base
  have htext := h.text
  dsimp only at hbase htext
  rw [Program.offset, BitVec.toNat_sub] at hle
  simp only [isValidPC, hbase, htext, ge_iff_le, Bool.and_eq_true, decide_eq_true_eq, BitVec.le_def,
    BitVec.lt_def, BitVec.toNat_add, BitVec.toNat_ofNat]
  have hlt := s.pc.isLt
  omega

/-- A block of sound steps is executed by the dispatcher. -/
theorem executeBlock_tracks (horder : ∀ rs, (order rs).Perm rs)
    (hsize : p.base.toNat + p.text.length < 2 ^ 64) (hblock : p.Block (p.Soundly L.valid) s s')
    (hfits : ∀ instructions, p.decoded s.pc = .ok instructions → Fits order instructions)
    (h : Tracks L p mem₀ (t, pc) s) : ∃ t', t.executeBlock order pc = .ok (s'.pc, t') ∧
      Tracks L p mem₀ (t', s'.pc) s' := by
  obtain ⟨instructions, hdecode, hleads⟩ := hblock.leads (by omega)
  obtain ⟨i, s₁, hexec⟩ := hblock.executes
  obtain ⟨block, l, hlift, hends⟩ := Lifter.liftBasicBlock_ends horder Lifter.init hleads.ne
    hleads.supported hleads.transfer hleads.steps
  have hwell := hends.wellTyped
  obtain ⟨code, σ, hselect⟩ := selectInstructions_ok hwell
  obtain ⟨hkeeps, hpressure⟩ := hfits instructions hdecode
  replace hpressure := hpressure block l code σ hlift hselect
  rcases translateToARM64_cases hwell hselect with
    ⟨-, s₂, encoded, hscan, halloc, htranslate, hencode, hne⟩ | ⟨⟨interval, hmem, hle⟩, -⟩
  swap
  · have hlt := hpressure interval hmem
    omega
  obtain rfl : pc = s.pc := h.pc
  have htext : t.textSectionData = p.text := h.text
  have hbase : t.textBaseAddress = p.base := h.base
  have hok : t.translateBlock order s.pc = .ok encoded.flatten := by
    rw [Program.decoded, Program.offset, ← htext, ← hbase] at hdecode
    rw [translateBlock_eq (isValidPC_of_holds hsize h hexec.fetch) hdecode hlift htranslate, hencode]
    simp [Except.bind, hne]
  have hexact := Lifter.liftBasicBlock_exact hleads.exact hlift
  have hstate : t.guestState = L.state := h.holds.state
  have hsize := h.holds.size
  simp only [getField, hstate] at hsize
  have hcompat := compatible_of_keeps horder hleads.supported hleads.transfer hkeeps hlift hwell hselect
    hscan halloc
  obtain ⟨cpu, hrun, hguest, hframe⟩ := executeBlock_compatible hwell hexact hselect halloc
    hpressure hcompat hencode hends.eval h.holds.guest fun _ => hsize
  rw [← hleads.nextPC] at hrun
  have hmapped : t.mappings 0 = .executable := h.mapped 0
  refine ⟨{ t with host := cpu, mappings := fun n => t.mappings (n + 1) }, ?_, htext, hbase,
    fun n => h.mapped (n + 1), ⟨hstate, hguest, ?_⟩, rfl, fun x hx hfield => ?_⟩
  · simp only [BinaryTranslator.executeBlock, hok, hstate, hmapped, hrun, bind, Except.bind]
    rfl
  · simp only [getField, hstate]
    rw [← hsize]
    exact load_congr fun i hi => hframe _ (Layout.outside_field (by decide) (by decide) hi)
  · exact (hframe x hx).trans (h.frame x hx hfield)

/-! ### The dispatch loop -/

/-- One turn of the loop, from a translator and a program counter. -/
def dispatchStep (order : List ℕ → List ℕ) (c c' : BinaryTranslator × BitVec 64) : Prop :=
  c.2 ≠ 0#64 ∧ (c.1.setField PC_OFFSET c.2).executeBlock order c.2 = .ok (c'.2, c'.1)

theorem blocks_of_run {k : ℕ} {c c' : BinaryTranslator × BitVec 64}
    (h : Runs.Run (dispatchStep order) k c c') : Blocks order c.1 c.2 k c'.1 c'.2 := by
  induction h with
  | zero c => exact .zero _ _
  | succ hstep _ ih => exact .succ hstep.1 hstep.2 ih

/-- The loop stops where the blocks lead, at address 0 or when the budget is used up. -/
theorem dispatch_blocks {k n : ℕ} {t' : BinaryTranslator} {pc' : BitVec 64}
    (last : Option (BitVec 64)) (h : Blocks order t pc k t' pc') (hk : k ≤ n)
    (hstop : pc' = 0#64 ∨ k = n) : ∃ last', dispatch order n pc last t = .ok (last', t') := by
  induction h generalizing n last with
  | zero t pc =>
    rcases hstop with rfl | rfl
    · cases n with
      | zero => exact ⟨last, rfl⟩
      | succ n => exact ⟨last, by rw [dispatch, if_pos rfl]⟩
    · exact ⟨last, rfl⟩
  | @succ t t₁ t' pc pc₁ pc' k hpc hstep hrest ih =>
    obtain ⟨n, rfl⟩ := Nat.exists_eq_succ_of_ne_zero (Nat.ne_zero_of_lt hk)
    simp only [dispatch, hpc, if_false, hstep, bind, Except.bind]
    by_cases hzero : pc₁ = 0#64
    · cases hrest with
      | zero => exact ⟨_, by simp [hzero]; rfl⟩
      | succ hpc₁ => exact absurd hzero hpc₁
    · simp only [hzero, if_false]
      exact ih _ (Nat.le_of_succ_le_succ hk) (hstop.imp_right Nat.succ.inj)

/-- A block of the program, executed in the given steps, that fits. -/
def RiscV.Program.FittingBlock (order : List ℕ → List ℕ) (p : Program)
    (step : Encoding.Instr → Program.State → Program.State → Prop) (s s' : Program.State) : Prop :=
  p.Block step s s' ∧ ∀ instructions, p.decoded s.pc = .ok instructions → Fits order instructions

theorem RiscV.Program.FittingBlock.mono
    {step step' : Encoding.Instr → Program.State → Program.State → Prop}
    (hstep : ∀ i s s', step i s s' → step' i s s') (h : p.FittingBlock order step s s') :
    p.FittingBlock order step' s s' :=
  ⟨h.1.mono hstep, h.2⟩

theorem dispatchStep_tracks (horder : ∀ rs, (order rs).Perm rs)
    (hsize : p.base.toNat + p.text.length < 2 ^ 64) (c : BinaryTranslator × BitVec 64)
    (s s' : Program.State) (h : Tracks L p mem₀ c s) (hblock : p.FittingBlock order (p.Soundly L.valid) s s') :
    ∃ c', dispatchStep order c c' ∧ Tracks L p mem₀ c' s' := by
  obtain ⟨i, s₁, hexec⟩ := hblock.1.executes
  obtain ⟨t', hstep, h'⟩ := executeBlock_tracks horder hsize hblock.1 hblock.2 (h.setField c.2)
  exact ⟨(t', s'.pc), ⟨by rw [h.pc]; exact hexec.running, hstep⟩, h'⟩

theorem executeFunction_tracks (horder : ∀ rs, (order rs).Perm rs)
    (hsize : p.base.toNat + p.text.length < 2 ^ 64) (hcleared : Cleared L t) (name : String)
    (args : List (BitVec 64)) {entry : BitVec 64} {k : ℕ}
    (hrun : Runs.Run (p.FittingBlock order (p.Soundly L.valid)) k ⟨entryGuest args, entry⟩ s')
    (hk : k ≤ MAX_EXECUTION_BLOCKS) (hstop : s'.pc = 0#64 ∨ k = MAX_EXECUTION_BLOCKS) :
    ∃ t', executeFunction order p.text p.base name (some entry)
        ((t.initializeTranslator L.shadowMemory).setArgumentRegisters args) =
          .ok (t'.getReturnValue, t') ∧
      Tracks L p (t.started L.shadowMemory args p.text p.base entry).host.mem (t', s'.pc) s' := by
  obtain ⟨hholds, hextends⟩ := started_holds args p.text p.base entry hcleared
  have htracks : Tracks L p (t.started L.shadowMemory args p.text p.base entry).host.mem
      (t.started L.shadowMemory args p.text p.base entry, entry) ⟨entryGuest args, entry⟩ :=
    ⟨rfl, rfl, fun n => (congrFun hextends.mappings n).trans (hcleared.mapped n), hholds, rfl,
      fun _ _ _ => rfl⟩
  obtain ⟨⟨t', pc'⟩, hblocks, htracks'⟩ :=
    hrun.simulate (dispatchStep_tracks horder hsize) htracks
  obtain rfl : pc' = s'.pc := htracks'.pc
  obtain ⟨last, hdispatch⟩ := dispatch_blocks none (blocks_of_run hblocks) hk hstop
  exact ⟨t', executeFunction_dispatch name hdispatch, htracks'⟩

theorem Tracks.getReturnValue (h : Tracks L p mem₀ (t, pc) s) :
    t.getReturnValue = (s.guest.x 10).setWidth 32 := by
  have hstate : t.guestState = L.state := h.holds.state
  have ha0 := h.holds.guest.x 10 (by decide)
  simp only [BinaryTranslator.getReturnValue, getField, hstate]
  exact congrArg (BitVec.setWidth 32) ha0

theorem Tracks.untouched {t₀ : BinaryTranslator} (h : Tracks L p mem₀ (t, pc) s)
    (hmem₀ : ∀ x, ¬ InRange L.state GUEST_STATE_SIZE x → mem₀ x = t₀.host.mem x) {x : BitVec 64}
    (hx : ¬ InRange L.state GUEST_STATE_SIZE x)
    (hshadow : ¬ InRange L.shadowMemory L.shadowMemorySize x) : t.host.mem x = t₀.host.mem x := by
  rw [← hmem₀ x hx]
  refine h.frame x ⟨fun hin => hx ?_, hshadow⟩ fun hin => hx ?_
  · exact lt_trans hin (by decide)
  · exact Layout.inRange_field (by decide) le_rfl hin

theorem Tracks.result (hcleared : Cleared L t) {args : List (BitVec 64)} {entry : BitVec 64}
    {t' : BinaryTranslator}
    (h : Tracks L p (t.started L.shadowMemory args p.text p.base entry).host.mem (t', pc) s) :
    t'.getReturnValue = (s.guest.x 10).setWidth 32 ∧ Represents L t'.host.mem s.guest ∧
      ∀ x, ¬ InRange L.state GUEST_STATE_SIZE x → ¬ InRange L.shadowMemory L.shadowMemorySize x →
        t'.host.mem x = t.host.mem x := by
  have hmem := (started_holds args p.text p.base entry hcleared).2.mem
  exact ⟨h.getReturnValue, h.holds.guest, fun x => h.untouched hmem⟩

open Encoding

theorem Fits.of_block {order : List ℕ → List ℕ} {instructions : List RiscV.Instruction}
    {block : IR.BasicBlock} {l : Lifter} {code : Code} {σ : InstructionSelector}
    (hkeeps : Lifter.KeepsOperands instructions)
    (hlift : Lifter.init.liftBasicBlock order instructions = .ok (block, l))
    (hselect : InstructionSelector.init.selectInstructions block = .ok (code, σ))
    (hpressure : ∀ interval ∈ computeLiveIntervals code,
      pressure (computeLiveIntervals code) interval.start < 18) :
    Fits order instructions where
  keeps := hkeeps
  registers block' l' code' σ' hlift' hselect' := by
    cases hlift.symm.trans hlift'
    cases hselect.symm.trans hselect'
    exact hpressure

def incrementBranch : Instr := .b .bne 10 0 4
def incrementAdd : Instr := .i .addi 10 10 1
def incrementReturn : Instr := .i .jalr 0 1 0

/-- `if (a0 == 0) a0++;` -/
def increment : Program where
  text := [incrementBranch, incrementAdd, incrementReturn].flatMap fun i => littleEndian i.encode
  base := 0x10000#64

theorem increment_fits (pc : BitVec 64) (instructions : List RiscV.Instruction)
    (haligned : pc.toNat % 4 = 0) (hdecode : increment.decoded pc = .ok instructions) :
    Fits id instructions := by
  have hmod : increment.offset pc % 4 = 0 := by
    simp only [Program.offset, increment, BitVec.toNat_sub, BitVec.toNat_ofNat]
    omega
  have hlength : increment.text.length = 12 := rfl
  have hpc : pc = increment.base + BitVec.ofNat 64 (increment.offset pc) :=
    (add_offset increment.base pc).symm
  obtain h | h | h | h : increment.offset pc = 0 ∨ increment.offset pc = 4 ∨
      increment.offset pc = 8 ∨ 12 ≤ increment.offset pc := by omega
  · rw [h] at hpc
    subst hpc
    cases hdecode.symm.trans rfl
    exact Fits.of_block (Lifter.keepsOperands_of_branch [] rfl (by decide)) rfl rfl (by decide)
  · rw [h] at hpc
    subst hpc
    cases hdecode.symm.trans rfl
    exact Fits.of_block (Lifter.keepsOperands_of_ne (by decide)) rfl rfl (by decide)
  · rw [h] at hpc
    subst hpc
    cases hdecode.symm.trans rfl
    exact Fits.of_block (Lifter.keepsOperands_of_ne (by decide)) rfl rfl (by decide)
  · have hnil : offsets (increment.offset pc) increment.text.length = [] := by
      rw [offsets, hlength, Nat.sub_eq_zero_of_le h]
      rfl
    rw [Program.decoded, hnil] at hdecode
    cases hdecode
    exact Fits.of_block (Lifter.keepsOperands_of_ne (by decide)) rfl rfl (by decide)

theorem highLayout_disjoint (x : BitVec 64) (h : InRange 0x1000#64 GUEST_STATE_SIZE x) :
    ¬ InRange 0x10000000#64 SHADOW_MEMORY_SIZE x := by
  intro h'
  simp only [InRange, GUEST_STATE_SIZE, SHADOW_MEMORY_SIZE, BitVec.toNat_sub,
    BitVec.toNat_ofNat] at h h'
  omega

/-- The guest state at `0x1000`, and the shadow memory at `0x10000000`. -/
def highLayout : Layout where
  state := 0x1000#64
  shadowMemory := 0x10000000#64
  shadowMemorySize := SHADOW_MEMORY_SIZE
  guestMemoryBase := 0#64
  disjoint := highLayout_disjoint

theorem idle_cleared : Cleared highLayout idle := ⟨rfl, fun _ => rfl, rfl, rfl, fun _ _ => rfl⟩

def incremented : Guest := (entryGuest [0#64]).writeRegister 10 1#64

theorem increment_faithful (s : Program.State) (hra : s.guest.x 1 = 0#64) {i : Instr}
    (hi : i ∈ [incrementBranch, incrementAdd, incrementReturn]) : Program.Faithful i s where
  toSound := by
    simp only [List.mem_cons, List.not_mem_nil, or_false] at hi
    rcases hi with rfl | rfl | rfl <;>
      exact .of_link rfl rfl not_false (by decide) (by decide)
  returns _ := by
    rw [Guest.reg_of_ne _ (by decide), hra]
    decide

theorem increment_blocks : Runs.Run (increment.FittingBlock id (increment.Faithfully highLayout.valid)) 2
    ⟨entryGuest [0#64], 0x10000#64⟩ ⟨incremented, 0#64⟩ := by
  have hbranch : increment.Block (increment.Faithfully highLayout.valid)
      ⟨entryGuest [0#64], 0x10000#64⟩ ⟨entryGuest [0#64], 0x10004#64⟩ :=
    ⟨_, .refl, incrementBranch, ⟨⟨by decide, rfl, ⟨_, rfl⟩, rfl⟩, increment_faithful _ rfl (by simp)⟩,
      .inl rfl⟩
  have hadd : increment.Inner (increment.Faithfully highLayout.valid)
      ⟨entryGuest [0#64], 0x10004#64⟩ ⟨incremented, 0x10008#64⟩ :=
    ⟨incrementAdd, ⟨⟨by decide, rfl, ⟨_, rfl⟩, rfl⟩, increment_faithful _ rfl (by simp)⟩,
      by decide⟩
  have hreturn : increment.Last (increment.Faithfully highLayout.valid)
      ⟨incremented, 0x10008#64⟩ ⟨incremented, 0#64⟩ :=
    ⟨incrementReturn, ⟨⟨by decide, rfl, ⟨_, rfl⟩, rfl⟩, increment_faithful _ rfl (by simp)⟩,
      .inl rfl⟩
  exact .succ ⟨hbranch, fun is => increment_fits _ is rfl⟩
    (.single ⟨⟨_, .single hadd, hreturn⟩, fun is => increment_fits _ is rfl⟩)

end DinoRisc
