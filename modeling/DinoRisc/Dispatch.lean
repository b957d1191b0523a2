import DinoRisc.Fetch

/-!
The dispatch loop and the run of the guest function: when the loop ends because the function has
returned, and when only because the number of blocks is used up.
-/

namespace DinoRisc.BinaryTranslator

open ByteMemory

variable {order : List ℕ → List ℕ} {t t' t'' : BinaryTranslator} {pc pc' pc'' : BitVec 64} {n k : ℕ}

/-- `n` blocks, executed one after the other from `pc`, none of them at address 0. -/
inductive Blocks (order : List ℕ → List ℕ) :
    BinaryTranslator → BitVec 64 → ℕ → BinaryTranslator → BitVec 64 → Prop
  | zero (t : BinaryTranslator) (pc : BitVec 64) : Blocks order t pc 0 t pc
  | succ {t t' t'' : BinaryTranslator} {pc pc' pc'' : BitVec 64} {n : ℕ} (hpc : pc ≠ 0#64)
    (hstep : (t.setField PC_OFFSET pc).executeBlock order pc = .ok (pc', t'))
    (hrest : Blocks order t' pc' n t'' pc'') : Blocks order t pc (n + 1) t'' pc''

/-- The run from `pc` reaches next program counter 0 within `n` blocks. -/
def Returns (order : List ℕ → List ℕ) (t : BinaryTranslator) (pc : BitVec 64) (n : ℕ) : Prop :=
  ∃ k t', 0 < k ∧ k ≤ n ∧ Blocks order t pc k t' 0#64

theorem returns_zero : ¬ Returns order t pc 0 := by
  rintro ⟨k, t', hpos, hle, -⟩
  omega

theorem returns_from_zero : ¬ Returns order t 0#64 n := by
  rintro ⟨k, t', hpos, -, h⟩
  cases h with
  | zero => omega
  | succ hpc => exact hpc rfl

theorem returns_succ (hpc : pc ≠ 0#64)
    (hstep : (t.setField PC_OFFSET pc).executeBlock order pc = .ok (pc', t')) :
    Returns order t pc (n + 1) ↔ pc' = 0#64 ∨ Returns order t' pc' n := by
  constructor
  · rintro ⟨k, t'', hpos, hle, h⟩
    cases h with
    | zero => omega
    | @succ _ t₁ _ _ pc₁ _ k _ hstep' hrest =>
      rw [hstep] at hstep'
      cases hstep'
      cases hrest with
      | zero => exact .inl rfl
      | succ hpc' hstep'' hrest' =>
        exact .inr ⟨_, t'', Nat.succ_pos _, by omega, .succ hpc' hstep'' hrest'⟩
  · rintro (rfl | ⟨k, t'', hpos, hle, h⟩)
    · exact ⟨1, t', by omega, by omega, .succ hpc hstep (.zero t' _)⟩
    · exact ⟨k + 1, t'', by omega, by omega, .succ hpc hstep h⟩

theorem dispatch_last {last last' : Option (BitVec 64)} (hlast : last ≠ some 0#64)
    (h : dispatch order n pc last t = .ok (last', t')) :
    last' = some 0#64 ↔ Returns order t pc n := by
  induction n generalizing pc last t with
  | zero =>
    cases h
    exact iff_of_false hlast returns_zero
  | succ n ih =>
    rw [dispatch] at h
    by_cases hpc : pc = 0#64
    · rw [if_pos hpc] at h
      cases h
      rw [hpc]
      exact iff_of_false hlast returns_from_zero
    · rw [if_neg hpc] at h
      obtain ⟨⟨pc', t₁⟩, hstep, h⟩ := bind_eq_ok.mp h
      dsimp only at h
      rw [returns_succ hpc hstep]
      by_cases hzero : pc' = 0#64
      · rw [if_pos hzero] at h
        cases h
        simp [hzero]
      · rw [if_neg hzero] at h
        rw [ih (by simpa using hzero) h]
        simp [hzero]

theorem executeFunction_ok {text : List (BitVec 8)} {base entry : BitVec 64} {name : String}
    {value : BitVec 32}
    (h : executeFunction order text base name (some entry) t = .ok (value, t')) :
    ∃ last, dispatch order MAX_EXECUTION_BLOCKS entry none (t.start text base entry) =
      .ok (last, t') ∧ value = t'.getReturnValue := by
  obtain ⟨⟨last, t₁⟩, hrun, h⟩ := bind_eq_ok.mp h
  cases h
  exact ⟨last, hrun, rfl⟩

/-- When `executeFunction` returns, the last block's next program counter was 0 exactly when the
run from the entry reaches it within `MAX_EXECUTION_BLOCKS` blocks. -/
theorem executeFunction_finished_iff {text : List (BitVec 8)} {base entry : BitVec 64}
    {name : String} {value : BitVec 32}
    (h : executeFunction order text base name (some entry) t = .ok (value, t')) :
    dispatch order MAX_EXECUTION_BLOCKS entry none (t.start text base entry) =
        .ok (some 0#64, t') ↔
      Returns order (t.start text base entry) entry MAX_EXECUTION_BLOCKS := by
  obtain ⟨last, hrun, -⟩ := executeFunction_ok h
  rw [← dispatch_last (by simp) hrun, hrun]
  simp

/-! ### Two programs -/

def giveBack : List (BitVec 8) := [0x67#8, 0x80#8, 0x00#8, 0x00#8]

def spin : List (BitVec 8) := [0x6F#8, 0x00#8, 0x00#8, 0x00#8]

/-- The translator with a program at `0x10000`. -/
def loaded (text : List (BitVec 8)) (guestState : BitVec 64) (host : A64.Cpu) : BinaryTranslator where
  textSectionData := text
  textBaseAddress := 0x10000#64
  guestState := guestState
  host := host
  mappings := fun _ => .executable

theorem giveBack_translateBlock (guestState : BitVec 64) (host : A64.Cpu) :
    translateBlock id 0x10000#64 (loaded giveBack guestState host) =
      .ok [0x00#8, 0x00#8, 0x80#8, 0xD2#8, 0xC0#8, 0x03#8, 0x5F#8, 0xD6#8] := by
  have hvalid : isValidPC 0x10000#64 (loaded giveBack guestState host) = true := rfl
  have hdecode : decodeBlock giveBack (offsets 0 giveBack.length) 0x10000#64 =
      .ok [⟨.jalr, [.register 0, .register 1, .immediate 0#64], 0x8067#32, 0x10000#64⟩] := rfl
  obtain ⟨l, hlift⟩ : ∃ l, Lifter.init.liftBasicBlock id
      [⟨.jalr, [.register 0, .register 1, .immediate 0#64], 0x8067#32, 0x10000#64⟩] =
        .ok (⟨[], .ret none⟩, l) := ⟨_, rfl⟩
  have htranslate : translateToARM64 ⟨[], .ret none⟩ =
      .ok [.twoOperand .mov .x X0 (.immediate 0#64), .twoOperand .ret .x X30 X30] := rfl
  rw [translateBlock, hvalid]
  simp only [loaded, BitVec.sub_self, BitVec.toNat_zero, hdecode, bind, Except.bind, hlift, htranslate]
  rfl

theorem spin_translateBlock (guestState : BitVec 64) (host : A64.Cpu) :
    translateBlock id 0x10000#64 (loaded spin guestState host) =
      .ok [0x81#8, 0x00#8, 0x80#8, 0xD2#8, 0x21#8, 0x00#8, 0xA0#8, 0xF2#8,
        0x20#8, 0x00#8, 0xA0#8, 0xD2#8, 0xC0#8, 0x03#8, 0x5F#8, 0xD6#8] := by
  have hvalid : isValidPC 0x10000#64 (loaded spin guestState host) = true := rfl
  have hdecode : decodeBlock spin (offsets 0 spin.length) 0x10000#64 =
      .ok [⟨.jal, [.register 0, .immediate 0#64], 0x6F#32, 0x10000#64⟩] := rfl
  obtain ⟨l, hlift⟩ : ∃ l, Lifter.init.liftBasicBlock id
      [⟨.jal, [.register 0, .immediate 0#64], 0x6F#32, 0x10000#64⟩] =
        .ok (⟨[⟨1, .const .i64 0x10004#64⟩], .branch 0x10000#64⟩, l) := ⟨_, rfl⟩
  -- the return address is built in `X1` although nothing reads it
  have htranslate : translateToARM64 ⟨[⟨1, .const .i64 0x10004#64⟩], .branch 0x10000#64⟩ =
      .ok [.moveWide .movz .x (.register (.x 1)) 4#16 0#8,
        .moveWide .movk .x (.register (.x 1)) 1#16 16#8,
        .moveWide .movz .x X0 1#16 16#8, .twoOperand .ret .x X30 X30] := rfl
  rw [translateBlock, hvalid]
  simp only [loaded, BitVec.sub_self, BitVec.toNat_zero, hdecode, bind, Except.bind, hlift, htranslate]
  rfl

/-- Code that returns, and restores what its caller expects. -/
theorem executeBlock_of_run {text : List (BitVec 8)} {guestState nextPC : BitVec 64}
    {host cpu : A64.Cpu} {b : BitVec 8} {machineCode : List (BitVec 8)}
    (htranslate : translateBlock id 0x10000#64 (loaded text guestState host) =
      .ok (b :: machineCode))
    (hrun : ExecutionEngine.run (ExecutionEngine.permitted guestState host.mem) (b :: machineCode)
      { host with x := Function.update host.x 0 guestState } = .ok (cpu, host.x 30))
    (hrestored : ExecutionEngine.Restored host cpu) (hpc : cpu.x 0 = nextPC) :
    executeBlock id 0x10000#64 (loaded text guestState host) =
      .ok (nextPC, loaded text guestState cpu) := by
  rw [executeBlock, htranslate]
  simp only [loaded, ExecutionEngine.executeBlock, List.isEmpty_cons, Bool.false_eq_true, false_or,
    reduceCtorEq, if_false, bind, Except.bind, pure, Except.pure, hrun, hrestored, and_self,
    not_true_eq_false, hpc]

theorem giveBack_executeBlock (guestState : BitVec 64) (host : A64.Cpu) :
    ∃ host', executeBlock id 0x10000#64 (loaded giveBack guestState host) =
      .ok (0#64, loaded giveBack guestState host') := by
  have hrun (p : A64.Access → Bool) : ∃ cpu, ExecutionEngine.run p
      [0x00#8, 0x00#8, 0x80#8, 0xD2#8, 0xC0#8, 0x03#8, 0x5F#8, 0xD6#8]
      { host with x := Function.update host.x 0 guestState } = .ok (cpu, host.x 30) ∧
        ExecutionEngine.Restored host cpu ∧ cpu.x 0 = 0#64 := by
    refine ⟨_, rfl, ⟨rfl, fun n hlow _ => ?_⟩, rfl⟩
    fin_cases n <;> first
      | rfl
      | exact absurd hlow (by decide)
  obtain ⟨cpu, hrun, hrestored, hpc⟩ := hrun (ExecutionEngine.permitted guestState host.mem)
  exact ⟨cpu, executeBlock_of_run (giveBack_translateBlock guestState host) hrun hrestored hpc⟩

theorem spin_executeBlock (guestState : BitVec 64) (host : A64.Cpu) :
    ∃ host', executeBlock id 0x10000#64 (loaded spin guestState host) =
      .ok (0x10000#64, loaded spin guestState host') := by
  have hrun (p : A64.Access → Bool) : ∃ cpu, ExecutionEngine.run p
      [0x81#8, 0x00#8, 0x80#8, 0xD2#8, 0x21#8, 0x00#8, 0xA0#8, 0xF2#8,
        0x20#8, 0x00#8, 0xA0#8, 0xD2#8, 0xC0#8, 0x03#8, 0x5F#8, 0xD6#8]
      { host with x := Function.update host.x 0 guestState } = .ok (cpu, host.x 30) ∧
        ExecutionEngine.Restored host cpu ∧ cpu.x 0 = 0x10000#64 := by
    refine ⟨_, rfl, ⟨rfl, fun n hlow _ => ?_⟩, rfl⟩
    fin_cases n <;> first
      | rfl
      | exact absurd hlow (by decide)
  obtain ⟨cpu, hrun, hrestored, hpc⟩ := hrun (ExecutionEngine.permitted guestState host.mem)
  exact ⟨cpu, executeBlock_of_run (spin_translateBlock guestState host) hrun hrestored hpc⟩

theorem loaded_setField (text : List (BitVec 8)) (guestState value : BitVec 64) (host : A64.Cpu)
    (offset : ℕ) : (loaded text guestState host).setField offset value = loaded text guestState
      { host with mem := store host.mem (guestState + BitVec.ofNat 64 offset) 8 value } := rfl

theorem giveBack_dispatch {n : ℕ} (hn : 0 < n) (last : Option (BitVec 64))
    (guestState : BitVec 64) (host : A64.Cpu) : ∃ t', dispatch id n 0x10000#64 last
      (loaded giveBack guestState host) = .ok (some 0#64, t') := by
  obtain ⟨n, rfl⟩ := Nat.exists_eq_succ_of_ne_zero hn.ne'
  obtain ⟨host', hstep⟩ := giveBack_executeBlock guestState
    { host with mem := store host.mem (guestState + BitVec.ofNat 64 PC_OFFSET) 8 0x10000#64 }
  refine ⟨loaded giveBack guestState host', ?_⟩
  rw [dispatch]
  simp [loaded_setField, hstep, bind, Except.bind, pure, Except.pure]

theorem spin_dispatch {n : ℕ} (hn : 0 < n) (last : Option (BitVec 64)) (guestState : BitVec 64)
    (host : A64.Cpu) : ∃ t', dispatch id n 0x10000#64 last (loaded spin guestState host) =
      .ok (some 0x10000#64, t') := by
  induction n generalizing last host with
  | zero => omega
  | succ n ih =>
    obtain ⟨host', hstep⟩ := spin_executeBlock guestState
      { host with mem := store host.mem (guestState + BitVec.ofNat 64 PC_OFFSET) 8 0x10000#64 }
    rw [dispatch]
    simp only [loaded_setField, hstep, bind, Except.bind]
    cases n with
    | zero => exact ⟨_, rfl⟩
    | succ n => exact ih (Nat.succ_pos n) (some 0x10000#64) host'

theorem executeFunction_dispatch (name : String) {text : List (BitVec 8)} {base entry : BitVec 64}
    {last : Option (BitVec 64)} (h : dispatch order MAX_EXECUTION_BLOCKS entry none
      (t.start text base entry) = .ok (last, t')) :
    executeFunction order text base name (some entry) t = .ok (t'.getReturnValue, t') := by
  simp only [executeFunction, h, bind, Except.bind]
  rfl

theorem executeFunction_finished_iff_giveBack : ∃ value t',
    executeFunction id giveBack 0x10000#64 "main" (some 0x10000#64) idle = .ok (value, t') ∧
      (dispatch id MAX_EXECUTION_BLOCKS 0x10000#64 none
          (idle.start giveBack 0x10000#64 0x10000#64) = .ok (some 0#64, t') ↔
        Returns id (idle.start giveBack 0x10000#64 0x10000#64) 0x10000#64
          MAX_EXECUTION_BLOCKS) := by
  obtain ⟨t', hrun⟩ := giveBack_dispatch (n := MAX_EXECUTION_BLOCKS) (by decide) none 0x1000#64
    (idle.start giveBack 0x10000#64 0x10000#64).host
  have h := executeFunction_dispatch (t := idle) "main" hrun
  exact ⟨_, t', h, executeFunction_finished_iff h⟩

/-- The loop is given up after `MAX_EXECUTION_BLOCKS` blocks, and `a0` is reported. -/
theorem executeFunction_spin : ∃ value t',
    executeFunction id spin 0x10000#64 "main" (some 0x10000#64) idle = .ok (value, t') ∧
      dispatch id MAX_EXECUTION_BLOCKS 0x10000#64 none
        (idle.start spin 0x10000#64 0x10000#64) = .ok (some 0x10000#64, t') := by
  obtain ⟨t', hrun⟩ := spin_dispatch (n := MAX_EXECUTION_BLOCKS) (by decide) none 0x1000#64
    (idle.start spin 0x10000#64 0x10000#64).host
  exact ⟨_, t', executeFunction_dispatch (t := idle) "main" hrun, hrun⟩

end DinoRisc.BinaryTranslator
