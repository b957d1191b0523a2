import DinoRisc.Lowering.SelectorCorrect

/-!
Where the translated code of a block accesses the memory of the host: there is no bounds check, so
each access is at the host address of the guest's access.
-/

namespace DinoRisc

open Arm64 IR ByteMemory InstructionSelector

namespace Layout

variable (L : Layout)

def Inside (access : Access) : Prop :=
  ∀ i < access.2, InRange L.shadowMemory L.shadowMemorySize (access.1 + BitVec.ofNat 64 i)

theorem shadowMemorySize_lt : L.shadowMemorySize < 2 ^ 64 := by
  by_contra hle
  refine L.disjoint L.state ?_ ?_
  · simp [InRange, GUEST_STATE_SIZE]
  · exact lt_of_lt_of_le (BitVec.isLt _) (not_lt.mp hle)

theorem inside_hostAccess_iff {access : Access} (hpos : 0 < access.2) (hle : access.2 ≤ 8) :
    L.Inside (L.hostAccess access) ↔ L.valid access.1 access.2 = true := by
  obtain ⟨a, n⟩ := access
  dsimp only at hpos hle
  simp only [Inside, hostAccess, host_add, host_inRange]
  constructor
  · intro h
    have hlt := L.shadowMemorySize_lt
    have hoff (i : ℕ) : (a + BitVec.ofNat 64 i - L.guestMemoryBase).toNat =
        ((a - L.guestMemoryBase).toNat + i) % 2 ^ 64 := by
      have heq : a + BitVec.ofNat 64 i - L.guestMemoryBase =
          a - L.guestMemoryBase + BitVec.ofNat 64 i := by ring
      rw [heq, BitVec.toNat_add, BitVec.toNat_ofNat, Nat.add_mod_mod]
    have hfirst := h 0 hpos
    rw [hoff, Nat.add_zero, Nat.mod_eq_of_lt (BitVec.isLt _)] at hfirst
    by_contra hv
    have hgt : L.shadowMemorySize < (a - L.guestMemoryBase).toNat + n := by
      simpa [valid] using hv
    -- the first byte behind the region
    have hlast := h (L.shadowMemorySize - (a - L.guestMemoryBase).toNat) (by omega)
    rw [hoff, Nat.add_sub_cancel' hfirst.le, Nat.mod_eq_of_lt hlt] at hlast
    exact Nat.lt_irrefl _ hlast
  · intro h i hi
    exact valid_inRange h hi

end Layout

theorem access_bytes {s : EvalState} {inst : IR.Instruction} {access : Access}
    (h : inst.access s = some access) : 0 < access.2 ∧ access.2 ≤ 8 := by
  have hpos (ty : Ty) : 0 < ty.bytes := by cases ty <;> decide
  obtain ⟨id, kind⟩ := inst
  cases kind with
  | load type address =>
    simp only [IR.Instruction.access, Option.map_eq_some_iff] at h
    obtain ⟨a, -, rfl⟩ := h
    exact ⟨hpos type, type.bytes_le⟩
  | store value address =>
    simp only [IR.Instruction.access, Option.bind_eq_bind, Option.bind_eq_some_iff] at h
    obtain ⟨v, -, a, -, heq⟩ := h
    cases heq
    exact ⟨hpos v.ty, v.ty.bytes_le⟩
  | _ => cases h

theorem accesses_bytes {instructions : List IR.Instruction} {s : EvalState} {access : Access}
    (h : access ∈ IR.accesses instructions s) : 0 < access.2 ∧ access.2 ≤ 8 := by
  induction instructions generalizing s with
  | nil => cases h
  | cons inst rest ih =>
    simp only [IR.accesses, List.mem_append, Option.mem_toList] at h
    rcases h with h | h
    · exact access_bytes h
    · split at h
      · exact ih h
      · cases h

theorem forall_mem_iff_of_take {α β : Type*} {f : α → β} {P : α → Prop} {Q : β → Prop}
    {guest : List α} {host : List β} (hf : ∀ a ∈ guest, Q (f a) ↔ P a)
    (h : ∀ k, (∀ a ∈ guest.take k, P a) → host.take (k + 1) = (guest.take (k + 1)).map f) :
    (∀ b ∈ host, Q b) ↔ ∀ a ∈ guest, P a := by
  constructor
  · intro hQ
    have hprefix (k : ℕ) : ∀ a ∈ guest.take k, P a := by
      induction k with
      | zero => simp
      | succ k ih =>
        intro a ha
        have hmem : f a ∈ host.take (k + 1) := by
          rw [h k ih]
          exact List.mem_map_of_mem ha
        exact (hf a (List.mem_of_mem_take ha)).mp (hQ _ (List.mem_of_mem_take hmem))
    have hall := hprefix guest.length
    rwa [List.take_length] at hall
  · intro hP
    have hmap := h guest.length fun a ha => hP a (List.mem_of_mem_take ha)
    rw [List.take_of_length_le (Nat.le_succ _)] at hmap
    have hlen : host.length ≤ guest.length + 1 := by
      have hcount := congrArg List.length hmap
      rw [List.length_take, List.length_map] at hcount
      omega
    rw [List.take_of_length_le hlen] at hmap
    rw [hmap]
    intro b hb
    obtain ⟨a, ha, rfl⟩ := List.mem_map.mp hb
    exact (hf a ha).mpr (hP a ha)

namespace InstructionSelector

variable {L : Layout} {m₀ m : Machine} {σ σ' : InstructionSelector} {s : EvalState} {code : Code}

theorem selectInstruction_accesses {inst : IR.Instruction} {ty : Option Ty}
    (hid : s.env inst.valueId = none) (hlow : Lowerable s.env.types inst.kind ty)
    (h : Simulates L m₀ σ s m) (hok : σ.selectInstruction inst = .ok (code, σ'))
    (hvalid : ∀ access ∈ inst.access s, L.valid access.1 access.2 = true) (rest : Code) :
    ∃ s' m', evalInstruction (fun _ _ => true) s inst = some s' ∧
      Arm64.accesses (code ++ rest) m =
        (inst.access s).toList.map L.hostAccess ++ Arm64.accesses rest m' ∧
      Simulates L m₀ σ' s' m' ∧ s'.env.types = s.env.types.extend inst.valueId ty := by
  obtain ⟨s', hstep⟩ := evalInstruction_progress hlow hvalid
  obtain ⟨code', σ'', m', hok', hreach, h', haccesses⟩ := selectInstruction_step h hid hlow hstep
  cases hok.symm.trans hok'
  refine ⟨s', m', (evalInstruction_valid hvalid).symm.trans hstep, ?_, h',
    evalInstruction_types hlow hstep⟩
  rw [hreach.accesses, haccesses]

/-- As long as the accesses of the guest are in its memory, the next one is made at its host
address. -/
theorem selectAll_accesses {instructions : List IR.Instruction} {Γ : Types}
    (htyped : WellTyped s.env.types instructions Γ) (h : Simulates L m₀ σ s m)
    (hok : σ.selectAll instructions = .ok (code, σ')) {rest : Code}
    (hrest : ∀ i ∈ rest, ∀ m, i.access m = none) {k : ℕ}
    (hvalid : ∀ access ∈ (IR.accesses instructions s).take k, L.valid access.1 access.2 = true) :
    (Arm64.accesses (code ++ rest) m).take (k + 1) =
      ((IR.accesses instructions s).take (k + 1)).map L.hostAccess := by
  induction instructions generalizing σ s m code k with
  | nil =>
    cases hok
    rw [List.nil_append, accesses_eq_nil hrest]
    rfl
  | cons inst instructions ih =>
    cases htyped with
    | cons hfresh hlow htyped =>
      have hid := types_eq_none.mp hfresh
      obtain ⟨code₁, σ₁, code₂, hok₁, hok₂, rfl⟩ := selectAll_cons hok
      rw [List.append_assoc]
      rw [IR.accesses] at hvalid ⊢
      cases ha : inst.access s with
      | none =>
        obtain ⟨s₁, m₁, hstep, haccesses, h₁, htypes⟩ :=
          selectInstruction_accesses hid hlow h hok₁ (by simp [ha]) (code₂ ++ rest)
        rw [ha, hstep] at hvalid
        rw [haccesses, ha, hstep]
        exact ih (htypes ▸ htyped) h₁ hok₂ hvalid
      | some access =>
        cases k with
        | zero =>
          obtain ⟨before, last, σ', m₁, hok', hreach, hnone, hlast⟩ :=
            access_reaches h hid rfl hlow ha
          cases hok₁.symm.trans hok'
          rw [List.append_assoc, hreach.accesses, hnone, List.nil_append, List.singleton_append,
            Arm64.accesses, hlast]
          rfl
        | succ k =>
          have hallowed : ∀ access ∈ inst.access s, L.valid access.1 access.2 = true := by
            intro a hmem
            obtain rfl : access = a := by simpa [ha] using hmem
            exact hvalid access (by simp [ha])
          obtain ⟨s₁, m₁, hstep, haccesses, h₁, htypes⟩ :=
            selectInstruction_accesses hid hlow h hok₁ hallowed (code₂ ++ rest)
          rw [ha, hstep] at hvalid
          rw [haccesses, ha, hstep]
          have hnext := ih (htypes ▸ htyped) h₁ hok₂ (k := k)
            fun a hmem => hvalid a (by simpa using .inr hmem)
          simpa using hnext

theorem selectTerminator_transfer {terminator : Terminator}
    (h : σ.selectTerminator terminator = .ok (code, σ')) :
    ∀ i ∈ code, ∀ m, i.transfer m = none := by
  have hret (value : BitVec 64) : ∀ i ∈ selectConstIntoRegister .i64 value X0 ++ selectRet,
      ∀ m, i.transfer m = none := by
    intro i hi
    rcases List.mem_append.mp hi with hi | hi
    · exact selectConstIntoRegister_transfer _ _ _ i hi
    · obtain rfl := List.mem_singleton.mp hi
      exact fun _ => rfl
  cases terminator with
  | branch target =>
    cases h
    exact hret target
  | condBranch condition trueBlock falseBlock =>
    cases hc : σ.irToVReg condition with
    | none => simp [selectTerminator, selectCondBranch, getVirtualRegisterOrThrow, hc, bind, Except.bind] at h
    | some cond =>
      rw [selectTerminator, selectCondBranch_eq hc] at h
      cases h
      intro i hi
      simp only [branchCode, List.cons_append, List.append_assoc, List.mem_cons, List.mem_append,
        List.not_mem_nil, or_false, false_or, selectRet] at hi
      rcases hi with rfl | hi | hi | rfl | rfl | rfl
      · exact fun _ => rfl
      · exact selectConstIntoRegister_transfer _ _ _ i hi
      · exact selectConstIntoRegister_transfer _ _ _ i hi
      · exact fun _ => rfl
      · exact fun _ => rfl
      · exact fun _ => rfl
  | ret value =>
    cases value with
    | none =>
      cases h
      exact hret 0#64
    | some value =>
      cases hv : σ.irToVReg value with
      | none => simp [selectTerminator, getVirtualRegisterOrThrow, hv, bind, Except.bind] at h
      | some r =>
        simp only [selectTerminator, getVirtualRegisterOrThrow, hv, bind, Except.bind, pure,
          Except.pure] at h
        cases h
        simp [selectRet, Arm64.Instruction.transfer]

section

variable {order : List ℕ → List ℕ} {instructions : List RiscV.Instruction}

/-- The accesses of a block: each is made at the host address of the guest's access, without a
check, as long as the ones before it are allowed; so they lie in the shadow memory if and only if
all accesses of the guest lie in its memory. -/
theorem selectInstructions_accesses_iff (horder : ∀ rs, (order rs).Perm rs) (l : Lifter)
    (hsup : ∀ i ∈ instructions, i.Supported)
    (hlast : ∀ i ∈ instructions.dropLast, i.opcode.isControlTransfer = false)
    {block : BasicBlock} {l' : Lifter}
    (hlift : Lifter.liftBasicBlock order instructions l = .ok (block, l')) (L : Layout) (g : Guest)
    (m : Machine) (hstate : m.reg (.physical (.x 0)) = L.state) (hguest : Represents L m.mem g) :
    ∃ code σ, init.selectInstructions block = .ok (code, σ) ∧
      (∀ k, (∀ access ∈ (IR.accesses block.instructions ⟨fun _ => none, g⟩).take k,
          L.valid access.1 access.2 = true) →
        (Arm64.accesses code m).take (k + 1) =
          ((IR.accesses block.instructions ⟨fun _ => none, g⟩).take (k + 1)).map L.hostAccess) ∧
      ((∀ access ∈ Arm64.accesses code m, L.Inside access) ↔
        ∀ access ∈ IR.accesses block.instructions ⟨fun _ => none, g⟩,
          L.valid access.1 access.2 = true) := by
  obtain ⟨block', l'', hlift', Γ, hinsts, hterm⟩ :=
    Lifter.liftBasicBlock_wellTyped horder l hsup hlast
  cases hlift.symm.trans hlift'
  obtain ⟨code₁, σ₁, hok₁, hcovers⟩ := selectAll_covers .init hinsts
  obtain ⟨code₂, σ₂, hok₂⟩ := selectTerminator_covers hcovers hterm
  have hok : init.selectInstructions block = .ok (code₁ ++ code₂, σ₂) :=
    selectInstructions_eq_ok.mpr ⟨code₁, σ₁, code₂, hok₁, hok₂, rfl⟩
  have hsim : Simulates L m init ⟨fun _ => none, g⟩ m := simulates_init hstate hguest
  replace hinsts : WellTyped (EvalState.env ⟨fun _ => none, g⟩).types block.instructions Γ := hinsts
  have hrest : ∀ i ∈ code₂, ∀ m, i.access m = none := fun i hi m =>
    Arm64.Instruction.access_eq_none (selectTerminator_transfer hok₂ i hi m)
  have htake (k : ℕ) := selectAll_accesses (k := k) hinsts hsim hok₁ hrest
  refine ⟨_, σ₂, hok, htake, forall_mem_iff_of_take ?_ htake⟩
  intro access hmem
  obtain ⟨hpos, hle⟩ := accesses_bytes hmem
  exact L.inside_hostAccess_iff hpos hle

theorem selectInstructions_accesses_iff_storeBranch :
    ∃ code σ, init.selectInstructions storeBranch = .ok (code, σ) ∧
      (∀ k, (∀ access ∈ (IR.accesses storeBranch.instructions ⟨fun _ => none, pointers⟩).take k,
          hostLayout.valid access.1 access.2 = true) →
        (Arm64.accesses code hostMachine).take (k + 1) =
          ((IR.accesses storeBranch.instructions ⟨fun _ => none, pointers⟩).take (k + 1)).map
            hostLayout.hostAccess) ∧
      ((∀ access ∈ Arm64.accesses code hostMachine, hostLayout.Inside access) ↔
        ∀ access ∈ IR.accesses storeBranch.instructions ⟨fun _ => none, pointers⟩,
          hostLayout.valid access.1 access.2 = true) :=
  selectInstructions_accesses_iff (fun rs => List.Perm.refl (id rs)) Lifter.init
    storeBranch_supported storeBranch_dropLast rfl hostLayout pointers hostMachine rfl
    (hostLayout.represents_image pointers)

/-- `sd x5, -0x608(x6)` -/
def storeBelow : RiscV.Instruction :=
  ⟨.sd, [.register 6, .register 5, .immediate ((0x9F8#12).signExtend 64)], 0#32, 0x1000#64⟩

/-- A store below the guest's memory goes through, to other memory of the host. -/
theorem selectInstructions_storeBelow :
    ∃ block l' code σ m', Lifter.liftBasicBlock id [storeBelow] Lifter.init = .ok (block, l') ∧
      init.selectInstructions block = .ok (code, σ) ∧
      Represents hostLayout hostMachine.mem pointers ∧
      run code hostMachine = some (m', 0x100003F00#64) ∧
      Arm64.accesses code hostMachine = [(0x103FFFFF8#64, 8)] ∧
      ¬ hostLayout.Inside (0x103FFFFF8#64, 8) ∧
      ∀ i < 8, hostLayout.Outside (0x103FFFFF8#64 + BitVec.ofNat 64 i) := by
  refine ⟨_, _, _, _, _, rfl, rfl, hostLayout.represents_image pointers, rfl, rfl, ?_, ?_⟩
  · intro h
    exact absurd (h 0 (by decide)) (by decide)
  · unfold Layout.Outside
    decide

end

end InstructionSelector

end DinoRisc
