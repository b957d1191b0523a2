import DinoRisc.Lowering.ShadowRegion
import DinoRisc.Lowering.StateFrame

/-!
The loads and stores of the code of a block: those of the guest state, at its fields, and those that
the guest makes.
-/

namespace DinoRisc

open Arm64 IR ByteMemory InstructionSelector

section

variable {code : Code} {m m' : Machine} {access : A64.Access}

/-- Code that keeps `X0` accesses the places that `X0` leads to, and those of its other accesses. -/
theorem mem_transfers (h : Reaches code m m') (hX0 : .physical (.x 0) ∉ targets code)
    (hmem : access ∈ transfers code m) : (access.address, access.size) ∈ Arm64.accesses code m ∨
      ∃ opcode size offset, (opcode, size, offset) ∈ code.filterMap Arm64.Instruction.stateAccess ∧
        access = ⟨opcode = .str, m.address X0 offset, size.bytes⟩ := by
  induction h with
  | nil m => cases hmem
  | @cons inst rest m₁ m₂ m₃ hstep _ ih =>
    rw [targets_cons, Set.mem_union, not_or] at hX0
    rw [transfers, hstep, List.mem_append, Option.mem_toList] at hmem
    rcases hmem with hmem | hmem
    · rcases Arm64.Instruction.transfer_cases hmem with haccess | ⟨opcode, size, reg, offset, rfl, rfl⟩
      · left
        rw [Arm64.accesses, haccess]
        exact List.mem_cons_self
      · exact .inr ⟨opcode, size, offset, List.mem_cons_self, rfl⟩
    · have hbase : m₂.reg (.physical (.x 0)) = m₁.reg (.physical (.x 0)) :=
        exec_frame hstep fun heq => hX0.1 heq
      rcases ih hX0.2 hmem with haccess | ⟨opcode, size, offset, hstate, rfl⟩
      · left
        rw [Arm64.accesses, hstep]
        exact List.mem_append_right _ haccess
      · refine .inr ⟨opcode, size, offset, ?_, ?_⟩
        · obtain ⟨i, hi, hstate⟩ := List.mem_filterMap.mp hstate
          exact List.mem_filterMap.mpr ⟨i, List.mem_cons_of_mem _ hi, hstate⟩
        · simp only [Machine.address, X0, Machine.read, hbase]

end

namespace Layout

variable {L : Layout}

/-- A load of the guest state, or a store to one of its registers. -/
def InState (L : Layout) (access : A64.Access) : Prop :=
  Within L.state (if access.isStore then 32 * REGISTER_SIZE_BYTES else GUEST_STATE_SIZE)
    access.address access.size

theorem within_field {o n k : ℕ} (ho : o + n ≤ k) : Within L.state k (L.field o) n := by
  have hsub : L.field o - L.state = BitVec.ofNat 64 o := by
    rw [field]
    ring
  rw [Within, hsub, BitVec.toNat_ofNat]
  omega

theorem within_host {a : BitVec 64} {n : ℕ} (h : L.valid a n = true) :
    Within L.shadowMemory L.shadowMemorySize (L.host a) n := by
  have hsub : L.host a - L.shadowMemory = a - L.guestMemoryBase := by
    rw [host]
    ring
  rw [Within, hsub]
  simpa [valid] using h

end Layout

namespace InstructionSelector

variable {L : Layout} {m : Machine} {block : BasicBlock} {g g' : Guest} {pc : BitVec 64}
  {code : Code} {σ : InstructionSelector}

theorem inState_of_stateAccess (hstate : m.reg (.physical (.x 0)) = L.state)
    (hregister : ∀ inst ∈ block.instructions, ∀ r, inst.kind.register = some r → r < 32)
    {opcode : Opcode} {size : DataSize} {offset : BitVec 32}
    (h : (opcode, size, offset) ∈ block.instructions.flatMap fun inst => inst.kind.stateAccesses) :
    L.InState ⟨opcode = .str, m.address X0 offset, size.bytes⟩ := by
  obtain ⟨inst, hinst, haccess⟩ := List.mem_flatMap.mp h
  have hfield {o : ℕ} (ho : o + 8 ≤ GUEST_STATE_SIZE) :
      m.address X0 (BitVec.ofNat 32 o) = L.field o :=
    address_X0 hstate (lt_of_lt_of_le (Nat.lt_add_of_pos_right (by decide)) ho)
  have hr {r : ℕ} (hr : inst.kind.register = some r) :
      r * REGISTER_SIZE_BYTES + 8 ≤ 32 * REGISTER_SIZE_BYTES := by
    have hlt := hregister inst hinst r hr
    simp only [REGISTER_SIZE_BYTES]
    omega
  have hsize : 32 * REGISTER_SIZE_BYTES ≤ GUEST_STATE_SIZE := by decide
  rcases mem_stateAccesses haccess with ⟨r, hkind, heq⟩ | heq | heq | ⟨r, hwritten, heq⟩ <;> cases heq
  · have hle := hr (r := r) (by rw [hkind]; rfl)
    rw [registerOffset, hfield (hle.trans hsize)]
    exact Layout.within_field (hle.trans hsize)
  · rw [hfield (by decide)]
    exact Layout.within_field (Nat.le_of_ble_eq_true rfl)
  · rw [hfield (by decide)]
    exact Layout.within_field (Nat.le_of_ble_eq_true rfl)
  · have hle := hr (register_of_written hwritten)
    rw [registerOffset, hfield (hle.trans hsize)]
    exact Layout.within_field hle

theorem register_lt {instructions : List IR.Instruction} {Γ Γ' : Types}
    (h : WellTyped Γ instructions Γ') :
    ∀ inst ∈ instructions, ∀ r, inst.kind.register = some r → r < 32 := by
  induction h with
  | nil => simp
  | cons hfresh hlow _ ih =>
    refine List.forall_mem_cons.mpr ⟨fun r hr => ?_, ih⟩
    generalize IR.Instruction.kind _ = kind at hlow hr
    cases hlow <;> first
      | (cases hr; done)
      | (cases hr; assumption)

/-- Where the code of a block that only makes allowed accesses loads and stores. -/
theorem selectInstructions_transfers (hblock : block.WellTyped)
    (heval : evalBlock L.valid block g = some (g', pc))
    (hstate : m.reg (.physical (.x 0)) = L.state) (hguest : Represents L m.mem g)
    (hselect : init.selectInstructions block = .ok (code, σ)) :
    ∀ access ∈ transfers code m, L.InState access ∨
      ∃ a ∈ IR.accesses block.instructions ⟨fun _ => none, g⟩, L.valid a.1 a.2 = true ∧
        (access.address, access.size) = L.hostAccess a := by
  obtain ⟨Γ, hinsts, -⟩ := hblock
  replace hinsts : WellTyped (EvalState.env ⟨fun _ => none, g⟩).types block.instructions Γ := hinsts
  simp only [evalBlock, Option.bind_eq_bind, Option.bind_eq_some_iff] at heval
  obtain ⟨s, heval, -⟩ := heval
  have hallowed := evalInstructions_allowed heval
  obtain ⟨code₁, σ₁, code₂, hok₁, hok₂, rfl⟩ := selectInstructions_eq_ok.mp hselect
  obtain ⟨hselects, -⟩ := selectAll_selects .init hinsts hok₁
  obtain ⟨m₁, hreach, -⟩ := reaches_of_emitted hselects.emitted m
  have hX0 : .physical (.x 0) ∉ targets code₁ := by
    intro hmem
    obtain ⟨vreg, hvreg, -⟩ := hselects.fresh _ hmem
    cases hvreg
  have hnone : ∀ i ∈ ([] : Code), ∀ m, i.access m = none := by simp
  have hlower := selectAll_accesses (k := (Arm64.accesses code₁ m).length) hinsts
    (simulates_init hstate hguest) hok₁ hnone fun a ha => hallowed a (List.mem_of_mem_take ha)
  rw [List.append_nil, List.take_of_length_le (Nat.le_succ _)] at hlower
  intro access hmem
  rw [hreach.transfers, transfers_eq_nil (selectTerminator_transfer hok₂), List.append_nil] at hmem
  rcases mem_transfers hreach hX0 hmem with haccess | ⟨opcode, size, offset, haccess, rfl⟩
  · rw [hlower] at haccess
    obtain ⟨a, ha, heq⟩ := List.mem_map.mp haccess
    have ha := List.mem_of_mem_take ha
    exact .inr ⟨a, ha, hallowed a ha, heq.symm⟩
  · rw [hselects.accesses] at haccess
    exact .inl (inState_of_stateAccess hstate (register_lt hinsts) haccess)

end InstructionSelector

end DinoRisc
