import DinoRisc.Arm64.Effect

/-!
An allocation keeps the meaning of straight-line code if no register is written while it holds
another place that is still to be read.
-/

namespace DinoRisc.Arm64

variable {out : Set Place} {code before after : List Instruction} {inst : Instruction} {p : Place}
  {ρ : VirtualRegister → Register} {m m' n : Machine}

/-- The places that are read, by the code or behind it, before they are written. -/
def live (out : Set Place) : List Instruction → Set Place
  | [] => out
  | inst :: rest => {p | p ∈ inst.sources} ∪ (live out rest \ {p | inst.target = some p})

theorem mem_live (h : p ∈ live out code) :
    (∃ before inst after, code = before ++ inst :: after ∧ p ∈ inst.sources ∧
      p ∉ targets before) ∨ p ∈ out ∧ p ∉ targets code := by
  induction code with
  | nil => exact .inr ⟨h, by simp [targets]⟩
  | cons first rest ih =>
    rcases h with h | ⟨hlive, htarget⟩
    · exact .inl ⟨[], first, rest, rfl, h, by simp [targets]⟩
    · rcases ih hlive with ⟨before, inst, after, rfl, hp, hnot⟩ | ⟨hp, hnot⟩
      · refine .inl ⟨first :: before, inst, after, rfl, hp, ?_⟩
        rw [targets_cons]
        exact fun hmem => hmem.elim htarget hnot
      · refine .inr ⟨hp, ?_⟩
        rw [targets_cons]
        exact fun hmem => hmem.elim htarget hnot

/-- What an instruction writes is in no register with a place that is live behind it. -/
def Compatible (ρ : VirtualRegister → Register) (out : Set Place) (code : List Instruction) : Prop :=
  ∀ before inst after p, code = before ++ inst :: after → inst.target = some p →
    ∀ q ∈ live out after, q.rename ρ = p.rename ρ → q = p

theorem Compatible.tail (h : Compatible ρ out (inst :: code)) : Compatible ρ out code := by
  rintro before other after p rfl
  exact h (inst :: before) other after p rfl

/-- Two machines agree on the places of `scope`, up to the allocation. -/
structure Agree (ρ : VirtualRegister → Register) (scope : Set Place) (m m' : Machine) : Prop where
  reg : ∀ p ∈ scope, m'.reg (p.rename ρ) = m.reg p
  flags : m'.flags = m.flags
  mem : m'.mem = m.mem

theorem exec_agree {scope : Set Place} (hagree : Agree ρ ({p | p ∈ inst.sources} ∪ scope) m m')
    (hcompat : ∀ p, inst.target = some p → ∀ q ∈ scope, q ≠ p → q.rename ρ ≠ p.rename ρ)
    (hstep : exec inst m = some (.next n)) :
    ∃ n', exec (inst.rename ρ) m' = some (.next n') ∧
      Agree ρ (scope ∪ {p | inst.target = some p}) n n' := by
  rw [← exec_rename (fun p hp => hagree.reg p (.inl hp)) hagree.flags hagree.mem]
  rw [Instruction.exec_eq_effect] at hstep
  cases heffect : inst.effect m.read m.flags m.mem with
  | none =>
    rw [heffect] at hstep
    cases hstep
  | some effect =>
    rw [heffect, Option.bind_some] at hstep
    rw [Option.bind_some]
    cases effect with
    | write value =>
      cases htarget : inst.target with
      | none =>
        rw [htarget] at hstep
        cases hstep
      | some d =>
        rw [htarget] at hstep
        cases hstep
        refine ⟨m'.set (d.rename ρ) value, rfl, ?_, hagree.flags, hagree.mem⟩
        intro q hq
        by_cases hqd : q = d
        · simp [hqd]
        · have hscope : q ∈ scope := by
            rcases hq with hq | hq
            · exact hq
            · exact absurd (Option.some.inj hq).symm hqd
          rw [Machine.set_reg_ne _ _ _ (hcompat d htarget q hscope hqd),
            Machine.set_reg_ne _ _ _ hqd]
          exact hagree.reg q (.inr hscope)
    | compare flags =>
      have htarget := (Instruction.target_of_effect heffect).resolve_left (by simp)
      cases hstep
      exact ⟨{ m' with flags := flags }, rfl, by simpa [htarget] using fun q hq => hagree.reg q (.inr hq),
        rfl, hagree.mem⟩
    | store mem =>
      have htarget := (Instruction.target_of_effect heffect).resolve_left (by simp)
      cases hstep
      exact ⟨{ m' with mem := mem }, rfl, by simpa [htarget] using fun q hq => hagree.reg q (.inr hq),
        hagree.flags, rfl⟩
    | jump address => cases hstep

theorem transfer_agree (hagree : Agree ρ {p | p ∈ inst.sources} m m')
    (hstep : exec inst m = some (.next n)) : (inst.rename ρ).transfer m' = inst.transfer m := by
  cases inst with
  | memory opcode size reg baseReg offset =>
    have hbase : m'.read (baseReg.rename ρ) = m.read baseReg := by
      have hsource {p : Place} (hp : baseReg.place = some p) :
          p ∈ (Instruction.memory opcode size reg baseReg offset).sources := by
        cases opcode <;> first
          | (cases hstep; done)
          | simp [Instruction.sources, Instruction.reads, hp]
      cases baseReg with
      | immediate value => rfl
      | register r => exact hagree.reg (.physical r) (hsource rfl)
      | virtual vreg => exact hagree.reg (.virtual vreg) (hsource rfl)
    simp only [Instruction.rename, Instruction.transfer, Machine.address, hbase]
  | _ => rfl

theorem reaches_agree (h : Reaches code m n) (hcompat : Compatible ρ out code)
    (hagree : Agree ρ (live out code) m m') :
    ∃ n', Reaches (code.map (Instruction.rename ρ)) m' n' ∧ Agree ρ out n n' ∧
      transfers (code.map (Instruction.rename ρ)) m' = transfers code m := by
  induction h generalizing m' with
  | nil m => exact ⟨m', .nil m', hagree, rfl⟩
  | @cons inst rest m₁ m₂ m₃ hstep _ ih =>
    have hall : Agree ρ ({p | p ∈ inst.sources} ∪ (live out rest \ {p | inst.target = some p})) m₁ m' :=
      hagree
    have htransfer := transfer_agree ⟨fun p hp => hall.reg p (.inl hp), hall.flags, hall.mem⟩ hstep
    obtain ⟨n₁, hstep', hagree'⟩ := exec_agree hall
      (fun p hp q hq hne heq => hne (hcompat [] inst rest p rfl hp q hq.1 heq)) hstep
    have hrest : Agree ρ (live out rest) m₂ n₁ := by
      refine ⟨fun q hq => hagree'.reg q ?_, hagree'.flags, hagree'.mem⟩
      by_cases hqt : inst.target = some q
      · exact .inr hqt
      · exact .inl ⟨hq, hqt⟩
    obtain ⟨n', hreach, hout, htransfers⟩ := ih hcompat.tail hrest
    refine ⟨n', .cons hstep' hreach, hout, ?_⟩
    simp only [List.map_cons, transfers, hstep, hstep', htransfer, htransfers]

theorem live_subset {places : Set Place} (h : Scoped places code) :
    live out code ⊆ places ∪ (out \ targets code) := by
  intro p hp
  rcases mem_live hp with ⟨before, inst, after, rfl, hsource, hnot⟩ | hp
  · exact .inl ((h.split p hsource).resolve_right hnot)
  · exact .inr hp

theorem rename_renamed {final : List Instruction} (hfinal : final = code.map (Instruction.rename ρ))
    (hinst : inst ∈ final) (hp : p ∈ inst.sources ∨ inst.target = some p) : p.rename ρ = p := by
  subst hfinal
  obtain ⟨inst, -, rfl⟩ := List.mem_map.mp hinst
  have hrenamed : ∃ q : Place, q.rename ρ = p := by
    rcases hp with hp | hp
    · rw [Instruction.sources_rename] at hp
      obtain ⟨q, -, hq⟩ := List.mem_map.mp hp
      exact ⟨q, hq⟩
    · rw [Instruction.target_rename] at hp
      obtain ⟨q, -, hq⟩ := Option.map_eq_some_iff.mp hp
      exact ⟨q, hq⟩
  obtain ⟨q, rfl⟩ := hrenamed
  obtain ⟨reg, hreg⟩ := q.rename_physical ρ
  rw [hreg]
  rfl

/-- The final value of a register that the code writes does not depend on its initial value. -/
theorem reaches_independent {places : Set Place} {r : Register} {final : List Instruction}
    (hfinal : final = code.map (Instruction.rename ρ)) (hclosed : Scoped places final)
    (hplaces : .physical r ∉ places) (hr : .physical r ∈ targets final) (h : Reaches final m n)
    (value : BitVec 64) :
    ∃ n', Reaches final (m.set (.physical r) value) n' ∧
      n'.reg (.physical r) = n.reg (.physical r) := by
  have hsame : final.map (Instruction.rename ρ) = final := by
    rw [hfinal, List.map_map]
    congr 1
    funext inst
    exact inst.rename_rename ρ ρ
  have hlive : ∀ before after, final = before ++ after → ∀ q ∈ live {.physical r} after,
      q.rename ρ = q := by
    rintro before after hsplit q hq
    rcases mem_live hq with ⟨_, other, _, rfl, hsource, -⟩ | ⟨rfl, -⟩
    · exact rename_renamed hfinal (by simp [hsplit]) (.inl hsource)
    · rfl
  have hcompat : Compatible ρ {.physical r} final := by
    rintro before inst after p hsplit htarget q hq heq
    rwa [hlive (before ++ [inst]) after (by simp [hsplit]) q hq,
      rename_renamed hfinal (by simp [hsplit]) (.inr htarget)] at heq
  have hagree : Agree ρ (live {.physical r} final) m (m.set (.physical r) value) := by
    refine ⟨fun p hp => ?_, rfl, rfl⟩
    rw [hlive [] final rfl p hp]
    refine Machine.set_reg_ne _ _ _ ?_
    rintro rfl
    rcases live_subset hclosed hp with hp | ⟨-, hp⟩
    · exact hplaces hp
    · exact hp hr
  obtain ⟨n', hreach, hout, -⟩ := reaches_agree h hcompat hagree
  rw [hsame] at hreach
  exact ⟨n', hreach, hout.reg (.physical r) rfl⟩

end DinoRisc.Arm64
