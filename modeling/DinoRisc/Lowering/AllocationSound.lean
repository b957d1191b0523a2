import DinoRisc.Arm64.Renaming
import DinoRisc.Lowering.Translated

/-!
The allocator's registers are compatible with the selected code, where every virtual register is
defined in one place.
-/

namespace DinoRisc

open Arm64 IR InstructionSelector LivenessAnalysis RegisterAllocator

variable {code straight before after : Code} {inst : Arm64.Instruction}
  {vreg d v : VirtualRegister} {s : RegisterAllocator} {i j k : ℕ}

namespace LivenessAnalysis

/-- Only a `MOVK` reads a register that the analysis does not see, and it writes it as well. -/
theorem uses_of_source (hi : code[i]? = some inst) (hsource : .virtual vreg ∈ inst.sources)
    (htarget : inst.target ≠ some (.virtual vreg)) : Uses code i vreg := by
  rcases used_of_source hsource with hused | ⟨size, imm16, shift, rfl⟩
  · exact ⟨inst, hi, hused⟩
  · exact absurd rfl htarget

theorem defines_selectRet : Defines (straight ++ selectRet) i vreg ↔ Defines straight i vreg := by
  simp [selectRet, defines_snoc, getDefinedVirtualRegisters, getVirtualRegisterFromOperand, X30]

theorem uses_selectRet : Uses (straight ++ selectRet) i vreg ↔ Uses straight i vreg := by
  simp [selectRet, uses_snoc, getUsedVirtualRegisters, getVirtualRegisterFromOperand, X30]

theorem target_of_defines (hemitted : ∀ inst ∈ code, inst.Emitted) (h : Defines code i vreg) :
    ∃ inst, code[i]? = some inst ∧ inst.target = some (.virtual vreg) := by
  obtain ⟨inst, hi, hdef⟩ := h
  exact ⟨inst, hi, (defined_iff (hemitted inst (List.mem_of_getElem? hi))).mp hdef⟩

theorem interval_of_defines (h : Defines code i vreg) :
    ∃ interval ∈ computeLiveIntervals code, interval.virtualRegister = vreg ∧
      i ≤ interval.start ∧ Defines code interval.start vreg ∧
      ∀ j, Uses code j vreg → j ≤ interval.stop :=
  ⟨_, mem_computeLiveIntervals.mpr ⟨vreg, ⟨i, h⟩, rfl⟩, rfl, (defSites_last h).2,
    (defSites_last h).1, fun _ => le_stop⟩

end LivenessAnalysis

/-- `d` is written while `v` holds a value that is still to be read. -/
def Interferes (code : Code) (d v : VirtualRegister) : Prop :=
  v ≠ d ∧ ∃ before inst mid user rest, code = before ++ inst :: mid ++ user :: rest ∧
    inst.target = some (.virtual d) ∧ .virtual v ∈ user.sources ∧ .virtual v ∈ targets before ∧
    .virtual v ∉ targets mid

theorem compatible_of_separate {ρ : VirtualRegister → Register}
    (hclosed : Scoped {.physical (.x 0)} straight) (hX0 : ∀ vreg, ρ vreg ≠ .x 0)
    (htargets : ∀ p ∈ targets straight, p = .physical (.x 0) ∨ ∃ vreg, p = .virtual vreg)
    (hsep : ∀ d v, Interferes straight d v → ρ v ≠ ρ d) :
    Compatible ρ {.physical (.x 0)} straight := by
  rintro before inst after p rfl htarget q hq heq
  have hphysical {r : Register} (hr : .physical r ∈ live {.physical (.x 0)} after) : r = .x 0 := by
    rcases mem_live hr with ⟨mid, user, rest, rfl, hsource, -⟩ | ⟨hr, -⟩
    · have hall : before ++ inst :: (mid ++ user :: rest) = (before ++ inst :: mid) ++ user :: rest := by
        simp
      rw [hall] at hclosed htargets
      rcases hclosed.split _ hsource with hr | hr
      · exact Place.physical.inj hr
      · rw [targets_append] at htargets
        rcases htargets _ (.inl hr) with hr | ⟨vreg, hr⟩
        · exact Place.physical.inj hr
        · cases hr
    · exact Place.physical.inj hr
  rcases htargets p ⟨inst, by simp, htarget⟩ with rfl | ⟨d, rfl⟩
  · cases q with
    | physical r => rw [hphysical hq]
    | virtual v => exact absurd (Place.physical.inj heq) (hX0 v)
  · cases q with
    | physical r =>
      rw [hphysical hq] at heq
      exact absurd (Place.physical.inj heq).symm (hX0 d)
    | virtual v =>
      by_contra hne
      have hvd : v ≠ d := fun h => hne (by rw [h])
      rcases mem_live hq with ⟨mid, user, rest, rfl, hsource, hnot⟩ | ⟨hv, -⟩
      · have hall : before ++ inst :: (mid ++ user :: rest) = before ++ inst :: mid ++ user :: rest := by
          simp
        have hsplit := hclosed
        rw [hall] at hsplit
        have hbefore : .virtual v ∈ targets before := by
          rcases hsplit.split _ hsource with hv | hv
          · cases hv
          · rw [targets_append, targets_cons] at hv
            rcases hv with hv | hv | hv
            · exact hv
            · exact absurd (Place.virtual.inj (Option.some.inj (htarget.symm.trans hv))).symm hvd
            · exact absurd hv hnot
        exact hsep d v ⟨hvd, before, inst, mid, user, rest, hall, htarget, hsource, hbefore, hnot⟩
          (Place.physical.inj heq)
      · cases hv

theorem registerOf_ne {a b : LiveInterval}
    (halloc : Allocates s (computeLiveIntervals code)) (ha : a ∈ computeLiveIntervals code)
    (hb : b ∈ computeLiveIntervals code) (hlt : a.start < b.start) (hle : b.start ≤ a.stop) :
    s.registerOf a.virtualRegister ≠ s.registerOf b.virtualRegister := by
  have hne := halloc.separate b hb a ha hlt hle
  obtain ⟨r, hr⟩ := halloc.assigned a ha
  obtain ⟨q, hq⟩ := halloc.assigned b hb
  simpa [registerOf, hr, hq] using hne

/-- Where the definitions of each register are clustered, its interval covers all its uses. -/
theorem separate_of_clustered (hemitted : ∀ inst ∈ straight, inst.Emitted)
    (hclustered : Clustered straight)
    (halloc : Allocates s (computeLiveIntervals (straight ++ selectRet)))
    (h : Interferes straight d v) : s.registerOf v ≠ s.registerOf d := by
  obtain ⟨hvd, before, inst, mid, user, rest, rfl, hd, hsource, ⟨first, hfirst, hv⟩, hnot⟩ := h
  obtain ⟨i, hi⟩ := List.mem_iff_getElem?.mp hfirst
  have hik := (List.getElem?_eq_some_iff.mp hi).1
  obtain ⟨straight, hstraight⟩ : ∃ l, before ++ inst :: mid ++ user :: rest = l := ⟨_, rfl⟩
  obtain ⟨j, hj⟩ : ∃ j, before.length + 1 + mid.length = j := ⟨_, rfl⟩
  replace hi : straight[i]? = some first := by
    rw [← hstraight, List.append_assoc, List.getElem?_append_left hik, hi]
  have hk : straight[before.length]? = some inst := by simp [← hstraight]
  have hlength : (before ++ inst :: mid).length = j := by
    rw [← hj, List.length_append, List.length_cons]
    omega
  have huser : straight[j]? = some user := by
    rw [← hstraight, ← hlength, List.getElem?_append_right le_rfl, Nat.sub_self]
    rfl
  rw [hstraight] at hemitted hclustered halloc
  -- `v` is not defined again
  have hlast {l : ℕ} {other : Arm64.Instruction} (hkl : before.length < l)
      (hl : straight[l]? = some other) : other.target ≠ some (.virtual v) := by
    intro htarget
    have hmid := (hclustered i _ l first inst other v hik hkl hi hk hl hv htarget).1
    rw [hd] at hmid
    exact hvd (Place.virtual.inj (Option.some.inj hmid)).symm
  obtain ⟨a, ha, rfl, -, hadef, hause⟩ := interval_of_defines
    (defines_selectRet.mpr (defines_of_target hemitted hi hv))
  obtain ⟨b, hb, rfl, hbstart, hbdef, -⟩ := interval_of_defines
    (defines_selectRet.mpr (defines_of_target hemitted hk hd))
  obtain ⟨lastA, hlastA, htargetA⟩ := target_of_defines hemitted (defines_selectRet.mp hadef)
  obtain ⟨lastB, hlastB, htargetB⟩ := target_of_defines hemitted (defines_selectRet.mp hbdef)
  have hstarts : a.start < b.start := by
    refine lt_of_lt_of_le ?_ hbstart
    rcases Nat.lt_trichotomy a.start before.length with h | h | h
    · exact h
    · rw [h, hk] at hlastA
      cases hlastA
      rw [hd] at htargetA
      exact absurd (Place.virtual.inj (Option.some.inj htargetA)).symm hvd
    · exact absurd htargetA (hlast h hlastA)
  have hread : j ≤ a.stop :=
    hause j (uses_selectRet.mpr (uses_of_source huser hsource (hlast (by omega) huser)))
  have hbefore : b.start ≤ j := by
    by_contra hlt
    have hself := (hclustered before.length j b.start inst user lastB _ (by omega) (by omega) hk huser
      hlastB hd htargetB).2 _ hsource
    exact hvd (Place.virtual.inj hself)
  exact registerOf_ne halloc ha hb hstarts (hbefore.trans hread)

/-! ### Blocks without a conditional branch -/

namespace InstructionSelector

variable {σ : InstructionSelector} {block : BasicBlock}

theorem Clustered.left (h : Clustered (straight ++ after)) : Clustered straight := by
  intro i j k first mid last vreg hij hjk hi hj hk
  have hlt := (List.getElem?_eq_some_iff.mp hk).1
  refine h i j k first mid last vreg hij hjk ?_ ?_ ?_
  · rwa [List.getElem?_append_left (by omega)]
  · rwa [List.getElem?_append_left (by omega)]
  · rwa [List.getElem?_append_left hlt]

theorem clustered_of_targets (h : ∀ vreg, .virtual vreg ∉ targets code) : Clustered code := by
  intro i j k first mid last vreg hij hjk hi hj hk hfirst
  exact absurd ⟨first, List.mem_of_getElem? hi, hfirst⟩ (h vreg)

theorem targets_selectRet : targets selectRet = ∅ := by
  simp [targets, selectRet, Instruction.target]

theorem selectTerminator_targets {terminator : Terminator} {σ' : InstructionSelector}
    (hbranch : ∀ c t f, terminator ≠ .condBranch c t f)
    (hok : σ.selectTerminator terminator = .ok (code, σ')) (vreg : VirtualRegister) :
    .virtual vreg ∉ targets code := by
  have hconst (value : BitVec 64) :
      .virtual vreg ∉ targets (selectConstIntoRegister .i64 value X0 ++ selectRet) := by
    have htargets : targets (selectConstIntoRegister .i64 value X0) = {.physical (.x 0)} :=
      (selectConstIntoRegister_loads (.general 0) rfl .i64 value).targets
    rw [targets_append, targets_selectRet, Set.union_empty, htargets]
    rintro heq
    cases heq
  cases terminator with
  | branch target =>
    cases hok
    exact hconst target
  | condBranch c t f => exact absurd rfl (hbranch c t f)
  | ret value =>
    cases value with
    | none =>
      cases hok
      exact hconst 0#64
    | some value =>
      simp only [selectTerminator, bind, Except.bind] at hok
      split at hok
      · cases hok
      · cases hok
        simp [targets, selectRet, Instruction.target, Operand.place, X0]

theorem selectInstructions_clustered (hblock : block.WellTyped)
    (hok : init.selectInstructions block = .ok (code, σ))
    (hbranch : ∀ c t f, block.terminator ≠ .condBranch c t f) : Clustered code := by
  obtain ⟨Γ, hinsts, hterm⟩ := hblock
  obtain ⟨code₁, σ₁, code₂, hok₁, hok₂, rfl⟩ := selectInstructions_eq_ok.mp hok
  obtain ⟨hselects, -⟩ := selectAll_selects .init hinsts hok₁
  have htargets := selectTerminator_targets hbranch hok₂
  exact hselects.clustered.append (clustered_of_targets htargets) fun vreg _ => htargets vreg

end InstructionSelector

section

variable {body ending : Code} {σ : InstructionSelector} {block : BasicBlock}

theorem compatible_of_interferes (hbody : Body {.physical (.x 0)} body)
    (hending : Ending ({.physical (.x 0)} ∪ targets body) ending)
    (halloc : Allocates s (computeLiveIntervals (body ++ ending ++ selectRet)))
    (hsep : ∀ d v, Interferes (body ++ ending) d v → s.registerOf v ≠ s.registerOf d) :
    Compatible s.registerOf {.physical (.x 0)} (body ++ ending) := by
  refine compatible_of_separate (hbody.closed.append hending.closed) halloc.registerOf_ne_X0 ?_ hsep
  intro p hp
  rw [targets_append] at hp
  rcases hp with hp | ⟨inst, hinst, hp⟩
  · exact .inr (hbody.fresh p hp)
  · exact .inl (Option.some.inj (hp.symm.trans (hending.target inst hinst)))

/-- The renamed code leaves the same memory and the same next program counter, by the same loads and
stores. -/
theorem run_rename (hbody : Body {.physical (.x 0)} body)
    (hending : Ending ({.physical (.x 0)} ∪ targets body) ending)
    (hcompat : Compatible s.registerOf {.physical (.x 0)} (body ++ ending)) (m : Machine) :
    ∃ n n', run (body ++ ending ++ selectRet) m = some (n, n.reg (.physical (.x 30))) ∧
      run ((body ++ ending ++ selectRet).map (Instruction.rename s.registerOf)) m =
        some (n', n'.reg (.physical (.x 30))) ∧
      n'.reg (.physical (.x 0)) = n.reg (.physical (.x 0)) ∧ n'.mem = n.mem ∧
      transfers ((body ++ ending ++ selectRet).map (Instruction.rename s.registerOf)) m =
        transfers (body ++ ending ++ selectRet) m := by
  have hemitted := List.forall_mem_append.mpr ⟨hbody.emitted, hending.emitted⟩
  obtain ⟨n, hreach, -⟩ := reaches_of_emitted hemitted m
  have hagree : Agree s.registerOf (live {.physical (.x 0)} (body ++ ending)) m m := by
    refine ⟨fun p hp => ?_, rfl, rfl⟩
    rcases live_subset (hbody.closed.append hending.closed) hp with rfl | ⟨rfl, -⟩ <;> rfl
  obtain ⟨n', hreach', hout, htransfers⟩ := reaches_agree hreach hcompat hagree
  refine ⟨n, n', ?_, ?_, hout.reg _ rfl, hout.mem, ?_⟩
  · rw [hreach.run]
    rfl
  · rw [List.map_append, rename_ret, hreach'.run]
    rfl
  · rw [List.map_append, rename_ret, hreach'.transfers, hreach.transfers, htransfers]
    rfl

end

end DinoRisc
