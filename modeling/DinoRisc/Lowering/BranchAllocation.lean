import DinoRisc.Lowering.BlockCorrect
import DinoRisc.Lowering.BranchTemps

/-!
The allocation of a block that ends in a conditional branch. A target constant that takes the
register of the condition does no harm: the condition has been tested before.
-/

namespace DinoRisc

open Arm64 IR InstructionSelector LivenessAnalysis RegisterAllocator

namespace Arm64

variable {out out' : Set Place} {code code' : List Instruction} {inst : Instruction} {p : Place}
  {ρ : VirtualRegister → Register}

theorem live_append (out : Set Place) (code code' : List Instruction) :
    live out (code ++ code') = live (live out code') code := by
  induction code with
  | nil => rfl
  | cons inst rest ih => rw [List.cons_append, live, live, ih]

theorem live_mono (h : out ⊆ out') : live out code ⊆ live out' code := by
  induction code with
  | nil => exact h
  | cons inst rest ih => exact Set.union_subset_union_right _ (Set.sdiff_subset_sdiff_left ih)

theorem compatible_cons : Compatible ρ out (inst :: code) ↔
    (∀ p, inst.target = some p → ∀ q ∈ live out code, q.rename ρ = p.rename ρ → q = p) ∧
      Compatible ρ out code := by
  constructor
  · intro h
    exact ⟨fun p => h [] inst code p rfl, h.tail⟩
  · rintro ⟨hinst, hrest⟩ before other after p hsplit
    cases before with
    | nil =>
      cases hsplit
      exact hinst p
    | cons first before =>
      cases hsplit
      exact hrest before other after p rfl

theorem Compatible.append (h : Compatible ρ (live out code') code) (h' : Compatible ρ out code') :
    Compatible ρ out (code ++ code') := by
  induction code with
  | nil => exact h'
  | cons inst rest ih =>
    obtain ⟨hinst, hrest⟩ := compatible_cons.mp h
    rw [List.cons_append]
    apply compatible_cons.mpr
    rw [live_append]
    exact ⟨hinst, ih hrest⟩

theorem Compatible.left (h : Compatible ρ out (code ++ code')) :
    Compatible ρ (live out code') code := by
  rintro before inst after p rfl htarget q hq
  exact h before inst (after ++ code') p (by simp) htarget q (by rwa [live_append])

theorem Compatible.anti (h : Compatible ρ out' code) (hsub : out ⊆ out') : Compatible ρ out code :=
  fun before inst after p hsplit htarget q hq => h before inst after p hsplit htarget q (live_mono hsub hq)

end Arm64

variable {code code' before after mid rest : Code} {inst user : Arm64.Instruction}
  {c t f x d v : VirtualRegister} {s : RegisterAllocator} {p : Place} {out : Set Place}
  {ρ : VirtualRegister → Register}

namespace InstructionSelector

theorem Loads.live_subset (h : Loads p code) : live out code ⊆ out \ {p} := by
  intro q hq
  rcases Arm64.live_subset (h.closed ∅) hq with hq | hq
  · exact hq.elim
  · rwa [h.targets] at hq

theorem Loads.compatible (h : Loads p code) (hout : ∀ q ∈ out, q.rename ρ = p.rename ρ → q = p) :
    Compatible ρ out code := by
  rintro before inst after q rfl htarget r hr heq
  obtain rfl : q = p := Option.some.inj (htarget.symm.trans (h.target inst (by simp)))
  rcases mem_live hr with ⟨_, user, _, rfl, hsource, -⟩ | ⟨hr, -⟩
  · exact h.sources user (by simp) r hsource
  · exact hout r hr heq

section

variable {trueBlock falseBlock : BitVec 64}

theorem live_select : live {.physical (.x 0)} [.conditionalSelect .csel .x (.virtual x) (.virtual t)
    (.virtual f) .ne, .twoOperand .mov .x X0 (.virtual x)] ⊆ {.virtual t, .virtual f} := by
  intro q hq
  simp [live, Instruction.sources, Instruction.reads, Instruction.target, Operand.place, X0] at hq
  tauto

theorem live_branch : live {.physical (.x 0)} (branchBody c t f x trueBlock falseBlock ++
    [.twoOperand .mov .x X0 (.virtual x)]) ⊆ {.virtual c} := by
  have ht := selectConstIntoRegister_loads (.virtual t) rfl .i64 trueBlock
  have hf := selectConstIntoRegister_loads (.virtual f) rfl .i64 falseBlock
  rw [branchBody, List.cons_append, List.append_assoc, List.append_assoc, live]
  rintro q (hq | ⟨hq, -⟩)
  · simpa [Instruction.sources, Instruction.reads, Operand.place] using hq
  · rw [live_append, live_append] at hq
    obtain ⟨hq, hqt⟩ := ht.live_subset hq
    obtain ⟨hq, hqf⟩ := hf.live_subset hq
    rcases live_select hq with hq | hq
    · exact absurd hq hqt
    · exact absurd hq hqf

theorem compatible_branch (hne : ρ t ≠ ρ f) : Compatible ρ {.physical (.x 0)}
    (branchBody c t f x trueBlock falseBlock ++ [.twoOperand .mov .x X0 (.virtual x)]) := by
  have ht := selectConstIntoRegister_loads (.virtual t) rfl .i64 trueBlock
  have hf := selectConstIntoRegister_loads (.virtual f) rfl .i64 falseBlock
  have hselect : Compatible ρ {.physical (.x 0)} [.conditionalSelect .csel .x (.virtual x)
      (.virtual t) (.virtual f) .ne, .twoOperand .mov .x X0 (.virtual x)] := by
    apply compatible_cons.mpr
    constructor
    · rintro p htarget q hq -
      cases htarget
      simpa [live, Instruction.sources, Instruction.reads, Instruction.target, Operand.place, X0]
        using hq
    · apply compatible_cons.mpr
      constructor
      · rintro p htarget q hq -
        cases htarget
        exact hq
      · rintro before inst after p hsplit
        simp at hsplit
  rw [branchBody, List.cons_append, List.append_assoc, List.append_assoc]
  apply compatible_cons.mpr
  constructor
  · rintro p htarget
    cases htarget
  · refine (ht.compatible ?_).append ((hf.compatible ?_).append hselect)
    · intro q hq heq
      rw [live_append] at hq
      obtain ⟨hq, hqf⟩ := hf.live_subset hq
      exact (live_select hq).resolve_right hqf
    · intro q hq heq
      rcases live_select hq with rfl | hq
      · exact absurd (Place.physical.inj heq) hne
      · exact hq

end

theorem Clustered.notMem_targets (h : Clustered (before ++ inst :: after))
    (hv : .virtual v ∈ targets before) (hd : inst.target ≠ some (.virtual v)) :
    .virtual v ∉ targets (inst :: after) := by
  rintro ⟨last, hlast, htarget⟩
  obtain ⟨first, hfirst, hv⟩ := hv
  obtain ⟨i, hi⟩ := List.mem_iff_getElem?.mp hfirst
  obtain ⟨j, hj⟩ := List.mem_iff_getElem?.mp hlast
  have hik := (List.getElem?_eq_some_iff.mp hi).1
  cases j with
  | zero =>
    cases hj
    exact hd htarget
  | succ j =>
    refine hd (h i before.length (before.length + (j + 1)) first inst last v hik (by omega) ?_ ?_ ?_
      hv htarget).1
    · rwa [List.getElem?_append_left hik]
    · simp
    · rwa [List.getElem?_append_right (by omega), Nat.add_sub_cancel_left]

theorem Clustered.notMem_after (h : Clustered (before ++ inst :: mid ++ user :: after))
    (hd : inst.target = some (.virtual d)) (hv : .virtual v ∈ user.sources) (hvd : v ≠ d) :
    .virtual d ∉ targets after := by
  rintro ⟨last, hlast, htarget⟩
  obtain ⟨k, hk⟩ := List.mem_iff_getElem?.mp hlast
  have hlength : (before ++ inst :: mid).length = before.length + 1 + mid.length := by
    rw [List.length_append, List.length_cons]
    omega
  have hself := (h before.length (before.length + 1 + mid.length) (before.length + 1 + mid.length + 1 + k)
    inst user last d (by omega) (by omega) (by simp) ?_ ?_ hd htarget).2 _ hv
  · exact hvd (Place.virtual.inj hself)
  · rw [← hlength, List.getElem?_append_right le_rfl, Nat.sub_self]
    rfl
  · rw [← hlength, Nat.add_assoc, List.getElem?_append_right (by omega), Nat.add_sub_cancel_left,
      Nat.add_comm 1 k]
    exact hk

end InstructionSelector

/-- A register that is read behind the last write of `d`, and not written again before, overlaps the
interval of `d`. -/
theorem registerOf_ne_of_split (hemitted : ∀ inst ∈ code, inst.Emitted)
    (halloc : Allocates s (computeLiveIntervals (code ++ selectRet)))
    (hcode : code = before ++ inst :: mid ++ user :: after)
    (hv : .virtual v ∈ targets before) (hd : inst.target = some (.virtual d))
    (hsource : .virtual v ∈ user.sources) (hlast : .virtual v ∉ targets (inst :: mid ++ user :: after))
    (hafter : .virtual d ∉ targets after) : s.registerOf v ≠ s.registerOf d := by
  obtain ⟨first, hfirst, hv⟩ := hv
  obtain ⟨i, hi⟩ := List.mem_iff_getElem?.mp hfirst
  have hik := (List.getElem?_eq_some_iff.mp hi).1
  obtain ⟨j, hj⟩ : ∃ j, before.length + 1 + mid.length = j := ⟨_, rfl⟩
  have hlength : (before ++ inst :: mid).length = j := by
    rw [← hj, List.length_append, List.length_cons]
    omega
  replace hi : code[i]? = some first := by
    rw [hcode, List.append_assoc, List.getElem?_append_left hik, hi]
  have hk : code[before.length]? = some inst := by simp [hcode]
  have huser : code[j]? = some user := by
    rw [hcode, ← hlength, List.getElem?_append_right le_rfl, Nat.sub_self]
    rfl
  have hnot {l : ℕ} {other : Arm64.Instruction} (hkl : before.length ≤ l)
      (hl : code[l]? = some other) : other.target ≠ some (.virtual v) := by
    intro htarget
    rw [hcode, List.append_assoc, List.getElem?_append_right hkl] at hl
    exact hlast ⟨other, List.mem_of_getElem? hl, htarget⟩
  obtain ⟨a, ha, rfl, -, hadef, hause⟩ := interval_of_defines
    (defines_selectRet.mpr (defines_of_target hemitted hi hv))
  obtain ⟨b, hb, rfl, hbstart, hbdef, -⟩ := interval_of_defines
    (defines_selectRet.mpr (defines_of_target hemitted hk hd))
  obtain ⟨lastA, hlastA, htargetA⟩ := target_of_defines hemitted (defines_selectRet.mp hadef)
  obtain ⟨lastB, hlastB, htargetB⟩ := target_of_defines hemitted (defines_selectRet.mp hbdef)
  have hstarts : a.start < b.start := by
    refine lt_of_lt_of_le ?_ hbstart
    by_contra hle
    exact hnot (not_lt.mp hle) hlastA htargetA
  have hread : j ≤ a.stop :=
    hause j (uses_selectRet.mpr (uses_of_source huser hsource (hnot (by omega) huser)))
  have hbefore : b.start ≤ j := by
    by_contra hlt
    rw [hcode, List.getElem?_append_right (by omega)] at hlastB
    obtain ⟨k, hk⟩ : ∃ k, b.start - (before ++ inst :: mid).length = k + 1 :=
      ⟨b.start - j - 1, by omega⟩
    rw [hk, List.getElem?_cons_succ] at hlastB
    exact hafter ⟨lastB, List.mem_of_getElem? hlastB, htargetB⟩
  exact registerOf_ne halloc ha hb hstarts (hbefore.trans hread)

/-- The last instruction writes `c`, from nothing else. -/
def LastWrite (c : VirtualRegister) (code : Code) : Prop :=
  ∃ front last, code = front ++ [last] ∧ last.target = some (.virtual c) ∧
    ∀ p ∈ last.sources, p = .virtual c

theorem LastWrite.reader (h : LastWrite c code)
    (hcode : code ++ [.twoOperand .cmp .x (.virtual c) (.immediate 0#64)] = before ++ user :: after)
    (hafter : .virtual c ∉ targets after) : ∀ p ∈ user.sources, p = .virtual c := by
  obtain ⟨front, last, rfl, htarget, hsources⟩ := h
  rw [List.append_assoc] at hcode
  rcases List.append_eq_append_iff.mp hcode with ⟨mid, -, hmid⟩ | ⟨mid, -, hmid⟩
  · rcases mid with _ | ⟨first, _ | ⟨second, mid⟩⟩
    · cases hmid
      exact hsources
    · cases hmid
      simp [Instruction.sources, Instruction.reads, Operand.place]
    · simp at hmid
  · cases mid with
    | nil =>
      cases hmid
      exact hsources
    | cons first mid =>
      cases hmid
      exact absurd ⟨last, by simp, htarget⟩ hafter

theorem LastWrite.mem_targets (h : LastWrite c code)
    (hcode : code ++ [.twoOperand .cmp .x (.virtual c) (.immediate 0#64)] = before ++ after)
    (hafter : 2 ≤ after.length) : .virtual c ∈ targets after := by
  obtain ⟨front, last, rfl, htarget, -⟩ := h
  rw [List.append_assoc] at hcode
  refine ⟨last, ?_, htarget⟩
  rcases List.append_eq_append_iff.mp hcode with ⟨mid, -, hmid⟩ | ⟨mid, -, rfl⟩
  · rcases mid with _ | ⟨first, mid⟩
    · rw [List.nil_append] at hmid
      simp [← hmid]
    · have hlength := congrArg List.length hmid
      simp only [List.length_append, List.length_cons, List.length_nil] at hlength
      omega
  · simp

section

variable {trueBlock falseBlock : BitVec 64}

theorem targets_branch (c t f x : VirtualRegister) (trueBlock falseBlock : BitVec 64) :
    targets (branchBody c t f x trueBlock falseBlock ++
    [.twoOperand .mov .x X0 (.virtual x)]) =
      {.virtual t, .virtual f, .virtual x, .physical (.x 0)} := by
  have hmov : targets [.twoOperand .mov .x X0 (.virtual x)] = {.physical (.x 0)} := by
    ext p
    simp [targets, Instruction.target, Operand.place, X0, eq_comm]
  rw [targets_append, targets_branchBody, hmov]
  ext p
  simp only [Set.mem_union, Set.mem_insert_iff, Set.mem_singleton_iff, or_assoc]

variable (hemitted : ∀ inst ∈ code ++ branchBody c t f x trueBlock falseBlock ++
    [.twoOperand .mov .x X0 (.virtual x)], inst.Emitted)
  (halloc : Allocates s (computeLiveIntervals (code ++ branchBody c t f x trueBlock falseBlock ++
    [.twoOperand .mov .x X0 (.virtual x)] ++ selectRet)))
  (htf : t ≠ f) (htx : t ≠ x)

include hemitted halloc htf htx

/-- The two target constants are read together. -/
theorem registerOf_targets_ne : s.registerOf t ≠ s.registerOf f := by
  have ht := selectConstIntoRegister_loads (.virtual t) rfl .i64 trueBlock
  have hf := selectConstIntoRegister_loads (.virtual f) rfl .i64 falseBlock
  obtain ⟨inits, last, hlast⟩ := (List.eq_nil_or_concat _).resolve_left hf.ne
  have hcode : code ++ branchBody c t f x trueBlock falseBlock ++
      [.twoOperand .mov .x X0 (.virtual x)] =
        (code ++ .twoOperand .cmp .x (.virtual c) (.immediate 0#64) ::
          (selectConstIntoRegister .i64 trueBlock (.virtual t) ++ inits)) ++ last :: [] ++
        .conditionalSelect .csel .x (.virtual x) (.virtual t) (.virtual f) .ne ::
          [.twoOperand .mov .x X0 (.virtual x)] := by
    simp [branchBody, hlast]
  have hd : last.target = some (.virtual f) := hf.target last (by simp [hlast])
  refine registerOf_ne_of_split hemitted halloc hcode ?_ hd ?_ ?_ ?_
  · rw [targets_append, targets_cons, targets_append, ht.targets]
    exact .inr (.inr (.inl rfl))
  · simp [Instruction.sources, Instruction.reads, Operand.place]
  · rw [List.cons_append, targets_cons, hd]
    simpa [targets, Instruction.target, Operand.place, X0, eq_comm] using And.intro htf htx
  · simp [targets, Instruction.target, Operand.place, X0]

variable (hclustered : Clustered code)
  (hx : .virtual x ∉ targets code)
  (hkeep : ∀ v, v = t ∨ v = f → .virtual v ∈ targets code → v = c ∧ LastWrite c code)

omit htf htx

include hclustered hx hkeep

/-- What the block itself keeps apart stays apart in front of a conditional branch. -/
theorem registerOf_ne_before_branch
    (h : Interferes (code ++ [.twoOperand .cmp .x (.virtual c) (.immediate 0#64)]) d v) :
    s.registerOf v ≠ s.registerOf d := by
  obtain ⟨hvd, before, inst, mid, user, rest, hsplit, hd, hsource, hbefore, -⟩ := h
  obtain ⟨tail, htail⟩ : ∃ tail, branchBody c t f x trueBlock falseBlock ++
      [.twoOperand .mov .x X0 (.virtual x)] =
        .twoOperand .cmp .x (.virtual c) (.immediate 0#64) :: tail := ⟨_, rfl⟩
  have htargets (w : VirtualRegister) : .virtual w ∈ targets tail ↔ w = t ∨ w = f ∨ w = x := by
    have hall := targets_branch c t f x trueBlock falseBlock
    rw [htail, targets_cons] at hall
    have hmem := Set.ext_iff.mp hall (.virtual w)
    simpa [Instruction.target] using hmem
  have hcmp : targets [.twoOperand .cmp .x (.virtual c) (.immediate 0#64)] = ∅ := by
    simp [targets, Instruction.target]
  have hwhole : Clustered (before ++ inst :: mid ++ user :: rest) := by
    rw [← hsplit]
    exact hclustered.append (clustered_of_length (by simp)) fun vreg _ => by simp [hcmp]
  have hcode {w : VirtualRegister} (hw : .virtual w ∈ targets (before ++ inst :: mid)) :
      .virtual w ∈ targets code := by
    have hmem : .virtual w ∈ targets (before ++ inst :: mid ++ user :: rest) := by
      rw [targets_append]
      exact .inl hw
    rwa [← hsplit, targets_append, hcmp, Set.union_empty] at hmem
  have hv : .virtual v ∈ targets (before ++ inst :: mid) := by
    rw [targets_append]
    exact .inl hbefore
  have hd' : .virtual d ∈ targets (before ++ inst :: mid) :=
    ⟨inst, by simp, hd⟩
  have hassoc : before ++ inst :: mid ++ user :: rest = before ++ inst :: (mid ++ user :: rest) := by
    simp
  have hlength : 2 ≤ (inst :: (mid ++ user :: rest)).length := by
    rw [List.length_cons, List.length_append, List.length_cons]
    omega
  have hvlast : .virtual v ∉ targets (inst :: (mid ++ user :: rest)) := by
    refine (hassoc ▸ hwhole).notMem_targets hbefore ?_
    rw [hd]
    exact fun heq => hvd (Place.virtual.inj (Option.some.inj heq)).symm
  have hdlast : .virtual d ∉ targets rest := hwhole.notMem_after hd hsource hvd
  have hfull : code ++ branchBody c t f x trueBlock falseBlock ++
      [.twoOperand .mov .x X0 (.virtual x)] = before ++ inst :: mid ++ user :: (rest ++ tail) := by
    rw [List.append_assoc, htail, List.append_cons, hsplit]
    simp
  refine registerOf_ne_of_split hemitted halloc hfull hbefore hd hsource ?_ ?_
  · rw [← List.cons_append, ← List.append_assoc, targets_append]
    rintro (hmem | hmem)
    · exact hvlast (by simpa using hmem)
    · rcases or_assoc.mpr ((htargets v).mp hmem) with hvt | rfl
      · obtain ⟨rfl, hlast⟩ := hkeep v hvt (hcode hv)
        exact hvlast (hlast.mem_targets (hsplit.trans hassoc) hlength)
      · exact hx (hcode hv)
  · rw [targets_append]
    rintro (hmem | hmem)
    · exact hdlast hmem
    · rcases or_assoc.mpr ((htargets d).mp hmem) with hdt | rfl
      · obtain ⟨rfl, hlast⟩ := hkeep d hdt (hcode hd')
        exact hvd (Place.virtual.inj (hlast.reader hsplit hdlast _ hsource))
      · exact hx (hcode hd')

include htf htx

theorem compatible_of_branch (hclosed : Scoped {.physical (.x 0)} code)
    (hfresh : ∀ p ∈ targets code, ∃ vreg, p = .virtual vreg) (hc : .virtual c ∈ targets code) :
    Compatible s.registerOf {.physical (.x 0)} (code ++ branchBody c t f x trueBlock falseBlock ++
      [.twoOperand .mov .x X0 (.virtual x)]) := by
  have hbefore : Compatible s.registerOf {.physical (.x 0)}
      (code ++ [.twoOperand .cmp .x (.virtual c) (.immediate 0#64)]) := by
    refine compatible_of_separate (hclosed.append ⟨?_, trivial⟩) halloc.registerOf_ne_X0 ?_ ?_
    · rintro p hp
      obtain rfl : p = .virtual c := by
        simpa [Instruction.sources, Instruction.reads, Operand.place] using hp
      exact .inr hc
    · intro p hp
      rw [targets_append] at hp
      rcases hp with hp | hp
      · exact .inr (hfresh p hp)
      · simp [targets, Instruction.target] at hp
    · intro d v
      exact registerOf_ne_before_branch hemitted halloc hclustered hx hkeep
  rw [List.append_assoc]
  refine Compatible.append (hbefore.left.anti ?_)
    (compatible_branch (registerOf_targets_ne hemitted halloc htf htx))
  refine live_branch.trans ?_
  rintro p rfl
  simp [live, Instruction.sources, Instruction.reads, Operand.place]

end

end DinoRisc
