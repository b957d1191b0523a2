import DinoRisc.Lowering.LivenessAnalysis
import Mathlib

/-!
What the liveness analysis computes: an interval for each virtual register that is defined, from
its last definition to its last use.
-/

namespace DinoRisc.LivenessAnalysis

open Arm64

variable {code : List Instruction} {inst : Instruction} {vreg vreg' : VirtualRegister} {i : ℕ}

def Defines (code : List Instruction) (i : ℕ) (vreg : VirtualRegister) : Prop :=
  ∃ inst, code[i]? = some inst ∧ getDefinedVirtualRegisters inst = some vreg

def Uses (code : List Instruction) (i : ℕ) (vreg : VirtualRegister) : Prop :=
  ∃ inst, code[i]? = some inst ∧ vreg ∈ getUsedVirtualRegisters inst

theorem Defines.lt (h : Defines code i vreg) : i < code.length := by
  obtain ⟨inst, hi, -⟩ := h
  exact (List.getElem?_eq_some_iff.mp hi).1

theorem Uses.lt (h : Uses code i vreg) : i < code.length := by
  obtain ⟨inst, hi, -⟩ := h
  exact (List.getElem?_eq_some_iff.mp hi).1

theorem Defines.unique (h : Defines code i vreg) (h' : Defines code i vreg') : vreg = vreg' := by
  obtain ⟨inst, hi, hdef⟩ := h
  obtain ⟨inst', hi', hdef'⟩ := h'
  cases hi.symm.trans hi'
  exact Option.some.inj (hdef.symm.trans hdef')

theorem getElem?_snoc {other : Instruction} : (code ++ [inst])[i]? = some other ↔
    code[i]? = some other ∨ i = code.length ∧ inst = other := by
  rcases Nat.lt_trichotomy i code.length with h | rfl | h
  · simp [List.getElem?_append_left h, h.ne]
  · simp
  · have hout : (code ++ [inst])[i]? = none := by simp; omega
    rw [hout, List.getElem?_eq_none h.le]
    simp [h.ne']

theorem defines_snoc : Defines (code ++ [inst]) i vreg ↔ Defines code i vreg ∨
    i = code.length ∧ getDefinedVirtualRegisters inst = some vreg := by
  simp only [Defines, getElem?_snoc, or_and_right, exists_or]
  simp

theorem uses_snoc : Uses (code ++ [inst]) i vreg ↔ Uses code i vreg ∨
    i = code.length ∧ vreg ∈ getUsedVirtualRegisters inst := by
  simp only [Uses, getElem?_snoc, or_and_right, exists_or]
  simp

theorem computeUseDef_snoc (code : List Instruction) (inst : Instruction) :
    computeUseDef (code ++ [inst]) = (computeUseDef code).visit inst code.length := by
  simp [computeUseDef, List.zipIdx_append]

theorem mem_defined : vreg ∈ (computeUseDef code).defined ↔ ∃ i, Defines code i vreg := by
  induction code using List.reverseRecOn with
  | nil => simp [computeUseDef, Defines]
  | append_singleton code inst ih =>
    rw [computeUseDef_snoc]
    simp only [defines_snoc, exists_or, ← ih, exists_and_right, exists_eq, true_and, UseDef.visit]
    cases getDefinedVirtualRegisters inst with
    | none => simp
    | some v =>
      rw [List.mem_insert_iff, Option.some.injEq, or_comm, eq_comm (a := vreg)]

theorem defined_nodup (code : List Instruction) : (computeUseDef code).defined.Nodup := by
  induction code using List.reverseRecOn with
  | nil => exact List.nodup_nil
  | append_singleton code inst ih =>
    rw [computeUseDef_snoc, UseDef.visit]
    cases getDefinedVirtualRegisters inst with
    | none => exact ih
    | some v => exact ih.insert

theorem defSites_last (h : Defines code i vreg) :
    Defines code ((computeUseDef code).defSites vreg) vreg ∧
      i ≤ (computeUseDef code).defSites vreg := by
  induction code using List.reverseRecOn with
  | nil => exact absurd h.lt (Nat.not_lt_zero i)
  | append_singleton code inst ih =>
    rw [computeUseDef_snoc, UseDef.visit]
    by_cases hdef : getDefinedVirtualRegisters inst = some vreg
    · have hi : i ≤ code.length := by simpa [Nat.lt_succ_iff] using h.lt
      simp only [hdef, Function.update_self]
      exact ⟨defines_snoc.mpr (.inr ⟨rfl, hdef⟩), hi⟩
    · obtain ⟨hsite, hle⟩ := ih ((defines_snoc.mp h).resolve_right fun hlast => hdef hlast.2)
      have hkept : ((computeUseDef code).visit inst code.length).defSites vreg =
          (computeUseDef code).defSites vreg := by
        rw [UseDef.visit]
        cases hother : getDefinedVirtualRegisters inst with
        | none => rfl
        | some v =>
          refine Function.update_of_ne ?_ ..
          rintro rfl
          exact hdef hother
      rw [UseDef.visit] at hkept
      rw [hkept]
      exact ⟨defines_snoc.mpr (.inl hsite), hle⟩

theorem mem_useSites : i ∈ (computeUseDef code).useSites vreg ↔ Uses code i vreg := by
  induction code using List.reverseRecOn with
  | nil => simp [computeUseDef, Uses]
  | append_singleton code inst ih =>
    have hsites : ((computeUseDef code).visit inst code.length).useSites vreg =
        if vreg ∈ getUsedVirtualRegisters inst then (computeUseDef code).useSites vreg ++ [code.length]
        else (computeUseDef code).useSites vreg := rfl
    rw [computeUseDef_snoc, uses_snoc, ← ih, hsites]
    split <;> simp [*]

/-! ### Intervals -/

theorem foldl_max (site : ℕ) (sites : List ℕ) :
    sites.foldl max site ∈ site :: sites ∧ ∀ i ∈ site :: sites, i ≤ sites.foldl max site := by
  induction sites generalizing site with
  | nil => simp
  | cons next rest ih =>
    obtain ⟨hmem, hle⟩ := ih (max site next)
    rw [List.foldl_cons]
    constructor
    · rcases List.mem_cons.mp hmem with heq | hrest
      · rw [heq]
        rcases max_choice site next with h | h <;> simp [h]
      · simp [hrest]
    · have hmax := hle _ List.mem_cons_self
      intro i hi
      simp only [List.mem_cons] at hi
      rcases hi with rfl | rfl | hi
      · exact (le_max_left ..).trans hmax
      · exact (le_max_right ..).trans hmax
      · exact hle i (List.mem_cons_of_mem _ hi)

theorem le_stop (h : Uses code i vreg) : i ≤ ((computeUseDef code).interval vreg).stop := by
  have hmem := mem_useSites.mpr h
  simp only [UseDef.interval]
  cases hsites : (computeUseDef code).useSites vreg with
  | nil => simp [hsites] at hmem
  | cons site sites =>
    rw [hsites] at hmem
    exact (foldl_max site sites).2 i hmem

theorem stop_cases (code : List Instruction) (vreg : VirtualRegister) :
    ((computeUseDef code).interval vreg).stop = ((computeUseDef code).interval vreg).start ∨
      Uses code ((computeUseDef code).interval vreg).stop vreg := by
  simp only [UseDef.interval]
  cases hsites : (computeUseDef code).useSites vreg with
  | nil => exact .inl rfl
  | cons site sites =>
    right
    rw [← mem_useSites, hsites]
    exact (foldl_max site sites).1

theorem mem_computeLiveIntervals {interval : LiveInterval} :
    interval ∈ computeLiveIntervals code ↔
      ∃ vreg, (∃ i, Defines code i vreg) ∧ (computeUseDef code).interval vreg = interval := by
  simp only [computeLiveIntervals, List.mem_insertionSort, List.mem_map, mem_defined]

theorem computeLiveIntervals_nodup (code : List Instruction) :
    ((computeLiveIntervals code).map LiveInterval.start).Nodup := by
  have hperm : ((computeLiveIntervals code).map LiveInterval.start).Perm
      ((computeUseDef code).defined.map (computeUseDef code).defSites) := by
    have hsort := (List.perm_insertionSort (fun a b : LiveInterval => a.start ≤ b.start)
      ((computeUseDef code).defined.map (computeUseDef code).interval)).map LiveInterval.start
    rwa [List.map_map] at hsort
  refine hperm.nodup_iff.mpr ((List.nodup_map_iff_inj_on (defined_nodup code)).mpr ?_)
  intro v hv v' hv' heq
  obtain ⟨i, hi⟩ := mem_defined.mp hv
  obtain ⟨i', hi'⟩ := mem_defined.mp hv'
  have hsite := (defSites_last hi).1
  rw [heq] at hsite
  exact hsite.unique (defSites_last hi').1

theorem computeLiveIntervals_sorted (code : List Instruction) :
    (computeLiveIntervals code).Pairwise fun a b => a.start < b.start := by
  have hle : (computeLiveIntervals code).Pairwise fun a b => a.start ≤ b.start :=
    List.pairwise_insertionSort ..
  have hne := List.pairwise_map.mp (computeLiveIntervals_nodup code)
  exact (hle.and hne).imp fun h => lt_of_le_of_ne h.1 h.2

end DinoRisc.LivenessAnalysis
