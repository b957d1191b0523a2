import DinoRisc.Library.LinearScan
import DinoRisc.Lowering.LiveIntervals
import DinoRisc.Lowering.RegisterAllocator

/-!
The allocator is a linear scan: when it succeeds, which registers it uses, and which of the virtual
registers can share one.
-/

namespace DinoRisc

open Arm64 LinearScan

/-- The number of intervals that have begun before `point` and reach it. -/
def pressure (intervals : List LiveInterval) (point : ℕ) : ℕ :=
  intervals.countP fun interval => interval.start < point ∧ point ≤ interval.stop

namespace RegisterAllocator

variable {s : RegisterAllocator} {assigned : List (LiveInterval × Register)}
  {interval : LiveInterval} {intervals : List LiveInterval}

theorem availableRegisters_nodup : availableRegisters.Nodup := by decide

theorem length_availableRegisters : availableRegisters.length = 28 := by decide

theorem getNextAvailableRegister_eq (s : RegisterAllocator) : s.getNextAvailableRegister =
    firstFree availableRegisters (s.activeIntervals.map ActiveInterval.physicalReg) := by
  rw [getNextAvailableRegister, firstFree]
  congr 1
  funext reg
  rw [Bool.eq_iff_iff]
  simp

/-- The assignments of a scan over intervals in the order of their starts. -/
abbrev Scanned := Greedy availableRegisters LiveInterval.start LiveInterval.stop

/-- One interval for each virtual register, in the order of their starts. -/
def Ordered (intervals : List LiveInterval) : Prop :=
  intervals.Pairwise fun a b => a.start < b.start ∧ a.virtualRegister ≠ b.virtualRegister

/-- The order that the scan needs: intervals can start together. -/
def InOrder (intervals : List LiveInterval) : Prop :=
  intervals.Pairwise fun a b => a.start ≤ b.start ∧ a.virtualRegister ≠ b.virtualRegister

theorem Ordered.inOrder (h : Ordered intervals) : InOrder intervals :=
  h.imp fun h => ⟨h.1.le, h.2⟩

/-- The state of an allocator after the assignments. -/
structure Tracks (s : RegisterAllocator) (assigned : List (LiveInterval × Register)) : Prop where
  allocation : ∀ vreg r, s.allocation vreg = some r ↔
    ∃ interval, (interval, r) ∈ assigned ∧ interval.virtualRegister = vreg
  active : ∀ point, (∀ a ∈ assigned, a.1.start ≤ point) →
    (s.expireOldIntervals point).activeIntervals.map ActiveInterval.physicalReg =
      held LiveInterval.stop point assigned

theorem tracks_init : Tracks init [] where
  allocation := by simp [init]
  active _ _ := rfl

namespace Tracks

theorem snoc (h : Tracks s assigned) {r : Register}
    (hbefore : ∀ a ∈ assigned, a.1.virtualRegister ≠ interval.virtualRegister) :
    Tracks { allocation := Function.update s.allocation interval.virtualRegister (some r)
             activeIntervals := (s.expireOldIntervals interval.start).activeIntervals ++
               [⟨interval, r⟩] } (assigned ++ [(interval, r)]) where
  allocation vreg q := by
    by_cases hv : vreg = interval.virtualRegister
    · subst hv
      simp only [Function.update_self, Option.some.injEq, List.mem_append, List.mem_singleton,
        Prod.mk.injEq]
      constructor
      · rintro rfl
        exact ⟨interval, .inr ⟨rfl, rfl⟩, rfl⟩
      · rintro ⟨other, hmem | ⟨-, rfl⟩, hother⟩
        · exact absurd hother (hbefore _ hmem)
        · rfl
    · simp only [Function.update_of_ne hv, h.allocation, List.mem_append, List.mem_singleton,
        Prod.mk.injEq]
      constructor
      · rintro ⟨other, hmem, rfl⟩
        exact ⟨other, .inl hmem, rfl⟩
      · rintro ⟨other, hmem | ⟨rfl, -⟩, rfl⟩
        · exact ⟨other, hmem, rfl⟩
        · exact absurd rfl hv
  active point hpoint := by
    have hstart : interval.start ≤ point := hpoint (interval, r) (by simp)
    have hactive := h.active point fun a ha => hpoint a (List.mem_append_left _ ha)
    -- what expires at the start of the interval has expired at `point`
    have hlater : (fun a : ActiveInterval => decide (¬ a.interval.stop < point) &&
        decide (¬ a.interval.stop < interval.start)) = fun a => decide (¬ a.interval.stop < point) := by
      funext a
      rw [Bool.eq_iff_iff]
      simp only [Bool.and_eq_true, decide_eq_true_eq]
      omega
    simp only [expireOldIntervals] at hactive
    simp only [expireOldIntervals, List.filter_append, List.filter_filter, List.map_append,
      hlater, held_append, hactive]
    congr 1
    by_cases hstop : point ≤ interval.stop
    · simp [held, hstop]
    · simp [held, hstop]

end Tracks

theorem allocateInterval_eq (h : Tracks s assigned)
    (hbefore : ∀ a ∈ assigned, a.1.start ≤ interval.start) :
    s.allocateInterval interval =
      (firstFree availableRegisters (held LiveInterval.stop interval.start assigned)).map fun r =>
        { allocation := Function.update s.allocation interval.virtualRegister (some r)
          activeIntervals := (s.expireOldIntervals interval.start).activeIntervals ++
            [⟨interval, r⟩] } := by
  rw [← h.active interval.start hbefore, ← getNextAvailableRegister_eq]
  rfl

theorem allocateIntervals_cases (hscan : Scanned assigned) (h : Tracks s assigned)
    (hordered : InOrder (assigned.map Prod.fst ++ intervals)) :
    (∃ s' assigned', allocateIntervals intervals s = some s' ∧ Tracks s' (assigned ++ assigned') ∧
      Scanned (assigned ++ assigned') ∧ assigned'.map Prod.fst = intervals) ∨
    ∃ assigned' interval after, allocateIntervals intervals s = none ∧
      intervals = assigned'.map Prod.fst ++ interval :: after ∧ Scanned (assigned ++ assigned') ∧
      firstFree availableRegisters
        (held LiveInterval.stop interval.start (assigned ++ assigned')) = none := by
  induction intervals generalizing s assigned with
  | nil => exact .inl ⟨s, [], rfl, by rwa [List.append_nil], by rwa [List.append_nil], rfl⟩
  | cons interval rest ih =>
    have hbefore : ∀ a ∈ assigned, a.1.start ≤ interval.start ∧
        a.1.virtualRegister ≠ interval.virtualRegister := by
      intro a ha
      exact (List.pairwise_append.mp hordered).2.2 a.1 (List.mem_map_of_mem ha) interval
        List.mem_cons_self
    have hstep := allocateInterval_eq h fun a ha => (hbefore a ha).1
    rw [allocateIntervals, hstep]
    cases hfree : firstFree availableRegisters
        (held LiveInterval.stop interval.start assigned) with
    | none => exact .inr ⟨[], interval, rest, rfl, rfl, by rwa [List.append_nil], by
        rwa [List.append_nil]⟩
    | some r =>
      have hnext : InOrder ((assigned ++ [(interval, r)]).map Prod.fst ++ rest) := by
        simpa [List.append_assoc] using hordered
      simp only [Option.map_some, Option.bind_some]
      rcases ih (hscan.snoc hfree) (h.snoc fun a ha => (hbefore a ha).2) hnext with
        ⟨s', assigned', hok, htracks, hscan', hmap⟩ |
        ⟨assigned', other, after, hnone, hsplit, hscan', hfull⟩
      · rw [List.append_assoc] at htracks hscan'
        exact .inl ⟨s', _, hok, htracks, hscan', by simp [hmap]⟩
      · rw [List.append_assoc] at hscan' hfull
        exact .inr ⟨_, other, after, hnone, by simp [hsplit], hscan', hfull⟩

theorem computeLiveIntervals_ordered (code : List Instruction) :
    Ordered (LivenessAnalysis.computeLiveIntervals code) := by
  refine (LivenessAnalysis.computeLiveIntervals_sorted code).imp_of_mem ?_
  intro a b ha hb hlt
  refine ⟨hlt, ?_⟩
  obtain ⟨v, -, rfl⟩ := LivenessAnalysis.mem_computeLiveIntervals.mp ha
  obtain ⟨w, -, rfl⟩ := LivenessAnalysis.mem_computeLiveIntervals.mp hb
  rintro heq
  obtain rfl : v = w := heq
  exact absurd hlt (lt_irrefl _)

theorem Ordered.sorted (h : Ordered (assigned.map Prod.fst)) :
    assigned.Pairwise fun a b => a.1.start ≤ b.1.start :=
  (List.pairwise_map.mp h).imp fun h => h.1.le

/-- The registers held at the start of an interval are those of the intervals that overlap it. -/
theorem length_held {after : List LiveInterval}
    (hordered : Ordered (assigned.map Prod.fst ++ interval :: after)) :
    (held LiveInterval.stop interval.start assigned).length =
      pressure (assigned.map Prod.fst ++ interval :: after) interval.start := by
  obtain ⟨-, hafter, hbefore⟩ := List.pairwise_append.mp hordered
  have hzero : (interval :: after).countP
      (fun other => other.start < interval.start ∧ interval.start ≤ other.stop) = 0 := by
    rw [List.countP_eq_zero]
    intro other hother
    have hle : interval.start ≤ other.start := by
      rcases List.mem_cons.mp hother with rfl | hother
      · exact le_rfl
      · exact ((List.pairwise_cons.mp hafter).1 other hother).1.le
    simp [not_lt.mpr hle]
  rw [pressure, List.countP_append, hzero, Nat.add_zero, List.countP_map, held, List.length_map,
    ← List.countP_eq_length_filter]
  apply List.countP_congr
  intro a ha
  have hlt := (hbefore a.1 (List.mem_map_of_mem ha) interval List.mem_cons_self).1
  simp [hlt]

structure Allocates (s : RegisterAllocator) (intervals : List LiveInterval) : Prop where
  assigned : ∀ interval ∈ intervals, ∃ r, s.allocation interval.virtualRegister = some r
  available : ∀ {vreg r}, s.allocation vreg = some r →
    r ∈ availableRegisters ∧ ∃ interval ∈ intervals, interval.virtualRegister = vreg
  separate : ∀ interval ∈ intervals, ∀ other ∈ intervals, other.start < interval.start →
    interval.start ≤ other.stop →
    s.allocation other.virtualRegister ≠ s.allocation interval.virtualRegister
  used : ∀ n, (∃ vreg r, s.allocation vreg = some r ∧ r ∈ availableRegisters.drop n) ↔
    ∃ interval ∈ intervals, n ≤ pressure intervals interval.start

theorem Tracks.allocates (h : Tracks s assigned) (hscan : Scanned assigned)
    (hordered : Ordered (assigned.map Prod.fst)) : Allocates s (assigned.map Prod.fst) where
  assigned interval hmem := by
    obtain ⟨⟨other, r⟩, ha, rfl⟩ := List.mem_map.mp hmem
    exact ⟨r, (h.allocation _ _).mpr ⟨other, ha, rfl⟩⟩
  available {vreg r} hr := by
    obtain ⟨interval, ha, rfl⟩ := (h.allocation _ _).mp hr
    exact ⟨hscan.mem_registers ha, interval, List.mem_map_of_mem ha, rfl⟩
  separate interval hmem other hother hlt hlive := by
    obtain ⟨⟨interval, r⟩, ha, rfl⟩ := List.mem_map.mp hmem
    obtain ⟨⟨other, q⟩, hb, rfl⟩ := List.mem_map.mp hother
    obtain ⟨before, after, rfl⟩ := List.append_of_mem ha
    have hbefore : (other, q) ∈ before := by
      rcases List.mem_append.mp hb with hb | hb
      · exact hb
      · have hle : interval.start ≤ other.start := by
          have hsorted := (List.pairwise_append.mp hordered.sorted).2.1
          rcases List.mem_cons.mp hb with heq | hb
          · cases heq
            exact le_rfl
          · exact (List.pairwise_cons.mp hsorted).1 _ hb
        exact absurd hlt (not_lt.mpr hle)
    rw [(h.allocation _ _).mpr ⟨interval, ha, rfl⟩, (h.allocation _ _).mpr ⟨other, hb, rfl⟩]
    exact fun heq => hscan.ne hbefore hlive (Option.some.inj heq)
  used n := by
    have hdrop := hscan.exists_mem_drop_iff availableRegisters_nodup hordered.sorted n
    constructor
    · rintro ⟨vreg, r, hr, hn⟩
      obtain ⟨interval, ha, -⟩ := (h.allocation _ _).mp hr
      obtain ⟨before, interval, r, after, rfl, hle⟩ := hdrop.mp ⟨interval, r, ha, hn⟩
      refine ⟨interval, by simp, ?_⟩
      rw [List.map_append, List.map_cons] at hordered ⊢
      rwa [← length_held hordered]
    · rintro ⟨interval, hmem, hle⟩
      obtain ⟨⟨interval, r⟩, ha, rfl⟩ := List.mem_map.mp hmem
      obtain ⟨before, after, rfl⟩ := List.append_of_mem ha
      rw [List.map_append, List.map_cons] at hordered hle
      rw [← length_held hordered] at hle
      obtain ⟨other, q, hb, hq⟩ := hdrop.mpr ⟨before, interval, r, after, rfl, hle⟩
      exact ⟨_, q, (h.allocation _ _).mpr ⟨other, hb, rfl⟩, hq⟩

theorem allocateIntervals_ordered (hordered : Ordered intervals) :
    (∃ s, allocateIntervals intervals init = some s ∧ Allocates s intervals ∧
      ∀ interval ∈ intervals, pressure intervals interval.start < 28) ∨
    (allocateIntervals intervals init = none ∧
      ∃ interval ∈ intervals, 28 ≤ pressure intervals interval.start) := by
  have hall : InOrder (([] : List (LiveInterval × Register)).map Prod.fst ++ intervals) :=
    hordered.inOrder
  rcases allocateIntervals_cases .nil tracks_init hall with
    ⟨s, assigned, hok, htracks, hscan, rfl⟩ | ⟨assigned, interval, after, hnone, rfl, hscan, hfull⟩
  · rw [List.nil_append] at htracks hscan
    have halloc := htracks.allocates hscan hordered
    refine .inl ⟨s, hok, halloc, ?_⟩
    by_contra hle
    simp only [not_forall, not_lt, exists_prop] at hle
    obtain ⟨vreg, r, -, hr⟩ := (halloc.used 28).mpr hle
    have hempty : availableRegisters.drop 28 = [] := by decide
    simp [hempty] at hr
  · rw [List.nil_append] at hscan hfull
    refine .inr ⟨hnone, interval, by simp, ?_⟩
    rw [← length_held hordered, ← length_availableRegisters]
    obtain ⟨hbefore, -, hlast⟩ := List.pairwise_append.mp hordered
    refine (hscan.firstFree_eq_none availableRegisters_nodup (Ordered.sorted hbefore) ?_).mp hfull
    intro a ha
    exact (hlast a.1 (List.mem_map_of_mem ha) interval List.mem_cons_self).1.le

/-- An interval that starts while no register is held gets the first one. -/
theorem allocateIntervals_first (hordered : Ordered intervals)
    (hok : allocateIntervals intervals init = some s) (hmem : interval ∈ intervals)
    (hzero : pressure intervals interval.start = 0) :
    s.allocation interval.virtualRegister = some (.x 1) := by
  rcases allocateIntervals_cases .nil tracks_init hordered.inOrder with
    ⟨s', assigned, hok', htracks, hscan, rfl⟩ | ⟨assigned, other, after, hnone, -⟩
  · cases hok.symm.trans hok'
    rw [List.nil_append] at htracks hscan
    obtain ⟨⟨interval, r⟩, ha, rfl⟩ := List.mem_map.mp hmem
    obtain ⟨before, after, rfl⟩ := List.append_of_mem ha
    rw [List.map_append, List.map_cons] at hordered hzero
    rw [← length_held hordered, List.length_eq_zero_iff] at hzero
    obtain ⟨-, hfirst⟩ := hscan.split
    rw [hzero] at hfirst
    rw [(htracks.allocation _ _).mpr ⟨interval, ha, rfl⟩, ← hfirst]
    rfl
  · cases hok.symm.trans hnone

/-! ### Which intervals the scan colours -/

def containing (intervals : List LiveInterval) (point : ℕ) : ℕ :=
  intervals.countP fun interval => interval.start ≤ point ∧ point ≤ interval.stop

theorem containing_assigned (assigned : List (LiveInterval × Register)) (point : ℕ) :
    containing (assigned.map Prod.fst) point =
      (assigned.filter fun a => a.1.start ≤ point ∧ point ≤ a.1.stop).length := by
  rw [containing, List.countP_map, ← List.countP_eq_length_filter]
  rfl

theorem containing_of_full {after : List LiveInterval} (hscan : Scanned assigned)
    (hordered : InOrder (assigned.map Prod.fst ++ interval :: after))
    (hvalid : interval.start ≤ interval.stop)
    (hfull : firstFree availableRegisters (held LiveInterval.stop interval.start assigned) = none) :
    28 < containing (assigned.map Prod.fst ++ interval :: after) interval.start := by
  obtain ⟨hsorted, -, hlast⟩ := List.pairwise_append.mp hordered
  have hbefore : ∀ a ∈ assigned, a.1.start ≤ interval.start := by
    intro a ha
    exact (hlast a.1 (List.mem_map_of_mem ha) interval List.mem_cons_self).1
  have hle := (hscan.firstFree_eq_none availableRegisters_nodup
    ((List.pairwise_map.mp hsorted).imp fun h => h.1) hbefore).mp hfull
  have hheld : (held LiveInterval.stop interval.start assigned).length =
      containing (assigned.map Prod.fst) interval.start := by
    rw [containing_assigned, held, List.length_map]
    congr 1
    apply List.filter_congr
    intro a ha
    simp [hbefore a ha]
  have hself : containing (interval :: after) interval.start ≠ 0 := by
    simp [containing, hvalid]
  rw [length_availableRegisters, hheld] at hle
  have happend : containing (assigned.map Prod.fst ++ interval :: after) interval.start =
      containing (assigned.map Prod.fst) interval.start +
        containing (interval :: after) interval.start := List.countP_append
  omega

theorem overlaps_iff {a b : LiveInterval} :
    a.overlaps b = true ↔ b.start ≤ a.stop ∧ a.start ≤ b.stop := by
  simp [LiveInterval.overlaps]

theorem Tracks.pairwise_ne (h : Tracks s assigned) (hscan : Scanned assigned) :
    (assigned.map Prod.fst).Pairwise fun a b => a.overlaps b = true →
      s.allocation a.virtualRegister ≠ s.allocation b.virtualRegister := by
  apply List.pairwise_map.mpr
  apply hscan.pairwise_ne.imp_of_mem
  rintro ⟨a, r⟩ ⟨b, q⟩ ha hb hne hover heq
  rw [(h.allocation _ _).mpr ⟨a, ha, rfl⟩, (h.allocation _ _).mpr ⟨b, hb, rfl⟩] at heq
  exact hne (overlaps_iff.mp hover).1 (Option.some.inj heq)

theorem allocateIntervals_none_iff (hordered : InOrder intervals)
    (hvalid : ∀ interval ∈ intervals, interval.start ≤ interval.stop) :
    allocateIntervals intervals init = none ↔ ∃ point, 28 < containing intervals point := by
  rcases allocateIntervals_cases .nil tracks_init hordered with
    ⟨s, assigned, hok, -, hscan, rfl⟩ | ⟨assigned, interval, after, hnone, rfl, hscan, hfull⟩
  · rw [List.nil_append] at hscan
    constructor
    · intro hnone
      cases hok.symm.trans hnone
    · rintro ⟨point, hpoint⟩
      have hle := hscan.length_containing point
      rw [← containing_assigned, length_availableRegisters] at hle
      exact absurd hpoint (Nat.not_lt.mpr hle)
  · have hstart := hvalid interval (by simp)
    exact ⟨fun _ => ⟨_, containing_of_full hscan hordered hstart hfull⟩, fun _ => hnone⟩

theorem allocateRegisters_false_iff (code : List Instruction) :
    allocateRegisters code intervals = .ok (false, code) ↔
      allocateIntervals intervals init = none := by
  rw [allocateRegisters]
  cases allocateIntervals intervals init with
  | none => simp
  | some s =>
    cases hcode : code.mapM s.replaceVirtualRegisters with
    | error e => simp [hcode]
    | ok final => simp [hcode]

/-- The scan is exact. -/
theorem allocateIntervals_exact (code : List Instruction)
    (hsorted : intervals.Pairwise fun a b => a.start ≤ b.start)
    (hdistinct : (intervals.map LiveInterval.virtualRegister).Nodup)
    (hvalid : ∀ interval ∈ intervals, interval.start ≤ interval.stop) :
    (allocateRegisters code intervals = .ok (false, code) ↔
      ∃ point, 28 < containing intervals point) ∧
    ∀ s, allocateIntervals intervals init = some s →
      (∀ interval ∈ intervals, ∃ r ∈ availableRegisters,
        s.allocation interval.virtualRegister = some r) ∧
      intervals.Pairwise fun a b => a.overlaps b = true →
        s.allocation a.virtualRegister ≠ s.allocation b.virtualRegister := by
  have hordered : InOrder intervals := hsorted.and (List.pairwise_map.mp hdistinct)
  constructor
  · rw [allocateRegisters_false_iff, allocateIntervals_none_iff hordered hvalid]
  · intro s hs
    rcases allocateIntervals_cases .nil tracks_init hordered with
      ⟨s', assigned, hok, htracks, hscan, rfl⟩ | ⟨assigned, interval, after, hnone, -⟩
    · cases hs.symm.trans hok
      rw [List.nil_append] at htracks hscan
      refine ⟨?_, htracks.pairwise_ne hscan⟩
      intro interval hmem
      obtain ⟨⟨interval, r⟩, ha, rfl⟩ := List.mem_map.mp hmem
      exact ⟨r, hscan.mem_registers ha, (htracks.allocation _ _).mpr ⟨interval, ha, rfl⟩⟩
    · cases hs.symm.trans hnone

theorem allocateIntervals_exact_touching :
    (allocateRegisters [] [⟨0, 0, 1⟩, ⟨1, 1, 2⟩] = .ok (false, []) ↔
      ∃ point, 28 < containing [⟨0, 0, 1⟩, ⟨1, 1, 2⟩] point) ∧
    ∀ s, allocateIntervals [⟨0, 0, 1⟩, ⟨1, 1, 2⟩] init = some s →
      (∀ interval ∈ [(⟨0, 0, 1⟩ : LiveInterval), ⟨1, 1, 2⟩], ∃ r ∈ availableRegisters,
        s.allocation interval.virtualRegister = some r) ∧
      [(⟨0, 0, 1⟩ : LiveInterval), ⟨1, 1, 2⟩].Pairwise fun a b => a.overlaps b = true →
        s.allocation a.virtualRegister ≠ s.allocation b.virtualRegister :=
  allocateIntervals_exact [] (by decide) (by decide) (by decide)

end RegisterAllocator

end DinoRisc
