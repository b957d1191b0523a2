import Mathlib.Data.List.Nodup
import Mathlib.Data.List.Perm.Subperm

/-!
Linear scan. Intervals come in the order of their starts, and each one takes the first register
that is not held by an earlier one that reaches its start.
-/

namespace DinoRisc.LinearScan

variable {ι ρ : Type*} {registers taken : List ρ} {r : ρ}

section

variable [DecidableEq ρ]

def firstFree (registers taken : List ρ) : Option ρ := registers.find? (· ∉ taken)

theorem firstFree_eq_some (h : firstFree registers taken = some r) :
    r ∈ registers ∧ r ∉ taken ∧
      ∃ before after, registers = before ++ r :: after ∧ before ⊆ taken := by
  obtain ⟨hfree, before, after, hsplit, hbefore⟩ := List.find?_eq_some_iff_append.mp h
  refine ⟨List.mem_of_find?_eq_some h, by simpa using hfree, before, after, hsplit, ?_⟩
  intro q hq
  simpa using hbefore q hq

theorem firstFree_eq_none_iff (hnodup : registers.Nodup) (htaken : taken.Nodup)
    (hsub : taken ⊆ registers) :
    firstFree registers taken = none ↔ registers.length ≤ taken.length := by
  have hnone : firstFree registers taken = none ↔ registers ⊆ taken := by
    simp [firstFree, List.subset_def]
  rw [hnone]
  constructor
  · intro h
    exact (List.subperm_of_subset hnodup h).length_le
  · intro h
    exact ((List.subperm_of_subset htaken hsub).perm_of_length_le h).symm.subset

end

section

variable {start stop : ι → ℕ} {assigned before after : List (ι × ρ)} {i j : ι} {q : ρ}

def held (stop : ι → ℕ) (point : ℕ) (assigned : List (ι × ρ)) : List ρ :=
  (assigned.filter fun a => point ≤ stop a.1).map Prod.snd

theorem mem_held {point : ℕ} :
    r ∈ held stop point assigned ↔ ∃ i, (i, r) ∈ assigned ∧ point ≤ stop i := by
  simp [held]

theorem held_append (point : ℕ) : held stop point (before ++ after) =
    held stop point before ++ held stop point after := by
  simp [held]

variable [DecidableEq ρ]

/-- The assignments of a scan. -/
inductive Greedy (registers : List ρ) (start stop : ι → ℕ) : List (ι × ρ) → Prop
  | nil : Greedy registers start stop []
  | snoc {assigned : List (ι × ρ)} {i : ι} {r : ρ} (h : Greedy registers start stop assigned)
    (hr : firstFree registers (held stop (start i) assigned) = some r) :
    Greedy registers start stop (assigned ++ [(i, r)])

namespace Greedy

theorem split (h : Greedy registers start stop (before ++ (i, r) :: after)) :
    Greedy registers start stop before ∧
      firstFree registers (held stop (start i) before) = some r := by
  generalize hall : before ++ (i, r) :: after = all at h
  induction h generalizing after with
  | nil => simp at hall
  | @snoc assigned k s hgreedy hs ih =>
    rcases List.eq_nil_or_concat after with rfl | ⟨after', a, rfl⟩
    · obtain ⟨rfl, heq⟩ := List.append_inj' hall rfl
      cases heq
      exact ⟨hgreedy, hs⟩
    · rw [List.concat_eq_append, ← List.cons_append, ← List.append_assoc] at hall
      exact ih (List.append_inj' hall rfl).1

theorem mem_registers (h : Greedy registers start stop assigned) (ha : (i, r) ∈ assigned) :
    r ∈ registers := by
  obtain ⟨before, after, rfl⟩ := List.append_of_mem ha
  exact (firstFree_eq_some h.split.2).1

theorem held_subset (h : Greedy registers start stop assigned) (point : ℕ) :
    held stop point assigned ⊆ registers := by
  intro r hr
  obtain ⟨i, hi, -⟩ := mem_held.mp hr
  exact h.mem_registers hi

theorem ne (h : Greedy registers start stop (before ++ (i, r) :: after)) (hj : (j, q) ∈ before)
    (hlive : start i ≤ stop j) : q ≠ r := by
  rintro rfl
  exact (firstFree_eq_some h.split.2).2.1 (mem_held.mpr ⟨j, hj, hlive⟩)

theorem pairwise_ne (h : Greedy registers start stop assigned) :
    assigned.Pairwise fun a b => start b.1 ≤ stop a.1 → a.2 ≠ b.2 := by
  induction h with
  | nil => exact List.Pairwise.nil
  | @snoc assigned i r hgreedy hr ih =>
    apply List.pairwise_append.mpr
    refine ⟨ih, List.pairwise_singleton _ _, ?_⟩
    rintro ⟨j, q⟩ hj b hb hlive
    obtain rfl := List.mem_singleton.mp hb
    exact (hgreedy.snoc hr).ne hj hlive

/-- No point lies in more intervals than there are registers. -/
theorem length_containing (h : Greedy registers start stop assigned) (point : ℕ) :
    (assigned.filter fun a => start a.1 ≤ point ∧ point ≤ stop a.1).length ≤ registers.length := by
  set inside := assigned.filter fun a => start a.1 ≤ point ∧ point ≤ stop a.1 with hinside
  have hcontains : ∀ a ∈ inside, a ∈ assigned ∧ start a.1 ≤ point ∧ point ≤ stop a.1 := by
    intro a ha
    simpa [hinside] using ha
  have hdistinct : (inside.map Prod.snd).Nodup := by
    apply List.pairwise_map.mpr
    apply (h.pairwise_ne.filter _).imp_of_mem
    intro a b ha hb hne
    exact hne (Nat.le_trans (hcontains b hb).2.1 (hcontains a ha).2.2)
  have hsubset : inside.map Prod.snd ⊆ registers := by
    intro r hr
    obtain ⟨⟨i, q⟩, ha, rfl⟩ := List.mem_map.mp hr
    exact h.mem_registers (hcontains _ ha).1
  have hle := (List.subperm_of_subset hdistinct hsubset).length_le
  rwa [List.length_map] at hle

theorem held_nodup (h : Greedy registers start stop assigned)
    (hsorted : assigned.Pairwise fun a b => start a.1 ≤ start b.1) {point : ℕ}
    (hpoint : ∀ a ∈ assigned, start a.1 ≤ point) : (held stop point assigned).Nodup := by
  induction h generalizing point with
  | nil => exact List.nodup_nil
  | @snoc assigned i r hgreedy hr ih =>
    obtain ⟨hsorted, -, hlast⟩ := List.pairwise_append.mp hsorted
    have hi : start i ≤ point := hpoint (i, r) (by simp)
    have hbefore := ih hsorted fun a ha => hpoint a (List.mem_append_left _ ha)
    rw [held_append]
    by_cases hstop : point ≤ stop i
    · have hone : held stop point [(i, r)] = [r] := by simp [held, hstop]
      rw [hone, List.nodup_append]
      refine ⟨hbefore, List.nodup_singleton r, ?_⟩
      rintro q hq _ hr' rfl
      obtain ⟨j, hj, hjlive⟩ := mem_held.mp hq
      rw [List.mem_singleton.mp hr'] at hj
      exact (firstFree_eq_some hr).2.1 (mem_held.mpr ⟨j, hj, Nat.le_trans hi hjlive⟩)
    · have hone : held stop point [(i, r)] = [] := by simp [held, hstop]
      rwa [hone, List.append_nil]

section

variable (hnodup : registers.Nodup)
  (hsorted : assigned.Pairwise fun a b => start a.1 ≤ start b.1)

include hnodup hsorted

theorem firstFree_eq_none (h : Greedy registers start stop assigned)
    (hi : ∀ a ∈ assigned, start a.1 ≤ start i) :
    firstFree registers (held stop (start i) assigned) = none ↔
      registers.length ≤ (held stop (start i) assigned).length :=
  firstFree_eq_none_iff hnodup (h.held_nodup hsorted hi) (h.held_subset _)

/-- A register behind the first `n` is used if and only if at some start `n` are held. -/
theorem exists_mem_drop_iff (h : Greedy registers start stop assigned) (n : ℕ) :
    (∃ i r, (i, r) ∈ assigned ∧ r ∈ registers.drop n) ↔
      ∃ before i r after, assigned = before ++ (i, r) :: after ∧
        n ≤ (held stop (start i) before).length := by
  have hparts : (registers.take n ++ registers.drop n).Nodup := by
    rwa [List.take_append_drop]
  constructor
  · rintro ⟨i, r, hmem, hr⟩
    obtain ⟨before, after, rfl⟩ := List.append_of_mem hmem
    refine ⟨before, i, r, after, rfl, ?_⟩
    obtain ⟨-, hfree, front, back, hsplit, hfront⟩ := firstFree_eq_some h.split.2
    have hlength : n ≤ front.length := by
      by_contra hlt
      have htake : r ∈ registers.take n := by
        rw [hsplit, List.take_append]
        obtain ⟨k, hk⟩ : ∃ k, n - front.length = k + 1 := ⟨n - front.length - 1, by omega⟩
        simp [hk]
      exact (List.nodup_append.mp hparts).2.2 r htake r hr rfl
    have hfrontNodup : front.Nodup := by
      rw [hsplit] at hnodup
      exact (List.nodup_append.mp hnodup).1
    exact Nat.le_trans hlength (List.subperm_of_subset hfrontNodup hfront).length_le
  · rintro ⟨before, i, r, after, rfl, hn⟩
    obtain ⟨hbefore, hchosen⟩ := h.split
    obtain ⟨hmem, hfree, -⟩ := firstFree_eq_some hchosen
    obtain ⟨hsorted, -, hlast⟩ := List.pairwise_append.mp hsorted
    have hheld := hbefore.held_nodup hsorted fun a ha => hlast a ha _ List.mem_cons_self
    by_contra hnone
    -- otherwise these registers and `r` were `n + 1` among the first `n`
    have hfirst : ∀ q ∈ r :: held stop (start i) before, q ∈ registers.take n := by
      intro q hq
      have hassigned : ∃ j, (j, q) ∈ before ++ (i, r) :: after := by
        rcases List.mem_cons.mp hq with rfl | hq
        · exact ⟨i, by simp⟩
        · obtain ⟨j, hj, -⟩ := mem_held.mp hq
          exact ⟨j, List.mem_append_left _ hj⟩
      obtain ⟨j, hj⟩ := hassigned
      have hq' := h.mem_registers hj
      rw [← List.take_append_drop n registers, List.mem_append] at hq'
      exact hq'.resolve_right fun hdrop => hnone ⟨j, q, hj, hdrop⟩
    have hle := (List.subperm_of_subset (List.nodup_cons.mpr ⟨hfree, hheld⟩) hfirst).length_le
    rw [List.length_cons, List.length_take] at hle
    omega

end

end Greedy

end

end DinoRisc.LinearScan
