import Mathlib

/-! Counted runs of a transition relation, their simulation, and runs cut into segments. -/

namespace DinoRisc.Runs

variable {S T : Type*} {step inner inner' last last' : S → S → Prop} {s s' s'' : S} {n m : ℕ}

inductive Run (step : S → S → Prop) : ℕ → S → S → Prop
  | zero (s : S) : Run step 0 s s
  | succ {n : ℕ} {s s₁ s' : S} (hstep : step s s₁) (hrest : Run step n s₁ s') : Run step (n + 1) s s'

namespace Run

theorem single (h : step s s') : Run step 1 s s' := .succ h (.zero s')

theorem append (h : Run step n s s') (h' : Run step m s' s'') : Run step (n + m) s s'' := by
  induction h with
  | zero s => rwa [Nat.zero_add]
  | @succ n s s₁ s' hstep _ ih =>
    rw [Nat.add_right_comm]
    exact .succ hstep (ih h')

theorem exists_last (h : Run step (n + 1) s s') : ∃ s₁, Run step n s s₁ ∧ step s₁ s' := by
  induction n generalizing s with
  | zero =>
    cases h with
    | succ hstep hrest =>
      cases hrest
      exact ⟨s, .zero s, hstep⟩
  | succ n ih =>
    cases h with
    | succ hstep hrest =>
      obtain ⟨s₁, hrun, hlast⟩ := ih hrest
      exact ⟨s₁, .succ hstep hrun, hlast⟩

theorem mono {step' : S → S → Prop} (hstep : ∀ s s', step s s' → step' s s')
    (h : Run step n s s') : Run step' n s s' := by
  induction h with
  | zero s => exact .zero s
  | succ h _ ih => exact .succ (hstep _ _ h) ih

/-- A step that simulates a step carries over to runs of the same length. -/
theorem simulate {con : T → T → Prop} {R : T → S → Prop}
    (hsim : ∀ t s s', R t s → step s s' → ∃ t', con t t' ∧ R t' s') {t : T}
    (h : Run step n s s') (hR : R t s) : ∃ t', Run con n t t' ∧ R t' s' := by
  induction h generalizing t with
  | zero s => exact ⟨t, .zero t, hR⟩
  | succ hstep _ ih =>
    obtain ⟨t₁, hcon, hR₁⟩ := hsim _ _ _ hR hstep
    obtain ⟨t', hrest, hR'⟩ := ih hR₁
    exact ⟨t', .succ hcon hrest, hR'⟩

end Run

/-- Inner steps, and a last one. -/
def Segment (inner last : S → S → Prop) : S → S → Prop :=
  Relation.Comp (Relation.ReflTransGen inner) last

theorem Segment.head {s₁ : S} (h : inner s s₁) (hrest : Segment inner last s₁ s') :
    Segment inner last s s' := by
  obtain ⟨s₂, hinner, hlast⟩ := hrest
  exact ⟨s₂, hinner.head h, hlast⟩

theorem Segment.mono (hinner : ∀ s s', inner s s' → inner' s s')
    (hlast : ∀ s s', last s s' → last' s s') (h : Segment inner last s s') :
    Segment inner' last' s s' := by
  obtain ⟨s₁, hinner₁, hlast₁⟩ := h
  exact ⟨s₁, Relation.ReflTransGen.mono hinner s s₁ hinner₁, hlast s₁ s' hlast₁⟩

/-- A run that ends in a last step is a run of segments. -/
theorem Run.segments (h : Run (fun s s' => inner s s' ∨ last s s') n s s') (hlast : last s' s'') :
    ∃ k ≤ n + 1, 0 < k ∧ Run (Segment inner last) k s s'' := by
  induction h with
  | zero s => exact ⟨1, le_rfl, Nat.one_pos, .single ⟨s, .refl, hlast⟩⟩
  | succ hstep _ ih =>
    obtain ⟨k, hk, hpos, hrun⟩ := ih hlast
    rcases hstep with hstep | hstep
    · cases hrun with
      | zero => exact absurd hpos (Nat.lt_irrefl 0)
      | succ hsegment hrest =>
        exact ⟨_, hk.trans (Nat.le_succ _), hpos, .succ (hsegment.head hstep) hrest⟩
    · exact ⟨k + 1, Nat.succ_le_succ hk, Nat.succ_pos k, .succ ⟨_, .refl, hstep⟩ hrun⟩

end DinoRisc.Runs
