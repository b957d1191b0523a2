import Mathlib.Data.List.Basic

/-! Which errors a computation can raise, and what a `mapM` gives. -/

namespace DinoRisc

variable {ε α β : Type}

/-- Every error of the computation is one of `errors`. -/
def Raises (errors : ε → Prop) (x : Except ε α) : Prop := ∀ e, x = .error e → errors e

namespace Raises

variable {errors errors' : ε → Prop} {x : Except ε α}

theorem ok (a : α) : Raises errors (.ok a : Except ε α) := by
  rintro e h
  cases h

theorem of_ok (h : ∃ a, x = .ok a) : Raises errors x := by
  obtain ⟨a, rfl⟩ := h
  exact ok a

theorem error {e : ε} (h : errors e) : Raises errors (.error e : Except ε α) := by
  rintro e' h'
  cases h'
  exact h

theorem mono (h : Raises errors x) (himp : ∀ e, errors e → errors' e) : Raises errors' x :=
  fun e he => himp e (h e he)

theorem bind {f : α → Except ε β} (h : Raises errors x) (hf : ∀ a, x = .ok a → Raises errors (f a)) :
    Raises errors (x >>= f) := by
  cases x with
  | error e => exact error (h e rfl)
  | ok a => exact hf a rfl

theorem ite {p : Prop} [Decidable p] {y : Except ε α} (hx : p → Raises errors x)
    (hy : ¬ p → Raises errors y) : Raises errors (if p then x else y) := by
  split
  · exact hx ‹_›
  · exact hy ‹_›

end Raises

theorem mapM_ok {f : α → Except ε β} {g : α → β} {l : List α} (h : ∀ a ∈ l, f a = .ok (g a)) :
    l.mapM f = .ok (l.map g) := by
  induction l with
  | nil => rfl
  | cons a rest ih =>
    obtain ⟨ha, hrest⟩ := List.forall_mem_cons.mp h
    rw [List.mapM_cons, ha, ih hrest]
    rfl

/-- A `mapM` that fails does so on a member of the list. -/
theorem mapM_error {f : α → Except ε β} {l : List α} {e : ε} (h : l.mapM f = .error e) :
    ∃ a ∈ l, f a = .error e := by
  induction l with
  | nil => cases h
  | cons a l ih =>
    rw [List.mapM_cons] at h
    cases ha : f a with
    | error e' =>
      rw [ha] at h
      cases h
      exact ⟨a, List.mem_cons_self, ha⟩
    | ok b =>
      cases hl : l.mapM f with
      | error e' =>
        rw [ha, hl] at h
        cases h
        obtain ⟨a', hmem, ha'⟩ := ih hl
        exact ⟨a', List.mem_cons_of_mem a hmem, ha'⟩
      | ok bs =>
        rw [ha, hl] at h
        cases h

end DinoRisc
