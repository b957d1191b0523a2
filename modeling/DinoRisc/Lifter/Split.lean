import DinoRisc.Lifter.Terminator

/-! A block and the two blocks that a cut makes of it. -/

namespace DinoRisc.Lifter

open IR RiscV

variable {valid : Valid} {order order₁ order₂ : List ℕ → List ℕ}
  {before after : List RiscV.Instruction}

theorem steps_append (before after : List RiscV.Instruction) (g : Guest) :
    Isa.steps valid (before ++ after) g =
      (Isa.steps valid before g).bind (Isa.steps valid after) := by
  induction before generalizing g with
  | nil => rfl
  | cons inst before ih =>
    simp only [List.cons_append, Isa.steps, Option.bind_assoc]
    congr 1
    funext r
    exact ih r.1

theorem straightPart_append (h : ∀ i ∈ before, isTerminator i = false) :
    straightPart (before ++ after) = before ++ straightPart after := by
  apply List.takeWhile_append_of_pos
  intro i hi
  rw [h i hi]
  rfl

theorem straightPart_self (h : ∀ i ∈ before, isTerminator i = false) :
    straightPart before = before := by
  have happend : straightPart (before ++ []) = before ++ straightPart [] := straightPart_append h
  rwa [List.append_nil, straightPart, straightPart, List.takeWhile_nil, List.append_nil] at happend

theorem consecutive_cut (hne : before ≠ []) (hne' : after ≠ [])
    (h : Consecutive (before ++ after)) :
    (after.head hne').address = (before.getLast hne).address + 4#64 := by
  have hchain := (List.isChain_append.mp h).2.2
  exact hchain _ (List.getLast?_eq_getLast_of_ne_nil hne ▸ Option.mem_some_self _) _
    (List.head?_eq_some_head hne' ▸ Option.mem_some_self _)

/-- A cut changes nothing: the first part ends at the second, and the two together do what the
whole block does. -/
theorem liftBasicBlock_cut (horder : ∀ rs, (order rs).Perm rs)
    (horder₁ : ∀ rs, (order₁ rs).Perm rs) (horder₂ : ∀ rs, (order₂ rs).Perm rs)
    (l l₁ l₂ : Lifter) (hne : before ≠ []) (hne' : after ≠ [])
    (hsup : ∀ i ∈ before ++ after, i.Supported) (hcons : Consecutive (before ++ after))
    (hlast : ∀ i ∈ (before ++ after).dropLast, i.opcode.isControlTransfer = false) (g : Guest) :
    ∃ block l' block₁ l₁' block₂ l₂' g₁ g' pc,
      liftBasicBlock order (before ++ after) l = .ok (block, l') ∧
      liftBasicBlock order₁ before l₁ = .ok (block₁, l₁') ∧
      liftBasicBlock order₂ after l₂ = .ok (block₂, l₂') ∧
      evalBlock unrestricted block g = some (g', pc) ∧
      evalBlock unrestricted block₁ g = some (g₁, (after.head hne').address) ∧
      evalBlock unrestricted block₂ g₁ = some (g', pc) := by
  rw [List.dropLast_append_of_ne_nil hne'] at hlast
  have hstraight : ∀ i ∈ before, i.opcode.isControlTransfer = false := fun i hi =>
    hlast i (List.mem_append_left _ hi)
  have hterm : ∀ i ∈ before, isTerminator i = false := fun i hi => by
    rw [isTerminator_eq, hstraight i hi]
  have hsup₁ : ∀ i ∈ before, i.Supported := fun i hi => hsup i (List.mem_append_left _ hi)
  have hsup₂ : ∀ i ∈ after, i.Supported := fun i hi => hsup i (List.mem_append_right _ hi)
  have hbody : ∀ i ∈ before, Liftable i := fun i hi => .of_supported (hsup₁ i hi) (hterm i hi)
  -- the states that the ISA reaches at the cut and before the control transfer
  obtain ⟨g₁, hsteps₁⟩ := steps_unrestricted hbody g
  obtain ⟨g', hsteps₂⟩ := steps_unrestricted (straightPart_liftable hsup₂) g₁
  have hsteps : Isa.steps unrestricted ((straightPart (before ++ after)).map rescaled) g =
      some g' := by
    rw [straightPart_append hterm, List.map_append, steps_append, hsteps₁]
    exact hsteps₂
  obtain ⟨block, l', hok, hends⟩ := liftBasicBlock_ends horder l (by simp [hne]) hsup
    (by rwa [List.dropLast_append_of_ne_nil hne']) hsteps
  obtain ⟨block₁, l₁', hok₁, hends₁⟩ := liftBasicBlock_ends horder₁ l₁ hne hsup₁
    (fun i hi => hstraight i (List.mem_of_mem_dropLast hi)) (by rwa [straightPart_self hterm])
  obtain ⟨block₂, l₂', hok₂, hends₂⟩ := liftBasicBlock_ends horder₂ l₂ hne' hsup₂
    (fun i hi => hlast i (List.mem_append_right _ hi)) hsteps₂
  have hpc : nextPC (before.getLast hne) ((before.getLast hne).address + 4#64) g₁ =
      (after.head hne').address := by
    rw [isaNextPC_liftable (hbody _ (List.getLast_mem hne)), consecutive_cut hne hne' hcons]
  refine ⟨block, l', block₁, l₁', block₂, l₂', g₁, g', _, hok, hok₁, hok₂, hends.eval, ?_, ?_⟩
  · rw [hends₁.eval, hpc]
  · rw [hends₂.eval, List.getLast_append_of_ne_nil _ hne']

theorem liftBasicBlock_cut_add :
    let addi : RiscV.Instruction := ⟨.addi, [.register 1, .register 0,
      .immediate ((5#12).signExtend 64)], 0#32, 0x1000#64⟩
    let add : RiscV.Instruction := ⟨.add, [.register 2, .register 1, .register 1], 0#32, 0x1004#64⟩
    ∃ block l' block₁ l₁' block₂ l₂' g₁ g' pc,
      liftBasicBlock id [addi, add] init = .ok (block, l') ∧
      liftBasicBlock List.reverse [addi] init = .ok (block₁, l₁') ∧
      liftBasicBlock id [add] init = .ok (block₂, l₂') ∧
      evalBlock unrestricted block ⟨fun _ => 0#64, fun _ => 0#8⟩ = some (g', pc) ∧
      evalBlock unrestricted block₁ ⟨fun _ => 0#64, fun _ => 0#8⟩ = some (g₁, 0x1004#64) ∧
      evalBlock unrestricted block₂ g₁ = some (g', pc) :=
  @liftBasicBlock_cut id List.reverse id
    [⟨.addi, [.register 1, .register 0, .immediate ((5#12).signExtend 64)], 0#32, 0x1000#64⟩]
    [⟨.add, [.register 2, .register 1, .register 1], 0#32, 0x1004#64⟩]
    (fun _ => .refl _) (fun _ => List.reverse_perm _) (fun _ => .refl _) init init init
    (by simp) (by simp)
    (by
      simp only [List.cons_append, List.nil_append, List.forall_mem_cons]
      exact ⟨⟨rfl, .i (by decide) (by decide) 5#12⟩, ⟨rfl, .r (by decide) (by decide) (by decide)⟩,
        by simp⟩)
    (by simp [Consecutive]) (by simp [Opcode.isControlTransfer]) _

end DinoRisc.Lifter
