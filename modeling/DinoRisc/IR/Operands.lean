import DinoRisc.IR.Typing

/-! The values and the guest registers that an instruction names. -/

namespace DinoRisc.IR

namespace InstructionKind

def operands : InstructionKind → List ValueId
  | .const _ _ | .regRead _ => []
  | .binaryOp _ _ lhs rhs => [lhs, rhs]
  | .sext _ operand | .zext _ operand | .trunc _ operand => [operand]
  | .load _ address => [address]
  | .store value address => [value, address]
  | .regWrite _ value => [value]

def type : InstructionKind → Option Ty
  | .const type _ | .binaryOp _ type _ _ | .load type _ => some type
  | .sext toType _ | .zext toType _ | .trunc toType _ => some toType
  | .regRead _ => some .i64
  | .store _ _ | .regWrite _ _ => none

def register : InstructionKind → Option ℕ
  | .regRead regNumber | .regWrite regNumber _ => some regNumber
  | _ => none

def written : InstructionKind → Option ℕ
  | .regWrite regNumber _ => some regNumber
  | _ => none

end InstructionKind

def Terminator.operands : Terminator → List ValueId
  | .condBranch condition _ _ => [condition]
  | .ret (some value) => [value]
  | .branch _ | .ret none => []

def Produces (instructions : List Instruction) (id : ValueId) (ty : Ty) : Prop :=
  ∃ inst ∈ instructions, inst.valueId = id ∧ inst.kind.type = some ty

variable {Γ Γ' Γ'' : Types} {instructions before after : List Instruction} {inst : Instruction}
  {id : ValueId} {ty : Ty}

theorem Produces.mono (h : Produces before id ty) : Produces (before ++ after) id ty := by
  obtain ⟨inst, hmem, hid, hty⟩ := h
  exact ⟨inst, List.mem_append_left after hmem, hid, hty⟩

theorem Lowerable.type_eq {kind : InstructionKind} {type : Option Ty} (h : Lowerable Γ kind type) :
    kind.type = type := by
  cases h <;> rfl

theorem Lowerable.operands_typed {kind : InstructionKind} {type : Option Ty}
    (h : Lowerable Γ kind type) : ∀ id ∈ kind.operands, ∃ ty, Γ id = some ty := by
  cases h <;> simp_all [InstructionKind.operands]

theorem Terminator.Typed.operands_typed {terminator : Terminator} (h : terminator.Typed Γ) :
    ∀ id ∈ terminator.operands, ∃ ty, Γ id = some ty := by
  cases h <;> simp_all [Terminator.operands]

namespace WellTyped

theorem split (h : WellTyped Γ (before ++ after) Γ'') :
    ∃ Γ', WellTyped Γ before Γ' ∧ WellTyped Γ' after Γ'' := by
  induction before generalizing Γ with
  | nil => exact ⟨Γ, .nil Γ, h⟩
  | cons inst before ih =>
    cases h with
    | cons hfresh hlow hrest =>
      obtain ⟨Γ', hbefore, hafter⟩ := ih hrest
      exact ⟨Γ', .cons hfresh hlow hbefore, hafter⟩

theorem produces (h : WellTyped Γ instructions Γ') (hid : Γ' id = some ty) :
    Γ id = some ty ∨ Produces instructions id ty := by
  induction h with
  | nil Γ => exact .inl hid
  | @cons Γ Γ' inst rest type hfresh hlow hrest ih =>
    rcases ih hid with hid | hid
    · cases htype : type with
      | none =>
        rw [htype] at hid
        exact .inl hid
      | some ty' =>
        rw [htype, Types.extend] at hid
        by_cases heq : id = inst.valueId
        · subst heq
          rw [Function.update_self] at hid
          exact .inr ⟨inst, List.mem_cons_self, rfl, by rw [hlow.type_eq, htype, hid]⟩
        · rw [Function.update_of_ne heq] at hid
          exact .inl hid
    · obtain ⟨d, hmem, hd⟩ := hid
      exact .inr ⟨d, List.mem_cons_of_mem inst hmem, hd⟩

theorem operands_produced (h : WellTyped (fun _ => none) (before ++ inst :: after) Γ) :
    ∀ id ∈ inst.kind.operands, ∃ ty, Produces before id ty := by
  intro id hid
  obtain ⟨Γ', hbefore, hafter⟩ := h.split
  cases hafter with
  | cons hfresh hlow hrest =>
    obtain ⟨ty, hty⟩ := hlow.operands_typed id hid
    rcases hbefore.produces hty with hnone | hproduces
    · cases hnone
    · exact ⟨ty, hproduces⟩

end WellTyped

end DinoRisc.IR
