import DinoRisc.IR.Typing

/-! The memory accesses of a block, and evaluation as long as they are allowed. -/

namespace DinoRisc.IR

open ByteMemory

abbrev Access := BitVec 64 × ℕ

def Instruction.access (s : EvalState) (inst : Instruction) : Option Access :=
  match inst.kind with
  | .load type address => (s.env address).map fun a => (a.bits, type.bytes)
  | .store value address => do
    let v ← s.env value
    let a ← s.env address
    some (a.bits, v.ty.bytes)
  | _ => none

/-- The accesses of an evaluation that allows every access. -/
def accesses : List Instruction → EvalState → List Access
  | [], _ => []
  | inst :: rest, s => (inst.access s).toList ++
    match evalInstruction (fun _ _ => true) s inst with
    | some s' => accesses rest s'
    | none => []

variable {valid : Valid} {s : EvalState} {inst : Instruction} {ty : Option Ty}

theorem evalInstruction_valid
    (h : ∀ access ∈ inst.access s, valid access.1 access.2 = true) :
    evalInstruction valid s inst = evalInstruction (fun _ _ => true) s inst := by
  obtain ⟨id, kind⟩ := inst
  cases kind with
  | load type address =>
    cases ha : s.env address with
    | none => simp [evalInstruction, ha]
    | some a =>
      have hv := h (a.bits, type.bytes) (by simp [Instruction.access, ha])
      simp [evalInstruction, ha, show valid a.bits type.bytes = true from hv]
  | store value address =>
    cases hval : s.env value with
    | none => simp [evalInstruction, hval]
    | some v =>
      cases ha : s.env address with
      | none => simp [evalInstruction, ha]
      | some a =>
        have hv := h (a.bits, v.ty.bytes) (by simp [Instruction.access, hval, ha])
        simp [evalInstruction, hval, ha, show valid a.bits v.ty.bytes = true from hv]
  | _ => rfl

theorem evalInstruction_allowed {s' : EvalState} (h : evalInstruction valid s inst = some s') :
    ∀ access ∈ inst.access s, valid access.1 access.2 = true := by
  intro access haccess
  obtain ⟨id, kind⟩ := inst
  cases kind with
  | load type address =>
    simp only [Instruction.access, Option.mem_def, Option.map_eq_some_iff] at haccess
    obtain ⟨a, ha, rfl⟩ := haccess
    simp only [evalInstruction, ha, Option.bind_eq_bind, Option.bind_some] at h
    split at h
    · exact And.right ‹_›
    · cases h
  | store value address =>
    simp only [Instruction.access, Option.mem_def, Option.bind_eq_bind,
      Option.bind_eq_some_iff] at haccess
    obtain ⟨v, hv, a, ha, heq⟩ := haccess
    cases heq
    simp only [evalInstruction, hv, ha, Option.bind_eq_bind, Option.bind_some] at h
    split at h
    · exact And.right ‹_›
    · cases h
  | _ => cases haccess

theorem value_of_type {env : Env} {id : ValueId} {ty : Ty} (h : env.types id = some ty) :
    ∃ v, env id = some v ∧ v.ty = ty :=
  types_eq_some.mp h

theorem evalBinary_arithmetic {opcode : BinaryOpcode} {ty : Ty} {a b : Value}
    (hop : opcode.isArithmetic = true) (ha : a.ty = ty) (hb : b.ty = ty) :
    ∃ v, evalBinary opcode ty a b = some v := by
  cases opcode <;> first
    | (cases hop; done)
    | simp [evalBinary, comparison, arithmetic, ha, hb]

theorem evalBinary_comparison {opcode : BinaryOpcode} {ty : Ty} {a b : Value}
    (hop : opcode.isComparison = true) (hty : a.ty = b.ty) :
    ∃ v, evalBinary opcode ty a b = some v := by
  cases opcode <;> first
    | (cases hop; done)
    | simp [evalBinary, comparison, hty]

theorem evalInstruction_progress (hlow : Lowerable s.env.types inst.kind ty)
    (h : ∀ access ∈ inst.access s, valid access.1 access.2 = true) :
    ∃ s', evalInstruction valid s inst = some s' := by
  rw [evalInstruction_valid h]
  obtain ⟨id, kind⟩ := inst
  dsimp only at hlow
  cases hlow with
  | const64 value => exact ⟨_, rfl⟩
  | const32 value => exact ⟨_, rfl⟩
  | arithmetic hop hty hl hr =>
    obtain ⟨a, ha, hta⟩ := value_of_type hl
    obtain ⟨b, hb, htb⟩ := value_of_type hr
    obtain ⟨v, hv⟩ := evalBinary_arithmetic hop hta htb
    exact ⟨_, by simp [evalInstruction, ha, hb, hv]; rfl⟩
  | @comparison opcode ty' lhs rhs hop hty hl hr =>
    obtain ⟨a, ha, hta⟩ := value_of_type hl
    obtain ⟨b, hb, htb⟩ := value_of_type hr
    obtain ⟨v, hv⟩ : ∃ v, evalBinary opcode ty' a b = some v :=
      evalBinary_comparison hop (hta.trans htb.symm)
    exact ⟨_, by simp [evalInstruction, ha, hb, hv]; rfl⟩
  | sext hty ha =>
    obtain ⟨a, ha, hta⟩ := value_of_type ha
    have hle : a.ty.width ≤ Ty.width .i64 := a.ty.width_le
    exact ⟨_, by simp [evalInstruction, ha, hle]; rfl⟩
  | zext ha =>
    obtain ⟨a, ha, hta⟩ := value_of_type ha
    have hle : a.ty.width ≤ Ty.width .i64 := a.ty.width_le
    exact ⟨_, by simp [evalInstruction, ha, hle]; rfl⟩
  | trunc ha =>
    obtain ⟨a, ha, hta⟩ := value_of_type ha
    exact ⟨_, by simp [evalInstruction, ha, hta, Ty.width]; rfl⟩
  | load hty ha =>
    obtain ⟨a, ha, hta⟩ := value_of_type ha
    exact ⟨_, by simp [evalInstruction, ha, hta]; rfl⟩
  | store hty hv ha =>
    obtain ⟨v, hv, htv⟩ := value_of_type hv
    obtain ⟨a, ha, hta⟩ := value_of_type ha
    exact ⟨_, by simp [evalInstruction, hv, ha, hta]; rfl⟩
  | regRead hr => exact ⟨_, rfl⟩
  | regWrite hr hv =>
    obtain ⟨v, hv, htv⟩ := value_of_type hv
    exact ⟨_, by simp [evalInstruction, hv, htv]; rfl⟩

theorem evalInstructions_valid {instructions : List Instruction}
    (h : ∀ access ∈ accesses instructions s, valid access.1 access.2 = true) :
    evalInstructions valid instructions s =
      evalInstructions (fun _ _ => true) instructions s := by
  induction instructions generalizing s with
  | nil => rfl
  | cons inst rest ih =>
    simp only [accesses, List.mem_append, Option.mem_toList] at h
    rw [evalInstructions, evalInstructions, evalInstruction_valid fun a ha => h a (.inl ha)]
    cases hstep : evalInstruction (fun _ _ => true) s inst with
    | none => rfl
    | some s' =>
      apply ih
      intro a ha
      exact h a (.inr (by rwa [hstep]))

theorem evalInstructions_allowed {instructions : List Instruction} {s' : EvalState}
    (h : evalInstructions valid instructions s = some s') :
    ∀ access ∈ accesses instructions s, valid access.1 access.2 = true := by
  induction instructions generalizing s with
  | nil => simp [accesses]
  | cons inst rest ih =>
    simp only [evalInstructions, Option.bind_eq_some_iff] at h
    obtain ⟨s₁, hstep, h⟩ := h
    have hallowed := evalInstruction_allowed hstep
    rw [accesses, ← evalInstruction_valid hallowed, hstep]
    intro access hmem
    rcases List.mem_append.mp hmem with hmem | hmem
    · exact hallowed access (Option.mem_toList.mp hmem)
    · exact ih h access hmem

theorem accesses_eq_nil_of_eval {instructions : List Instruction} {s' : EvalState}
    (h : evalInstructions (fun _ _ => false) instructions s = some s') :
    accesses instructions s = [] := by
  apply List.eq_nil_iff_forall_not_mem.mpr
  intro access hmem
  cases evalInstructions_allowed h access hmem

theorem evalInstructions_progress {instructions : List Instruction} {Γ : Types}
    (h : WellTyped s.env.types instructions Γ) :
    ∃ s', evalInstructions (fun _ _ => true) instructions s = some s' ∧ s'.env.types = Γ := by
  induction instructions generalizing s with
  | nil =>
    cases h
    exact ⟨s, rfl, rfl⟩
  | cons inst rest ih =>
    cases h with
    | cons hfresh hlow hrest =>
      obtain ⟨s₁, hstep⟩ := @evalInstruction_progress (fun _ _ => true) _ _ _ hlow (by simp)
      rw [← evalInstruction_types hlow hstep] at hrest
      obtain ⟨s', heval, htypes⟩ := ih hrest
      exact ⟨s', by simp [evalInstructions, hstep, heval], htypes⟩

theorem Terminator.nextPC_progress {terminator : Terminator} {env : Env}
    (h : terminator.Typed env.types) : ∃ pc, terminator.nextPC env = some pc := by
  cases h with
  | branch target => exact ⟨_, rfl⟩
  | condBranch trueBlock falseBlock hc =>
    obtain ⟨c, hc, -⟩ := value_of_type hc
    exact ⟨_, by simp [Terminator.nextPC, hc]; rfl⟩
  | ret => exact ⟨_, rfl⟩
  | retValue hv =>
    obtain ⟨v, hv, -⟩ := value_of_type hv
    exact ⟨_, by simp [Terminator.nextPC, hv]; rfl⟩

/-- A typed block has a meaning, and its meaning under `valid` is the same if its accesses are
allowed. -/
theorem BasicBlock.WellTyped.eval {block : BasicBlock} (h : block.WellTyped) (g : Guest)
    (hvalid : ∀ access ∈ accesses block.instructions ⟨fun _ => none, g⟩,
      valid access.1 access.2 = true) :
    ∃ g' pc, evalBlock valid block g = some (g', pc) ∧
      evalBlock (fun _ _ => true) block g = some (g', pc) := by
  obtain ⟨Γ, hinsts, hterm⟩ := h
  obtain ⟨s, heval, htypes⟩ :=
    evalInstructions_progress (s := ⟨fun _ => none, g⟩) (Γ := Γ) hinsts
  obtain ⟨pc, hpc⟩ := Terminator.nextPC_progress (htypes ▸ hterm)
  refine ⟨s.guest, pc, ?_, ?_⟩
  · simp [evalBlock, evalInstructions_valid hvalid, heval, hpc]
  · simp [evalBlock, heval, hpc]

end DinoRisc.IR
