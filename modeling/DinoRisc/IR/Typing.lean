import DinoRisc.IR.Eval

/-!
The part of the IR that the translator produces: `Lowerable` is a typing of the instruction kinds,
`WellTyped` of instruction lists, and `Runs` is an evaluation in which every instruction is typed
and defines a new value.
-/

namespace DinoRisc.IR

open ByteMemory

abbrev Types := ValueId → Option Ty

def Env.types (env : Env) : Types := fun id => (env id).map Value.ty

def Types.extend (Γ : Types) (id : ValueId) : Option Ty → Types
  | some ty => Function.update Γ id (some ty)
  | none => Γ

namespace BinaryOpcode

def isArithmetic : BinaryOpcode → Bool
  | add | sub | and | or | xor | shl | shr | sar => true
  | _ => false

def isComparison : BinaryOpcode → Bool
  | eq | ne | lt | le | gt | ge | ltU | leU | gtU | geU => true
  | _ => false

end BinaryOpcode

/-- The kinds of instructions that a lifter uses, with the type of the value they define. -/
inductive Lowerable (Γ : Types) : InstructionKind → Option Ty → Prop
  | const64 (value : BitVec 64) : Lowerable Γ (.const .i64 value) (some .i64)
  | const32 (value : BitVec 64) (hlow : -65536 ≤ value.toInt) (hhigh : value.toInt < 65536) :
    Lowerable Γ (.const .i32 value) (some .i32)
  | arithmetic {opcode ty lhs rhs} (hop : opcode.isArithmetic = true) (hty : ty = .i32 ∨ ty = .i64)
    (hl : Γ lhs = some ty) (hr : Γ rhs = some ty) :
    Lowerable Γ (.binaryOp opcode ty lhs rhs) (some ty)
  | comparison {opcode ty lhs rhs} (hop : opcode.isComparison = true) (hty : ty = .i1 ∨ ty = .i64)
    (hl : Γ lhs = some .i64) (hr : Γ rhs = some .i64) :
    Lowerable Γ (.binaryOp opcode ty lhs rhs) (some ty)
  | sext {ty operand} (hty : ty = .i8 ∨ ty = .i16 ∨ ty = .i32) (h : Γ operand = some ty) :
    Lowerable Γ (.sext .i64 operand) (some .i64)
  | zext {operand} (h : Γ operand = some .i32) : Lowerable Γ (.zext .i64 operand) (some .i64)
  | trunc {operand} (h : Γ operand = some .i64) : Lowerable Γ (.trunc .i32 operand) (some .i32)
  | load {ty address} (hty : ty ≠ .i1) (ha : Γ address = some .i64) :
    Lowerable Γ (.load ty address) (some ty)
  | store {ty value address} (hty : ty = .i32 ∨ ty = .i64) (hv : Γ value = some ty)
    (ha : Γ address = some .i64) : Lowerable Γ (.store value address) none
  | regRead {regNumber} (hr : regNumber < 32) : Lowerable Γ (.regRead regNumber) (some .i64)
  | regWrite {regNumber value} (hr : regNumber < 32) (hv : Γ value = some .i64) :
    Lowerable Γ (.regWrite regNumber value) none

/-- Every instruction is `Lowerable` where it stands and has an id that is not defined yet. -/
inductive WellTyped : Types → List Instruction → Types → Prop
  | nil (Γ : Types) : WellTyped Γ [] Γ
  | cons {Γ Γ' : Types} {inst : Instruction} {is : List Instruction} {ty : Option Ty}
    (hfresh : Γ inst.valueId = none) (hlow : Lowerable Γ inst.kind ty)
    (hrest : WellTyped (Γ.extend inst.valueId ty) is Γ') : WellTyped Γ (inst :: is) Γ'

/-- The values that a terminator reads have the types that the lifter gives them. -/
inductive Terminator.Typed (Γ : Types) : Terminator → Prop
  | branch (target : BitVec 64) : Typed Γ (.branch target)
  | condBranch {condition : ValueId} (trueBlock falseBlock : BitVec 64)
    (h : Γ condition = some .i1) : Typed Γ (.condBranch condition trueBlock falseBlock)
  | ret : Typed Γ (.ret none)
  | retValue {value : ValueId} (h : Γ value = some .i64) : Typed Γ (.ret (some value))

def BasicBlock.WellTyped (block : BasicBlock) : Prop :=
  ∃ Γ, IR.WellTyped (fun _ => none) block.instructions Γ ∧ block.terminator.Typed Γ

inductive Runs (valid : Valid) : EvalState → List Instruction → EvalState → Prop
  | nil (s : EvalState) : Runs valid s [] s
  | cons {s s' s'' : EvalState} {inst : Instruction} {is : List Instruction} {ty : Option Ty}
    (hfresh : s.env inst.valueId = none) (hlow : Lowerable s.env.types inst.kind ty)
    (hstep : evalInstruction valid s inst = some s') (hrest : Runs valid s' is s'') :
    Runs valid s (inst :: is) s''

theorem Runs.snoc {valid : Valid} {s s' s'' : EvalState} {is : List Instruction}
    {inst : Instruction} {ty : Option Ty} (h : Runs valid s is s')
    (hfresh : s'.env inst.valueId = none) (hlow : Lowerable s'.env.types inst.kind ty)
    (hstep : evalInstruction valid s' inst = some s'') : Runs valid s (is ++ [inst]) s'' := by
  induction h with
  | nil s => exact .cons hfresh hlow hstep (.nil _)
  | cons hfresh' hlow' hstep' _ ih => exact .cons hfresh' hlow' hstep' (ih hfresh hlow hstep)

theorem Runs.eval {valid : Valid} {s s' : EvalState} {is : List Instruction}
    (h : Runs valid s is s') : evalInstructions valid is s = some s' := by
  induction h with
  | nil s => rfl
  | cons _ _ hstep _ ih => simp [evalInstructions, hstep, ih]

theorem types_eq_some {env : Env} {id : ValueId} {ty : Ty} :
    env.types id = some ty ↔ ∃ v, env id = some v ∧ v.ty = ty := by
  simp [Env.types]

theorem define_types (s : EvalState) (id : ValueId) (v : Value) :
    (s.define id v).env.types = s.env.types.extend id (some v.ty) := by
  funext k
  by_cases hk : k = id
  · subst hk
    simp [Env.types, EvalState.define, Types.extend]
  · simp [Env.types, EvalState.define, Types.extend, Function.update_of_ne hk]

theorem arithmetic_ty {opcode : BinaryOpcode} {ty : Ty} {a b v : Value}
    (h : arithmetic opcode ty a b = some v) : v.ty = ty := by
  cases opcode <;> simp [arithmetic] at h <;> simp [← h]

theorem evalBinary_ty {opcode : BinaryOpcode} {ty : Ty} {a b v : Value}
    (h : evalBinary opcode ty a b = some v) : v.ty = ty := by
  unfold evalBinary at h
  split at h
  · split at h
    · cases h
      rfl
    · cases h
  · split at h
    · exact arithmetic_ty h
    · cases h

theorem evalInstruction_types {valid : Valid} {s s' : EvalState} {inst : Instruction}
    {ty : Option Ty} (hlow : Lowerable s.env.types inst.kind ty)
    (hstep : evalInstruction valid s inst = some s') :
    s'.env.types = s.env.types.extend inst.valueId ty := by
  obtain ⟨id, kind⟩ := inst
  dsimp only at hlow
  cases hlow with
  | const64 value =>
    cases hstep
    exact define_types ..
  | const32 value =>
    cases hstep
    exact define_types ..
  | arithmetic hop hty hl hr =>
    simp only [evalInstruction, Option.bind_eq_bind, Option.bind_eq_some_iff] at hstep
    obtain ⟨a, -, b, -, v, hv, heq⟩ := hstep
    cases heq
    rw [define_types, evalBinary_ty hv]
  | comparison hop hty hl hr =>
    simp only [evalInstruction, Option.bind_eq_bind, Option.bind_eq_some_iff] at hstep
    obtain ⟨a, -, b, -, v, hv, heq⟩ := hstep
    cases heq
    rw [define_types, evalBinary_ty hv]
  | sext hty h =>
    simp only [evalInstruction, Option.bind_eq_bind, Option.bind_eq_some_iff] at hstep
    obtain ⟨a, -, heq⟩ := hstep
    split at heq <;> cases heq
    exact define_types ..
  | zext h =>
    simp only [evalInstruction, Option.bind_eq_bind, Option.bind_eq_some_iff] at hstep
    obtain ⟨a, -, heq⟩ := hstep
    split at heq <;> cases heq
    exact define_types ..
  | trunc h =>
    simp only [evalInstruction, Option.bind_eq_bind, Option.bind_eq_some_iff] at hstep
    obtain ⟨a, -, heq⟩ := hstep
    split at heq <;> cases heq
    exact define_types ..
  | load hty ha =>
    simp only [evalInstruction, Option.bind_eq_bind, Option.bind_eq_some_iff] at hstep
    obtain ⟨a, -, heq⟩ := hstep
    split at heq <;> cases heq
    exact define_types ..
  | store hty hv ha =>
    simp only [evalInstruction, Option.bind_eq_bind, Option.bind_eq_some_iff] at hstep
    obtain ⟨v, -, a, -, heq⟩ := hstep
    split at heq <;> cases heq
    rfl
  | regRead hr =>
    cases hstep
    exact define_types ..
  | regWrite hr hv =>
    simp only [evalInstruction, Option.bind_eq_bind, Option.bind_eq_some_iff] at hstep
    obtain ⟨v, -, heq⟩ := hstep
    split at heq <;> cases heq
    rfl

theorem Runs.typed {valid : Valid} {s s' : EvalState} {is : List Instruction}
    (h : Runs valid s is s') : WellTyped s.env.types is s'.env.types := by
  induction h with
  | nil s => exact .nil _
  | cons hfresh hlow hstep _ ih =>
    refine .cons (by simp [Env.types, hfresh]) hlow ?_
    rw [← evalInstruction_types hlow hstep]
    exact ih

end DinoRisc.IR
