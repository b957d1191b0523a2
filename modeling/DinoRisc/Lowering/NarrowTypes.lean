import DinoRisc.Arm64.Effect
import DinoRisc.Arm64.EncoderCorrect
import DinoRisc.IR.Comparison
import DinoRisc.Lowering.EncoderCoverage
import DinoRisc.Lowering.Operations

/-! What the selected code makes of values that are narrower than their registers. -/

namespace DinoRisc

open Arm64 IR InstructionSelector

namespace Arm64.Reaches

variable {inst : Arm64.Instruction} {code : List Arm64.Instruction} {m m₁ m' : Machine}

theorem of_cons (h : Reaches (inst :: code) m m') (hstep : exec inst m = some (.next m₁)) :
    Reaches code m₁ m' := by
  cases h with
  | cons hstep' h =>
    cases hstep.symm.trans hstep'
    exact h

theorem of_single (h : Reaches [inst] m m') (hstep : exec inst m = some (.next m₁)) : m' = m₁ := by
  cases h.of_cons hstep
  rfl

end Arm64.Reaches

namespace InstructionSelector

variable {σ σ' σ₀ σ₁ : InstructionSelector} {inst : IR.Instruction} {code : Code} {id a : ValueId}
  {ty : Ty} {d l vreg : VirtualRegister} {before : List IR.Instruction} {m m' m₀ : Machine}

def held (σ : InstructionSelector) (m : Machine) (id : ValueId) : BitVec 64 :=
  match σ.irToVReg id with
  | some vreg => m.reg (.virtual vreg)
  | none => 0#64

theorem held_eq (h : σ.irToVReg id = some vreg) : σ.held m id = m.reg (.virtual vreg) := by
  rw [held, h]

/-- The value of an operand of an instruction behind `before`: the low bits of its register, at the
width of its type. -/
def operandValue (before : List IR.Instruction) (σ : InstructionSelector) (m : Machine)
    (id : ValueId) : Value :=
  .ofBits (recordedType before id) (σ.held m id)

/-- A comparison, an extension or a truncation leaves in its register what its operands ask for. -/
def Yields (before : List IR.Instruction) (σ : InstructionSelector) (m m' : Machine)
    (inst : IR.Instruction) : Prop :=
  let value := operandValue before σ m
  let result := σ.held m' inst.valueId
  match inst.kind with
  | .binaryOp opcode _ lhs rhs =>
    ∀ c, comparison opcode (value lhs) (value rhs) = some c → result = if c then 1#64 else 0#64
  | .sext toType operand => Value.ofBits toType result = .ofBits toType (value operand).signed
  | .zext toType operand | .trunc toType operand =>
    Value.ofBits toType result = .ofBits toType (value operand).bits
  | _ => True

/-- What the selector takes for granted of the registers of the operands. -/
def Extended (before : List IR.Instruction) (σ : InstructionSelector) (m : Machine)
    (inst : IR.Instruction) : Prop :=
  let value := operandValue before σ m
  match inst.kind with
  | .binaryOp opcode _ lhs rhs =>
    -- the registers exceed their values alike, or in the order of the values
    let ty := recordedType before lhs
    let excess := fun id => opcode.excess ty (σ.held m id)
    excess lhs = excess rhs ∨ opcode.relates (excess lhs) (excess rhs) =
      opcode.relates (opcode.number ty (σ.held m lhs)) (opcode.number ty (σ.held m rhs))
  | .sext toType operand =>
    (recordedType before operand ∈ [.i8, .i16, .i32] ∧ operand ≠ inst.valueId) ∨
      Value.ofBits toType (σ.held m operand) = .ofBits toType (value operand).signed
  | .zext toType operand =>
    (recordedType before operand ∈ [.i8, .i16] ∧ operand ≠ inst.valueId) ∨
      Value.ofBits toType (σ.held m operand) = .ofBits toType (value operand).bits
  | _ => True

/-- Binary operands have equal types, extensions widen and truncations narrow. -/
def TypedAt (before : List IR.Instruction) (inst : IR.Instruction) : Prop :=
  match inst.kind with
  | .binaryOp _ _ lhs rhs => recordedType before lhs = recordedType before rhs
  | .sext toType operand | .zext toType operand =>
    (recordedType before operand).width < toType.width
  | .trunc toType operand => toType.width < (recordedType before operand).width
  | _ => True

/-! ### Conversions -/

section

variable {toType : Ty} {opcode : Arm64.Opcode}

theorem setWidth_signExtend {k tw sw : ℕ} (y : BitVec k) (htw : tw ≤ sw) (hsw : sw ≤ 64) :
    ((y.signExtend sw).setWidth 64).setWidth tw = (y.signExtend 64).setWidth tw := by
  apply BitVec.eq_of_getLsbD_eq
  intro i hi
  rw [BitVec.getLsbD_setWidth, BitVec.getLsbD_setWidth, BitVec.getLsbD_setWidth,
    BitVec.getLsbD_signExtend, BitVec.getLsbD_signExtend]
  simp [hi, show i < sw by omega, show i < 64 by omega]

theorem width_le_size (toType : Ty) :
    toType.width ≤ (irTypeToDataSize toType).width ∧ 32 ≤ (irTypeToDataSize toType).width ∧
      (irTypeToDataSize toType).width ≤ 64 := by
  cases toType <;> decide

theorem ofBits_eq (toType : Ty) {x y : BitVec 64}
    (h : x.setWidth toType.width = y.setWidth toType.width) :
    Value.ofBits toType x = .ofBits toType y := by
  ext1
  · rfl
  · rw [Value.ofBits_bits, Value.ofBits_bits, h]

theorem convert_mov (toType : Ty) (x : BitVec 64) :
    ∃ r, Opcode.convert (x.setWidth (irTypeToDataSize toType).width) .mov = some r ∧
      Value.ofBits toType ((irTypeToDataSize toType).result r) = .ofBits toType x := by
  obtain ⟨hle, -, hsize⟩ := width_le_size toType
  refine ⟨_, rfl, ofBits_eq toType ?_⟩
  rw [DataSize.result, BitVec.setWidth_setWidth (by omega), BitVec.setWidth_setWidth (by omega)]

theorem ofBits_signed (ty : Ty) (x : BitVec 64) :
    (Value.ofBits ty x).signed = (x.setWidth ty.width).signExtend 64 := by
  have hle := ty.width_le
  rw [Value.signed, Value.ofBits_bits, Value.ofBits_ty, BitVec.setWidth_setWidth (by omega),
    BitVec.setWidth_eq]

theorem convert_sext (ty toType : Ty) (x : BitVec 64) :
    ∃ r, (sextOpcode ty).convert (x.setWidth (irTypeToDataSize toType).width) = some r ∧
      Value.ofBits toType ((irTypeToDataSize toType).result r) = .ofBits toType
        (if ty ∈ [.i8, .i16, .i32] then (Value.ofBits ty x).signed else x) := by
  obtain ⟨hle, h32, hsize⟩ := width_le_size toType
  have hnarrow {k : ℕ} (hk : k ≤ 32) :
      Value.ofBits toType ((irTypeToDataSize toType).result
        (((x.setWidth (irTypeToDataSize toType).width).setWidth k).signExtend _)) =
        .ofBits toType ((x.setWidth k).signExtend 64) := by
    apply ofBits_eq
    rw [DataSize.result, setWidth_signExtend _ hle hsize, BitVec.setWidth_setWidth (by omega)]
  cases ty with
  | i1 | i64 => exact convert_mov toType x
  | i8 =>
    rw [ofBits_signed]
    exact ⟨_, rfl, hnarrow (k := 8) (by omega)⟩
  | i16 =>
    rw [ofBits_signed]
    exact ⟨_, rfl, hnarrow (k := 16) (by omega)⟩
  | i32 =>
    rw [ofBits_signed]
    exact ⟨_, rfl, hnarrow (k := 32) (by omega)⟩

theorem convert_zext (ty toType : Ty) (x : BitVec 64) :
    ∃ r, (zextOpcode ty).convert (x.setWidth (irTypeToDataSize toType).width) = some r ∧
      Value.ofBits toType ((irTypeToDataSize toType).result r) = .ofBits toType
        (if ty ∈ [.i8, .i16] then (Value.ofBits ty x).bits else x) := by
  obtain ⟨hle, h32, hsize⟩ := width_le_size toType
  have hnarrow {k : ℕ} (hk : k ≤ 32) :
      Value.ofBits toType ((irTypeToDataSize toType).result
        (((x.setWidth (irTypeToDataSize toType).width).setWidth k).setWidth _)) =
        .ofBits toType ((x.setWidth k).setWidth 64) := by
    have hx : (x.setWidth (irTypeToDataSize toType).width).setWidth k = x.setWidth k :=
      BitVec.setWidth_setWidth (by omega)
    apply ofBits_eq
    rw [hx, DataSize.result, BitVec.setWidth_setWidth (x := x.setWidth k) (by omega)]
  cases ty with
  | i1 | i32 | i64 => exact convert_mov toType x
  | i8 => exact ⟨_, rfl, hnarrow (k := 8) (by omega)⟩
  | i16 => exact ⟨_, rfl, hnarrow (k := 16) (by omega)⟩

theorem ofBits_signed_self (ty : Ty) (x : BitVec 64) :
    Value.ofBits ty (Value.ofBits ty x).signed = .ofBits ty x := by
  have hle := ty.width_le
  apply ofBits_eq
  rw [ofBits_signed]
  apply BitVec.eq_of_getLsbD_eq
  intro i hi
  rw [BitVec.getLsbD_setWidth, BitVec.getLsbD_signExtend, BitVec.getLsbD_setWidth]
  simp [hi, show i < 64 by omega]

theorem ofBits_bits_of_le {ty toType : Ty} (h : toType.width ≤ ty.width) (x : BitVec 64) :
    Value.ofBits toType (Value.ofBits ty x).bits = .ofBits toType x := by
  have hle := ty.width_le
  apply ofBits_eq
  rw [Value.ofBits_bits, BitVec.setWidth_setWidth (by omega), BitVec.setWidth_setWidth (by omega)]

theorem conversion_result {x y : BitVec 64} (henter : σ.enter id ty = (d, σ₁))
    (hl : σ₁.irToVReg a = some l) (hx : σ₁.held m a = x)
    (hconvert : ∃ r, opcode.convert (x.setWidth (irTypeToDataSize toType).width) = some r ∧
      Value.ofBits toType ((irTypeToDataSize toType).result r) = .ofBits toType y)
    (h : Reaches [.twoOperand opcode (irTypeToDataSize toType) (.virtual d) (.virtual l)] m m') :
    Value.ofBits toType (σ₁.held m' id) = .ofBits toType y := by
  obtain ⟨r, hr, hvalue⟩ := hconvert
  rw [held_eq hl] at hx
  subst hx
  cases h.of_single (exec_convert rfl hr)
  rw [held_eq (enter_register henter), Machine.set_reg_self, hvalue]

theorem conversion_iff {types : List Ty} {convert : Value → BitVec 64} {x result : BitVec 64}
    (hself : ∀ x, Value.ofBits toType (convert (.ofBits toType x)) = .ofBits toType x)
    (hvalue : Value.ofBits toType result = .ofBits toType
      (if (if id = a then toType else ty) ∈ types then
        convert (.ofBits (if id = a then toType else ty) x) else x)) :
    Value.ofBits toType result = .ofBits toType (convert (.ofBits ty x)) ↔
      (ty ∈ types ∧ a ≠ id) ∨ Value.ofBits toType x = .ofBits toType (convert (.ofBits ty x)) := by
  by_cases ha : id = a
  · -- the operand has been given the type of the result
    rw [if_pos ha] at hvalue
    have hresult : Value.ofBits toType result = .ofBits toType x := by
      refine hvalue.trans ?_
      split
      · exact hself x
      · rfl
    simp [hresult, ha]
  · rw [if_neg ha] at hvalue
    rw [hvalue]
    split
    · simp [*, Ne.symm ha]
    · simp [*]

end

/-! ### Comparisons -/

theorem comparison_result {opcode : BinaryOpcode} {condition : Condition} {lhs rhs : ValueId}
    {r : VirtualRegister} (henter : σ.enter id ty = (d, σ₁))
    (hcond : comparisonCondition opcode = some condition) (hl : σ₁.irToVReg lhs = some l)
    (hr : σ₁.irToVReg rhs = some r)
    (h : Reaches [.twoOperand .cmp .x (.virtual l) (.virtual r),
      .conditional .cset .x (.virtual d) condition] m m') :
    opcode.isComparison = true ∧ ∃ c,
      comparison opcode (.ofBits .i64 (σ₁.held m lhs)) (.ofBits .i64 (σ₁.held m rhs)) = some c ∧
        σ₁.held m' id = if c then 1#64 else 0#64 := by
  have hop : opcode.isComparison = true := by
    cases opcode <;> first | rfl | cases hcond
  obtain ⟨c, hc⟩ : ∃ c, comparison opcode (.ofBits .i64 (σ₁.held m lhs))
      (.ofBits .i64 (σ₁.held m rhs)) = some c := by
    rw [comparison_ofBits, if_pos hop]
    exact ⟨_, rfl⟩
  obtain ⟨condition', hcond', hholds⟩ := comparison_holds rfl rfl hc
  cases hcond.symm.trans hcond'
  have hset := (h.of_cons rfl).of_single (exec_cset rfl)
  refine ⟨hop, c, hc, ?_⟩
  rw [held_eq (enter_register henter), hset, Machine.set_reg_self, ← hholds, held_eq hl, held_eq hr,
    Value.ofBits_bits_i64, Value.ofBits_bits_i64]
  simp [Machine.compare, Machine.read, DataSize.width]

theorem Lowered.yields_iff (h : Lowered σ₀ inst code σ) (hrecords : Records σ₀ before)
    (htyped : TypedAt before inst) (hreach : Reaches code m m') :
    Yields before σ m m' inst ↔ Extended before σ m inst := by
  have hafter := h.records hrecords
  cases h with
  | @comparison id opcode ty lhs rhs condition d l r σ₁ henter hcond hl hr =>
    obtain ⟨hop, c, hc, hresult⟩ := comparison_result henter hcond hl hr hreach
    have hright : recordedType before rhs = recordedType before lhs := htyped.symm
    have hwide := comparison_wide_iff hop (recordedType before lhs) (σ.held m lhs) (σ.held m rhs)
    refine Iff.trans ?_ hwide
    simp only [Yields, operandValue, hright, hresult, hc]
    rw [comparison_ofBits, if_pos hop]
    constructor
    · intro hyields
      have hbit := hyields _ rfl
      revert hbit
      cases c <;> cases opcode.relates _ _ <;> simp
    · intro heq c' hc'
      cases heq.trans hc'
      rfl
  | @sext id toType a d l σ₁ henter hl =>
    have hvalue := conversion_result henter hl rfl
      (convert_sext (σ.getValueType a) toType (σ.held m a)) hreach
    rw [hafter, recordedType_append] at hvalue
    exact conversion_iff (ofBits_signed_self toType) hvalue
  | @zext id toType a d l σ₁ henter hl =>
    have hvalue := conversion_result henter hl rfl
      (convert_zext (σ.getValueType a) toType (σ.held m a)) hreach
    rw [hafter, recordedType_append] at hvalue
    exact conversion_iff (ofBits_bits_of_le le_rfl) hvalue
  | @trunc id toType a d l σ₁ henter hl =>
    have hvalue := conversion_result henter hl rfl (convert_mov toType (σ.held m a)) hreach
    refine iff_of_true ?_ trivial
    simp only [Yields, operandValue]
    rw [hvalue, ofBits_bits_of_le (Nat.le_of_lt htyped)]
  | @arithmetic id opcode ty lhs rhs op d l r σ₁ henter hcond hop hl hr =>
    cases opcode <;> first
      | (cases hcond; done)
      | exact iff_of_true (fun c hc => nomatch hc) (.inr rfl)
  | _ => exact Iff.rfl

/-! ### The run of a block -/

theorem Lowered.reaches (h : Lowered σ₀ inst code σ) (m : Machine) : ∃ m', Reaches code m m' := by
  cases h with
  | const henter =>
    obtain ⟨m', hreach, -⟩ :=
      reaches_of_emitted (selectConstIntoRegister_loads (.virtual _) rfl _ _).emitted m
    exact ⟨m', hreach⟩
  | comparison henter hcond hl hr => exact ⟨_, .cons rfl (.single (exec_cset rfl))⟩
  | @arithmetic id opcode ty lhs rhs op d l r σ₁ henter hcond hop hl hr =>
    have hcompute : ∃ value, op.compute ((m.read (.virtual l)).setWidth (irTypeToDataSize ty).width)
        ((m.read (.virtual r)).setWidth (irTypeToDataSize ty).width) = some value := by
      cases opcode <;> cases hop <;> exact ⟨_, rfl⟩
    obtain ⟨value, hvalue⟩ := hcompute
    exact ⟨_, .single (exec_compute rfl hvalue)⟩
  | @sext id ty a d l σ₁ henter hl =>
    obtain ⟨r, hr, -⟩ := convert_sext (σ.getValueType a) ty (m.read (.virtual l))
    exact ⟨_, .single (exec_convert rfl hr)⟩
  | @zext id ty a d l σ₁ henter hl =>
    obtain ⟨r, hr, -⟩ := convert_zext (σ.getValueType a) ty (m.read (.virtual l))
    exact ⟨_, .single (exec_convert rfl hr)⟩
  | @trunc id ty a d l σ₁ henter hl =>
    obtain ⟨r, hr, -⟩ := convert_mov ty (m.read (.virtual l))
    exact ⟨_, .single (exec_convert rfl hr)⟩
  | load henter hl =>
    obtain ⟨m', hreach, -⟩ := reaches_of_emitted (generateAddressTranslation_emitted _ _) m
    exact ⟨_, hreach.append (.single (exec_ldr rfl rfl))⟩
  | store hl hr =>
    obtain ⟨m', hreach, -⟩ := reaches_of_emitted (generateAddressTranslation_emitted _ _) m
    exact ⟨_, hreach.append (.single rfl)⟩
  | regRead henter => exact ⟨_, .single (exec_ldr rfl rfl)⟩
  | regWrite hl => exact ⟨_, .single rfl⟩

theorem selectAll_runs {instructions : List IR.Instruction} (hrecords : Records σ before)
    (hok : σ.selectAll instructions = .ok (code, σ')) :
    Records σ' (before ++ instructions) ∧ ∀ m, ∃ m', Reaches code m m' := by
  induction instructions generalizing σ before code with
  | nil =>
    cases hok
    rw [List.append_nil]
    exact ⟨hrecords, fun m => ⟨m, .nil m⟩⟩
  | cons first rest ih =>
    obtain ⟨code₁, σ₁, code₂, hok₁, hok₂, rfl⟩ := selectAll_cons hok
    have hlowered := selectInstruction_lowered hok₁
    obtain ⟨hrest, hreaches⟩ := ih (hlowered.records hrecords) hok₂
    rw [List.append_assoc, List.singleton_append] at hrest
    refine ⟨hrest, fun m => ?_⟩
    obtain ⟨m₁, hfirst⟩ := hlowered.reaches m
    obtain ⟨m₂, hlast⟩ := hreaches m₁
    exact ⟨m₂, hfirst.append hlast⟩

theorem selectAll_split {after : List IR.Instruction}
    (hok : σ.selectAll (before ++ inst :: after) = .ok (code, σ')) :
    ∃ front σ₀ current σ₁ back, σ.selectAll before = .ok (front, σ₀) ∧
      σ₀.selectInstruction inst = .ok (current, σ₁) ∧ code = front ++ current ++ back := by
  induction before generalizing σ code with
  | nil =>
    obtain ⟨code₁, σ₁, code₂, hok₁, -, rfl⟩ := selectAll_cons hok
    exact ⟨[], σ, code₁, σ₁, code₂, rfl, hok₁, rfl⟩
  | cons first before ih =>
    obtain ⟨code₁, σ₁, code₂, hok₁, hok₂, rfl⟩ := selectAll_cons hok
    obtain ⟨front, σ₂, current, σ₃, back, hfront, hcurrent, rfl⟩ := ih hok₂
    refine ⟨code₁ ++ front, σ₂, current, σ₃, back, ?_, hcurrent, by simp⟩
    simp only [selectAll, hok₁, hfront, bind, Except.bind]
    rfl

/-- The code of the block runs from `m₀` and takes `inst`, behind `before`, from `m` to `m'`. -/
structure Passes (block : BasicBlock) (code : Code) (m₀ : Machine) (before : List IR.Instruction)
    (inst : IR.Instruction) (σ : InstructionSelector) (m m' : Machine) : Prop where
  position : ∃ after, block.instructions = before ++ inst :: after
  code : ∃ front σ₀ current back, init.selectAll before = .ok (front, σ₀) ∧
    σ₀.selectInstruction inst = .ok (current, σ) ∧ code = front ++ current ++ back ∧
    Reaches front m₀ m ∧ Reaches current m m'

def TypedBlock (block : BasicBlock) : Prop :=
  ∀ before inst after, block.instructions = before ++ inst :: after → TypedAt before inst

/-- Every run passes every instruction, and the narrow operations of a run are right if and only if
the registers of their operands are extended. -/
theorem selectInstructions_narrow_iff {block : BasicBlock} (htyped : TypedBlock block)
    (hselect : init.selectInstructions block = .ok (code, σ')) (m₀ : Machine) :
    (∀ before inst after, block.instructions = before ++ inst :: after →
      ∃ σ m m', Passes block code m₀ before inst σ m m') ∧
    ((∀ before inst σ m m', Passes block code m₀ before inst σ m m' →
        Yields before σ m m' inst) ↔
      ∀ before inst σ m m', Passes block code m₀ before inst σ m m' →
        Extended before σ m inst) := by
  obtain ⟨body, σ₁, ending, hbody, hending, rfl⟩ := selectInstructions_eq_ok.mp hselect
  constructor
  · intro before inst after hsplit
    rw [hsplit] at hbody
    obtain ⟨front, σ₀, current, σ, back, hfront, hcurrent, rfl⟩ := selectAll_split hbody
    obtain ⟨m, hm⟩ := (selectAll_runs Records.init hfront).2 m₀
    obtain ⟨m', hm'⟩ := (selectInstruction_lowered hcurrent).reaches m
    exact ⟨σ, m, m', ⟨after, hsplit⟩, front, σ₀, current, back ++ ending, hfront, hcurrent,
      by simp, hm, hm'⟩
  · have hstep {before inst σ m m'} (h : Passes block (body ++ ending) m₀ before inst σ m m') :
        Yields before σ m m' inst ↔ Extended before σ m inst := by
      obtain ⟨⟨after, hsplit⟩, front, σ₀, current, back, hfront, hcurrent, -, hm, hm'⟩ := h
      exact (selectInstruction_lowered hcurrent).yields_iff (selectAll_runs Records.init hfront).1
        (htyped before inst after hsplit) hm'
    constructor
    · intro h before inst σ m m' hpass
      exact (hstep hpass).mp (h before inst σ m m' hpass)
    · intro h before inst σ m m' hpass
      exact (hstep hpass).mpr (h before inst σ m m' hpass)

def narrowBlock : BasicBlock where
  instructions := [⟨1, .const .i8 (-1#64)⟩, ⟨2, .const .i8 1#64⟩, ⟨3, .binaryOp .lt .i1 1 2⟩]
  terminator := .ret none

def narrowCode : Code :=
  [.twoOperand .movn .b (.virtual 0) (.immediate 0#64),
    .twoOperand .mov .b (.virtual 1) (.immediate 1#64),
    .twoOperand .cmp .x (.virtual 0) (.virtual 1), .conditional .cset .x (.virtual 2) .lt,
    .twoOperand .mov .x X0 (.immediate 0#64), .twoOperand .ret .x X30 X30]

theorem narrowBlock_typed : TypedBlock narrowBlock := by
  intro before inst after hsplit
  rcases before with _ | ⟨first, _ | ⟨second, _ | ⟨third, before⟩⟩⟩
  · cases hsplit
    trivial
  · cases hsplit
    trivial
  · cases hsplit
    rfl
  · simp [narrowBlock] at hsplit

theorem selectInstructions_narrow_iff_lt :
    (∀ before inst after, narrowBlock.instructions = before ++ inst :: after →
      ∃ σ m m', Passes narrowBlock narrowCode Encoder.clear before inst σ m m') ∧
    ((∀ before inst σ m m', Passes narrowBlock narrowCode Encoder.clear before inst σ m m' →
        Yields before σ m m' inst) ↔
      ∀ before inst σ m m', Passes narrowBlock narrowCode Encoder.clear before inst σ m m' →
        Extended before σ m inst) :=
  selectInstructions_narrow_iff narrowBlock_typed rfl Encoder.clear

/-- The constant -1 is zero-extended from 32 bits, so that it is not less than 1. -/
theorem selectInstructions_narrow_lt : TypedBlock narrowBlock ∧
    (∃ σ, init.selectInstructions narrowBlock = .ok (narrowCode, σ)) ∧
    ∃ before inst σ m m', Passes narrowBlock narrowCode Encoder.clear before inst σ m m' ∧
      ¬ Yields before σ m m' inst := by
  let before : List IR.Instruction := [⟨1, .const .i8 (-1#64)⟩, ⟨2, .const .i8 1#64⟩]
  have hconst : Reaches [.twoOperand .movn .b (.virtual 0) (.immediate 0#64),
      .twoOperand .mov .b (.virtual 1) (.immediate 1#64)] Encoder.clear
      ((Encoder.clear.set (.virtual 0) (DataSize.b.result 0xFFFFFFFF#32)).set (.virtual 1)
        (DataSize.b.result 1#32)) :=
    .cons (exec_convert rfl rfl) (.single (exec_convert rfl rfl))
  refine ⟨narrowBlock_typed, ⟨_, rfl⟩, before, ⟨3, .binaryOp .lt .i1 1 2⟩, _, _, _,
    ⟨⟨[], rfl⟩, _, _, _, _, rfl, rfl, rfl, hconst, .cons rfl (.single (exec_cset rfl))⟩, ?_⟩
  intro hyields
  have hresult := hyields true (by decide)
  revert hresult
  decide

end InstructionSelector

end DinoRisc
