import DinoRisc.Lifter.Invariant
import DinoRisc.RiscV.Isa

/-!
One lifted instruction keeps the invariant: the sequential state moves by one step of the ISA.
-/

namespace DinoRisc.Lifter

open IR ByteMemory RiscV

theorem ofBits_signed (ty : Ty) (x : BitVec 64) :
    (Value.ofBits ty x).signed = (x.setWidth ty.width).signExtend 64 := by
  simp [Value.signed, Value.ofBits, BitVec.setWidth_setWidth_of_le _ ty.width_le]

/-- The IR opcode computes the ISA operation on 64-bit values. -/
def Computes (op : RiscV.Opcode) (opcode : BinaryOpcode) : Prop :=
  (opcode.isArithmetic = true ∨ opcode.isComparison = true) ∧ ∃ f, Isa.alu op = some f ∧
    ∀ a b, evalBinary opcode .i64 (.ofBits .i64 a) (.ofBits .i64 b) = some (.ofBits .i64 (f a b))

/-- The IR opcode computes the ISA operation on the low words, up to the sign extension. -/
def ComputesWord (op : RiscV.Opcode) (opcode : BinaryOpcode) : Prop :=
  opcode.isArithmetic = true ∧ ∃ f, Isa.alu op = some f ∧
    ∀ a b, ∃ v : Value, v.ty = .i32 ∧
      evalBinary opcode .i32 (.ofBits .i32 a) (.ofBits .i32 b) = some v ∧ v.signed = f a b

theorem computes_of_mem (p : RiscV.Opcode × BinaryOpcode) (h : p ∈ [(.add, .add), (.sub, .sub),
    (.and, .and), (.or, .or), (.xor, .xor), (.sll, .shl), (.srl, .shr), (.sra, .sar), (.slt, .lt),
    (.sltu, .ltU)]) : Computes p.1 p.2 := by
  simp only [List.mem_cons, List.not_mem_nil, or_false] at h
  rcases h with rfl | rfl | rfl | rfl | rfl | rfl | rfl | rfl | rfl | rfl <;>
    exact ⟨by decide, _, rfl, fun a b => by
      simp [evalBinary, comparison, arithmetic, ofCondition, Ty.width]⟩

theorem computesWord_add : ComputesWord .addw .add := by
  refine ⟨rfl, _, rfl, fun a b => ⟨_, rfl, rfl, ?_⟩⟩
  rw [ofBits_signed, Value.ofBits_bits, Value.ofBits_bits]
  simp [Ty.width, BitVec.setWidth_add]

theorem computesWord_shl : ComputesWord .sllw .shl := by
  refine ⟨rfl, _, rfl, fun a b => ⟨_, rfl, rfl, ?_⟩⟩
  rw [ofBits_signed, Value.ofBits_bits, Value.ofBits_bits]
  have hb : b.toNat % 4294967296 % 18446744073709551616 % 32 = b.toNat % 32 := by omega
  simp [Ty.width, hb]

variable {valid : Valid} {g₀ g : Guest} {l l' : Lifter} {s s' : EvalState}
  {inst : RiscV.Instruction}

/-- The lifter has a state that tracks `g` and has all its writes pending. -/
def InBody (valid : Valid) (g₀ : Guest) (l : Lifter) (g : Guest) : Prop :=
  ∃ s, Tracks valid g₀ l s g ∧ Pending g₀ l s g

theorem InBody.finish {l₁ : Lifter} {rd : ℕ} {id : ValueId} {x : BitVec 64}
    (p : Pending g₀ l s g) (e : Grows l s l₁ s') (t : Tracks valid g₀ l₁ s' g) (hrd : rd < 32)
    (hid : s'.env id = some (.ofBits .i64 x)) :
    InBody valid g₀ (l₁.setRegisterValue rd id) (g.writeRegister rd x) :=
  ⟨s', t.setRegisterValue rd hid, (p.grow e).setRegisterValue hrd id x⟩

theorem binaryOp_lowerable {Γ : Types} {opcode : BinaryOpcode} {lhs rhs : ValueId}
    (h : opcode.isArithmetic = true ∨ opcode.isComparison = true) (hl : Γ lhs = some .i64)
    (hr : Γ rhs = some .i64) : Lowerable Γ (.binaryOp opcode .i64 lhs rhs) (some .i64) := by
  rcases h with h | h
  · exact .arithmetic h (.inr rfl) hl hr
  · exact .comparison h (.inr rfl) hl hr

theorem liftRTypeBinaryOp_body {op : RiscV.Opcode} {opcode : BinaryOpcode} {rd rs1 rs2 : ℕ}
    (hc : Computes op opcode) (hrd : rd < 32) (hrs1 : rs1 < 32) (hrs2 : rs2 < 32)
    (hops : inst.operands = [.register rd, .register rs1, .register rs2])
    (h : InBody valid g₀ l g) :
    ∃ l', l.liftRTypeBinaryOp inst opcode .i64 = .ok l' ∧ ∃ f, Isa.alu op = some f ∧
      InBody valid g₀ l' (g.writeRegister rd (f (g.reg rs1) (g.reg rs2))) := by
  obtain ⟨hk, f, hf, hv⟩ := hc
  obtain ⟨s, t, p⟩ := h
  obtain ⟨s₁, t₁, e₁, v₁⟩ := t.getRegisterValue hrs1
  obtain ⟨s₂, t₂, e₂, v₂⟩ := t₁.getRegisterValue hrs2
  have v₁' := e₂.env _ _ v₁
  obtain ⟨s₃, t₃, e₃, v₃⟩ :=
    t₂.binaryOp _ (binaryOp_lowerable hk (typed v₁') (typed v₂)) v₁' v₂ (hv _ _)
  refine ⟨_, ?_, f, hf, InBody.finish p (e₁.trans (e₂.trans e₃)) t₃ hrd v₃⟩
  simp [Lifter.liftRTypeBinaryOp, RiscV.Instruction.getRegister, hops]
  rfl

theorem liftITypeBinaryOp_body {op : RiscV.Opcode} {opcode : BinaryOpcode} {rd rs1 : ℕ}
    {imm : BitVec 64} (hc : Computes op opcode) (hrd : rd < 32) (hrs1 : rs1 < 32)
    (hops : inst.operands = [.register rd, .register rs1, .immediate imm])
    (h : InBody valid g₀ l g) :
    ∃ l', l.liftITypeBinaryOp inst opcode .i64 = .ok l' ∧ ∃ f, Isa.alu op = some f ∧
      InBody valid g₀ l' (g.writeRegister rd (f (g.reg rs1) imm)) := by
  obtain ⟨hk, f, hf, hv⟩ := hc
  obtain ⟨s, t, p⟩ := h
  obtain ⟨s₁, t₁, e₁, v₁⟩ := t.getRegisterValue hrs1
  obtain ⟨s₂, t₂, e₂, v₂⟩ := t₁.const64 imm
  have v₁' := e₂.env _ _ v₁
  obtain ⟨s₃, t₃, e₃, v₃⟩ :=
    t₂.binaryOp _ (binaryOp_lowerable hk (typed v₁') (typed v₂)) v₁' v₂ (hv _ _)
  refine ⟨_, ?_, f, hf, InBody.finish p (e₁.trans (e₂.trans e₃)) t₃ hrd v₃⟩
  simp [Lifter.liftITypeBinaryOp, RiscV.Instruction.getRegister, RiscV.Instruction.getImmediate, hops]
  rfl

theorem liftWTypeBinaryOp_body {op : RiscV.Opcode} {opcode : BinaryOpcode} {rd rs1 rs2 : ℕ}
    (hc : ComputesWord op opcode) (hrd : rd < 32) (hrs1 : rs1 < 32) (hrs2 : rs2 < 32)
    (hops : inst.operands = [.register rd, .register rs1, .register rs2])
    (h : InBody valid g₀ l g) :
    ∃ l', l.liftWTypeBinaryOp inst opcode = .ok l' ∧ ∃ f, Isa.alu op = some f ∧
      InBody valid g₀ l' (g.writeRegister rd (f (g.reg rs1) (g.reg rs2))) := by
  obtain ⟨hk, f, hf, hv⟩ := hc
  obtain ⟨s, t, p⟩ := h
  obtain ⟨s₁, t₁, e₁, v₁⟩ := t.getRegisterValue hrs1
  obtain ⟨s₂, t₂, e₂, v₂⟩ := t₁.getRegisterValue hrs2
  obtain ⟨s₃, t₃, e₃, v₃⟩ := t₂.trunc (e₂.env _ _ v₁)
  obtain ⟨s₄, t₄, e₄, v₄⟩ := t₃.trunc (e₃.env _ _ v₂)
  have v₃' := e₄.env _ _ v₃
  obtain ⟨v, hty, hval, hsigned⟩ := hv (g.reg rs1) (g.reg rs2)
  obtain ⟨s₅, t₅, e₅, v₅⟩ :=
    t₄.binaryOp _ (.arithmetic hk (.inl rfl) (typed v₃') (typed v₄)) v₃' v₄ hval
  obtain ⟨s₆, t₆, e₆, v₆⟩ := t₅.sext (.inr (.inr hty)) v₅
  rw [hsigned] at v₆
  refine ⟨_, ?_, f, hf, InBody.finish p
    (e₁.trans (e₂.trans (e₃.trans (e₄.trans (e₅.trans e₆))))) t₆ hrd v₆⟩
  simp [Lifter.liftWTypeBinaryOp, RiscV.Instruction.getRegister, hops]
  rfl

theorem liftWTypeImmOp_body {op : RiscV.Opcode} {opcode : BinaryOpcode} {rd rs1 : ℕ}
    {imm : BitVec 12} (hc : ComputesWord op opcode) (hrd : rd < 32) (hrs1 : rs1 < 32)
    (hops : inst.operands = [.register rd, .register rs1, .immediate (imm.signExtend 64)])
    (h : InBody valid g₀ l g) :
    ∃ l', l.liftWTypeImmOp inst opcode = .ok l' ∧ ∃ f, Isa.alu op = some f ∧
      InBody valid g₀ l' (g.writeRegister rd (f (g.reg rs1) (imm.signExtend 64))) := by
  obtain ⟨hk, f, hf, hv⟩ := hc
  obtain ⟨s, t, p⟩ := h
  obtain ⟨s₁, t₁, e₁, v₁⟩ := t.getRegisterValue hrs1
  obtain ⟨s₂, t₂, e₂, v₂⟩ := t₁.const32 imm
  obtain ⟨s₃, t₃, e₃, v₃⟩ := t₂.trunc (e₂.env _ _ v₁)
  have v₂' := e₃.env _ _ v₂
  obtain ⟨v, hty, hval, hsigned⟩ := hv (g.reg rs1) (imm.signExtend 64)
  obtain ⟨s₄, t₄, e₄, v₄⟩ :=
    t₃.binaryOp _ (.arithmetic hk (.inl rfl) (typed v₃) (typed v₂')) v₃ v₂' hval
  obtain ⟨s₅, t₅, e₅, v₅⟩ := t₄.sext (.inr (.inr hty)) v₄
  rw [hsigned] at v₅
  refine ⟨_, ?_, f, hf, InBody.finish p
    (e₁.trans (e₂.trans (e₃.trans (e₄.trans e₅)))) t₅ hrd v₅⟩
  simp [Lifter.liftWTypeImmOp, RiscV.Instruction.getRegister, RiscV.Instruction.getImmediate, hops]
  rfl

theorem Tracks.addImmediate (t : Tracks valid g₀ l s g) {id : ValueId} {x : BitVec 64}
    (hid : s.env id = some (.ofBits .i64 x)) (imm : BitVec 64) :
    Yields valid g₀ g l s
      ((l.createConstant .i64 imm).2.createBinaryOp .add .i64 id (l.createConstant .i64 imm).1)
      (.ofBits .i64 (x + imm)) := by
  obtain ⟨s₁, t₁, e₁, v₁⟩ := t.const64 imm
  have hid' := e₁.env _ _ hid
  obtain ⟨s₂, t₂, e₂, v₂⟩ := t₁.binaryOp .add (v := .ofBits .i64 (x + imm))
    (.arithmetic rfl (.inr rfl) (typed hid') (typed v₁)) hid' v₁
    (by simp [evalBinary, comparison, arithmetic])
  exact ⟨s₂, t₂, e₁.trans e₂, v₂⟩

theorem Tracks.extendLoaded (t : Tracks valid g₀ l s g) {ty : Ty} {sign : Bool} {id : ValueId}
    {x : BitVec 64} (hty : ty = .i8 ∧ sign = true ∨ ty = .i16 ∧ sign = true ∨ ty = .i32 ∨ ty = .i64)
    (hx : (x.setWidth (8 * ty.bytes)).setWidth 64 = x) (hid : s.env id = some (.ofBits ty x)) :
    Yields valid g₀ g l s
      (if ty ≠ .i64 then if sign then l.createSext .i64 id else l.createZext .i64 id else (id, l))
      (.ofBits .i64 (Isa.extend ty.bytes sign x)) := by
  have hsext : ty = .i8 ∨ ty = .i16 ∨ ty = .i32 → Yields valid g₀ g l s (l.createSext .i64 id)
      (.ofBits .i64 ((x.setWidth ty.width).signExtend 64)) := by
    intro h
    have := t.sext (a := .ofBits ty x) h hid
    rwa [ofBits_signed] at this
  rcases hty with ⟨rfl, rfl⟩ | ⟨rfl, rfl⟩ | rfl | rfl
  · exact hsext (.inl rfl)
  · exact hsext (.inr (.inl rfl))
  · cases sign with
    | true => exact hsext (.inr (.inr rfl))
    | false =>
      have := t.zext (a := .ofBits .i32 x) rfl hid
      rwa [Value.ofBits_bits, show Ty.width .i32 = 8 * Ty.bytes .i32 from rfl, hx] at this
  · have hext : Isa.extend 8 sign x = x := by cases sign <;> simp [Isa.extend]
    refine ⟨s, t, .refl l s, ?_⟩
    rw [show Ty.bytes .i64 = 8 from rfl, hext]
    exact hid

theorem liftLoadInstruction_body {rd rs1 : ℕ} {imm : BitVec 64} {ty : Ty} {sign : Bool}
    (hty : ty = .i8 ∧ sign = true ∨ ty = .i16 ∧ sign = true ∨ ty = .i32 ∨ ty = .i64)
    (hrd : rd < 32) (hrs1 : rs1 < 32)
    (hops : inst.operands = [.register rd, .register rs1, .immediate imm])
    (hx : valid (g.reg rs1 + imm) ty.bytes = true) (h : InBody valid g₀ l g) :
    ∃ l', l.liftLoadInstruction inst ty sign = .ok l' ∧ InBody valid g₀ l' (g.writeRegister rd
      (Isa.extend ty.bytes sign (load g.mem (g.reg rs1 + imm) ty.bytes))) := by
  obtain ⟨s, t, p⟩ := h
  obtain ⟨s₁, t₁, e₁, v₁⟩ := t.getRegisterValue hrs1
  obtain ⟨s₂, t₂, e₂, v₂⟩ := t₁.addImmediate v₁ imm
  have hne : ty ≠ .i1 := by rcases hty with ⟨rfl, -⟩ | ⟨rfl, -⟩ | rfl | rfl <;> decide
  obtain ⟨s₃, t₃, e₃, v₃⟩ := t₂.load hne v₂ hx
  obtain ⟨s₄, t₄, e₄, v₄⟩ := t₃.extendLoaded hty (load_setWidth _ _ ty.bytes_le) v₃
  refine ⟨_, ?_, InBody.finish p (e₁.trans (e₂.trans (e₃.trans e₄))) t₄ hrd v₄⟩
  simp [Lifter.liftLoadInstruction, RiscV.Instruction.getRegister,
    RiscV.Instruction.getImmediate, hops]
  rfl

theorem InBody.store (t : Tracks valid g₀ l s g) (p : Pending g₀ l s g) {value address : ValueId}
    {v : Value} {x : BitVec 64} (hty : v.ty = .i32 ∨ v.ty = .i64) (hv : s.env value = some v)
    (ha : s.env address = some (.ofBits .i64 x)) (hx : valid x v.ty.bytes = true) :
    InBody valid g₀ (l.createStore value address).2
      { g with mem := store g.mem x v.ty.bytes v.bits } := by
  have hstep : evalInstruction valid s ⟨l.nextValueId, .store value address⟩ =
      some { s with guest := { s.guest with mem := ByteMemory.store s.guest.mem x v.ty.bytes v.bits } } := by
    simp [evalInstruction, hv, ha, hx]
  refine ⟨_, ⟨t.runs.snoc (t.fresh _ le_rfl) (.store hty (typed hv) (typed ha)) hstep, ?_, ?_,
    t.cached, t.uncached⟩, ⟨p.unwritten, p.modified, p.kept⟩⟩
  · intro id hid
    have hlt : l.nextValueId < id := hid
    exact t.fresh id hlt.le
  · simp [t.mem]

theorem liftStoreInstruction_body {rs1 rs2 : ℕ} {imm : BitVec 64} {ty : Ty}
    (hty : ty = .i32 ∨ ty = .i64) (hrs1 : rs1 < 32) (hrs2 : rs2 < 32)
    (hops : inst.operands = [.register rs1, .register rs2, .immediate imm])
    (hx : valid (g.reg rs1 + imm) ty.bytes = true) (h : InBody valid g₀ l g) :
    ∃ l', l.liftStoreInstruction inst ty = .ok l' ∧ InBody valid g₀ l'
      { g with mem := store g.mem (g.reg rs1 + imm) ty.bytes (g.reg rs2) } := by
  obtain ⟨s, t, p⟩ := h
  obtain ⟨s₁, t₁, e₁, v₁⟩ := t.getRegisterValue hrs1
  obtain ⟨s₂, t₂, e₂, v₂⟩ := t₁.getRegisterValue hrs2
  obtain ⟨s₃, t₃, e₃, v₃⟩ := t₂.addImmediate (e₂.env _ _ v₁) imm
  have v₂' := e₃.env _ _ v₂
  have e := e₁.trans (e₂.trans e₃)
  rcases hty with rfl | rfl
  · obtain ⟨s₄, t₄, e₄, v₄⟩ := t₃.trunc v₂'
    have hb := InBody.store t₄ (p.grow (e.trans e₄)) (.inl rfl) v₄ (e₄.env _ _ v₃) hx
    have hval : store g.mem (g.reg rs1 + imm) 4 (Value.ofBits .i32 (g.reg rs2)).bits =
        store g.mem (g.reg rs1 + imm) 4 (g.reg rs2) := store_setWidth _ _ 4 _
    rw [Value.ofBits_ty, show Ty.bytes .i32 = 4 from rfl, hval] at hb
    refine ⟨_, ?_, hb⟩
    simp [Lifter.liftStoreInstruction, RiscV.Instruction.getRegister,
      RiscV.Instruction.getImmediate, hops]
    rfl
  · have hb := InBody.store t₃ (p.grow e) (.inr rfl) v₂' v₃ hx
    rw [Value.ofBits_bits_i64] at hb
    refine ⟨_, ?_, hb⟩
    simp [Lifter.liftStoreInstruction, RiscV.Instruction.getRegister,
      RiscV.Instruction.getImmediate, hops]
    rfl

/-- The instruction whose meaning the lifter gives to `inst`: it shifts the immediate of `lui` and
`auipc`, which the decoder has already shifted. -/
def rescaled (inst : RiscV.Instruction) : RiscV.Instruction :=
  if inst.opcode.isUpperImmediate then
    match inst.operands with
    | [.register rd, .immediate imm] =>
      { inst with operands := [.register rd, .immediate (imm <<< 12)] }
    | _ => inst
  else inst

theorem rescaled_of_not {inst : RiscV.Instruction} (h : inst.opcode.isUpperImmediate = false) :
    rescaled inst = inst := by
  simp [rescaled, h]

/-- What lifting `inst` does to the sequential state, if the ISA steps from `g` to `g'`. -/
def Follows (valid : Valid) (g₀ : Guest) (l : Lifter) (inst : RiscV.Instruction) (g' : Guest) :
    Prop :=
  ∃ l', l.liftSingleInstruction inst = .ok l' ∧ InBody valid g₀ l' g'

section

variable {g' : Guest} {pc : BitVec 64}

theorem follows_register {opcode : BinaryOpcode} (hs : Shaped .r inst.operands)
    (hc : Computes inst.opcode opcode)
    (hl : l.liftSingleInstruction inst = l.liftRTypeBinaryOp inst opcode .i64)
    (h : InBody valid g₀ l g) (hstep : Isa.step valid inst g = some (g', pc)) :
    Follows valid g₀ l inst g' := by
  generalize hops : inst.operands = operands at hs
  cases hs with
  | r hrd hrs1 hrs2 =>
    obtain ⟨l', hok, f, hf, hb⟩ := liftRTypeBinaryOp_body hc hrd hrs1 hrs2 hops h
    rw [Isa.step_register hops hf] at hstep
    cases hstep
    exact ⟨l', hl.trans hok, hb⟩

theorem follows_immediate {opcode : BinaryOpcode} {op : RiscV.Opcode}
    (hs : Shaped .i inst.operands) (hform : Isa.immediateForm inst.opcode = some (.alu op))
    (hc : Computes op opcode)
    (hl : l.liftSingleInstruction inst = l.liftITypeBinaryOp inst opcode .i64)
    (h : InBody valid g₀ l g) (hstep : Isa.step valid inst g = some (g', pc)) :
    Follows valid g₀ l inst g' := by
  generalize hops : inst.operands = operands at hs
  cases hs with
  | i hrd hrs1 imm =>
    obtain ⟨l', hok, f, hf, hb⟩ := liftITypeBinaryOp_body hc hrd hrs1 hops h
    rw [Isa.step_alu hops hform hf] at hstep
    cases hstep
    exact ⟨l', hl.trans hok, hb⟩

theorem follows_word {opcode : BinaryOpcode} (hs : Shaped .r inst.operands)
    (hc : ComputesWord inst.opcode opcode)
    (hl : l.liftSingleInstruction inst = l.liftWTypeBinaryOp inst opcode)
    (h : InBody valid g₀ l g) (hstep : Isa.step valid inst g = some (g', pc)) :
    Follows valid g₀ l inst g' := by
  generalize hops : inst.operands = operands at hs
  cases hs with
  | r hrd hrs1 hrs2 =>
    obtain ⟨l', hok, f, hf, hb⟩ := liftWTypeBinaryOp_body hc hrd hrs1 hrs2 hops h
    rw [Isa.step_register hops hf] at hstep
    cases hstep
    exact ⟨l', hl.trans hok, hb⟩

theorem follows_wordImmediate {opcode : BinaryOpcode} {op : RiscV.Opcode}
    (hs : Shaped .i inst.operands) (hform : Isa.immediateForm inst.opcode = some (.alu op))
    (hc : ComputesWord op opcode)
    (hl : l.liftSingleInstruction inst = l.liftWTypeImmOp inst opcode)
    (h : InBody valid g₀ l g) (hstep : Isa.step valid inst g = some (g', pc)) :
    Follows valid g₀ l inst g' := by
  generalize hops : inst.operands = operands at hs
  cases hs with
  | i hrd hrs1 imm =>
    obtain ⟨l', hok, f, hf, hb⟩ := liftWTypeImmOp_body hc hrd hrs1 hops h
    rw [Isa.step_alu hops hform hf] at hstep
    cases hstep
    exact ⟨l', hl.trans hok, hb⟩

theorem follows_load (ty : Ty) (sign : Bool) {sign' : Bool} (hs : Shaped .i inst.operands)
    (hty : ty = .i8 ∧ sign = true ∨ ty = .i16 ∧ sign = true ∨ ty = .i32 ∨ ty = .i64)
    (hform : Isa.immediateForm inst.opcode = some (.load ty.bytes sign'))
    (hsign : ∀ x, Isa.extend ty.bytes sign x = Isa.extend ty.bytes sign' x)
    (hl : l.liftSingleInstruction inst = l.liftLoadInstruction inst ty sign)
    (h : InBody valid g₀ l g) (hstep : Isa.step valid inst g = some (g', pc)) :
    Follows valid g₀ l inst g' := by
  generalize hops : inst.operands = operands at hs
  cases hs with
  | i hrd hrs1 imm =>
    rw [Isa.step_load hops hform] at hstep
    split at hstep <;> cases hstep
    rename_i hx
    obtain ⟨l', hok, hb⟩ := liftLoadInstruction_body hty hrd hrs1 hops hx h
    rw [hsign] at hb
    exact ⟨l', hl.trans hok, hb⟩

theorem follows_store (ty : Ty) (hs : Shaped .s inst.operands) (hty : ty = .i32 ∨ ty = .i64)
    (hform : Isa.immediateForm inst.opcode = some (.store ty.bytes))
    (hl : l.liftSingleInstruction inst = l.liftStoreInstruction inst ty)
    (h : InBody valid g₀ l g) (hstep : Isa.step valid inst g = some (g', pc)) :
    Follows valid g₀ l inst g' := by
  generalize hops : inst.operands = operands at hs
  cases hs with
  | s hrs1 hrs2 imm =>
    rw [Isa.step_store hops hform] at hstep
    split at hstep <;> cases hstep
    rename_i hx
    obtain ⟨l', hok, hb⟩ := liftStoreInstruction_body hty hrs1 hrs2 hops hx h
    exact ⟨l', hl.trans hok, hb⟩

end

end DinoRisc.Lifter
