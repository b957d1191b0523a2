import DinoRisc.IR.Typing
import DinoRisc.Lifter
import DinoRisc.RiscV.Supported

/-!
The invariant of the lifter. `Tracks` relates its register cache to the sequential state `g` of the
instructions lifted so far; `Pending` says what `finalizeRegisterWrites` still has to write.
-/

namespace DinoRisc.Lifter

open IR ByteMemory RiscV

variable {valid : Valid} {g₀ g : Guest} {l l' l'' : Lifter} {s s' s'' : EvalState}

/-- `s` is where the block's instructions lead from `g₀`. A cached register has its value in `g`;
the others still stand in the guest state. -/
structure Tracks (valid : Valid) (g₀ : Guest) (l : Lifter) (s : EvalState) (g : Guest) : Prop where
  runs : Runs valid ⟨fun _ => none, g₀⟩ l.currentInstructions s
  fresh : ∀ id, l.nextValueId ≤ id → s.env id = none
  mem : s.guest.mem = g.mem
  cached : ∀ r id, l.cachedRegisterValues r = some id →
    r ≠ 0 ∧ s.env id = some (.ofBits .i64 (g.x r))
  uncached : ∀ r, l.cachedRegisterValues r = none → s.guest.x r = g.x r

/-- Before `finalizeRegisterWrites`: nothing is written yet, and exactly the modified registers may
differ. -/
structure Pending (g₀ : Guest) (l : Lifter) (s : EvalState) (g : Guest) : Prop where
  unwritten : s.guest.x = g₀.x
  modified : ∀ r ∈ l.modifiedRegisters, r < 32 ∧ (l.cachedRegisterValues r).isSome
  kept : ∀ r, r ∉ l.modifiedRegisters → g.x r = g₀.x r

/-- From `l` and `s` to `l'` and `s'` only new values are defined. -/
structure Grows (l : Lifter) (s : EvalState) (l' : Lifter) (s' : EvalState) : Prop where
  env : ∀ id v, s.env id = some v → s'.env id = some v
  guest : s'.guest = s.guest
  modified : l'.modifiedRegisters = l.modifiedRegisters
  cached : ∀ r id, l.cachedRegisterValues r = some id → l'.cachedRegisterValues r = some id

/-- `result` is the lifter after a value `v` was added, and its id. -/
def Yields (valid : Valid) (g₀ g : Guest) (l : Lifter) (s : EvalState)
    (result : ValueId × Lifter) (v : Value) : Prop :=
  ∃ s', Tracks valid g₀ result.2 s' g ∧ Grows l s result.2 s' ∧ s'.env result.1 = some v

namespace Grows

theorem refl (l : Lifter) (s : EvalState) : Grows l s l s :=
  ⟨fun _ _ h => h, rfl, rfl, fun _ _ h => h⟩

theorem trans (h : Grows l s l' s') (h' : Grows l' s' l'' s'') : Grows l s l'' s'' where
  env id v hv := h'.env id v (h.env id v hv)
  guest := h'.guest.trans h.guest
  modified := h'.modified.trans h.modified
  cached r id hid := h'.cached r id (h.cached r id hid)

end Grows

theorem Pending.grow (p : Pending g₀ l s g) (h : Grows l s l' s') : Pending g₀ l' s' g where
  unwritten := by rw [h.guest, p.unwritten]
  modified r hr := by
    rw [h.modified] at hr
    obtain ⟨hlt, hsome⟩ := p.modified r hr
    obtain ⟨id, hid⟩ := Option.isSome_iff_exists.mp hsome
    exact ⟨hlt, by simp [h.cached r id hid]⟩
  kept r hr := p.kept r (by rwa [h.modified] at hr)

theorem typed {env : Env} {id : ValueId} {v : Value} (h : env id = some v) :
    env.types id = some v.ty :=
  types_eq_some.mpr ⟨v, h, rfl⟩

namespace Tracks

theorem env_ne (t : Tracks valid g₀ l s g) {id : ValueId} {v : Value} (h : s.env id = some v) :
    id ≠ l.nextValueId := by
  rintro rfl
  rw [t.fresh _ le_rfl] at h
  cases h

theorem define (t : Tracks valid g₀ l s g) (kind : InstructionKind) {v : Value} {ty : Option Ty}
    (hlow : Lowerable s.env.types kind ty)
    (hstep : evalInstruction valid s ⟨l.nextValueId, kind⟩ = some (s.define l.nextValueId v)) :
    Yields valid g₀ g l s (l.addInstruction kind) v := by
  have henv : ∀ id w, s.env id = some w → (s.define l.nextValueId v).env id = some w := by
    intro id w hw
    simp only [EvalState.define, Function.update_of_ne (t.env_ne hw), hw]
  refine ⟨s.define l.nextValueId v, ⟨t.runs.snoc (t.fresh _ le_rfl) hlow hstep, ?_, t.mem, ?_, t.uncached⟩,
    ⟨henv, rfl, rfl, fun _ _ h => h⟩, ?_⟩
  · intro id hid
    have hlt : l.nextValueId < id := hid
    simp only [EvalState.define, Function.update_of_ne hlt.ne']
    exact t.fresh id hlt.le
  · intro r id hid
    obtain ⟨hr, hv⟩ := t.cached r id hid
    exact ⟨hr, henv _ _ hv⟩
  · simp [addInstruction, EvalState.define]

theorem const64 (t : Tracks valid g₀ l s g) (value : BitVec 64) :
    Yields valid g₀ g l s (l.createConstant .i64 value) (.ofBits .i64 value) :=
  t.define _ (.const64 value) rfl

theorem const32 (t : Tracks valid g₀ l s g) (imm : BitVec 12) :
    Yields valid g₀ g l s (l.createConstant .i32 (imm.signExtend 64))
      (.ofBits .i32 (imm.signExtend 64)) := by
  have himm : (imm.signExtend 64).toInt = imm.toInt := BitVec.toInt_signExtend_of_le (by omega)
  have hlow := BitVec.le_toInt imm
  have hhigh := BitVec.toInt_lt (x := imm)
  exact t.define _ (.const32 _ (by omega) (by omega)) rfl

theorem binaryOp (t : Tracks valid g₀ l s g) (opcode : BinaryOpcode) {ty : Ty} {lhs rhs : ValueId}
    {a b v : Value} (hlow : Lowerable s.env.types (.binaryOp opcode ty lhs rhs) (some ty))
    (ha : s.env lhs = some a) (hb : s.env rhs = some b) (hv : evalBinary opcode ty a b = some v) :
    Yields valid g₀ g l s (l.createBinaryOp opcode ty lhs rhs) v :=
  t.define _ hlow (by simp [evalInstruction, ha, hb, hv])

theorem sext (t : Tracks valid g₀ l s g) {operand : ValueId} {a : Value}
    (hty : a.ty = .i8 ∨ a.ty = .i16 ∨ a.ty = .i32) (ha : s.env operand = some a) :
    Yields valid g₀ g l s (l.createSext .i64 operand) (.ofBits .i64 a.signed) :=
  t.define _ (.sext hty (typed ha)) (by
    have hle : a.ty.width ≤ Ty.width .i64 := a.ty.width_le
    simp [evalInstruction, ha, hle])

theorem zext (t : Tracks valid g₀ l s g) {operand : ValueId} {a : Value} (hty : a.ty = .i32)
    (ha : s.env operand = some a) :
    Yields valid g₀ g l s (l.createZext .i64 operand) (.ofBits .i64 a.bits) :=
  t.define _ (.zext (hty ▸ typed ha)) (by simp [evalInstruction, ha, hty, Ty.width])

theorem trunc (t : Tracks valid g₀ l s g) {operand : ValueId} {x : BitVec 64}
    (ha : s.env operand = some (.ofBits .i64 x)) :
    Yields valid g₀ g l s (l.createTrunc .i32 operand) (.ofBits .i32 x) :=
  t.define _ (.trunc (typed ha)) (by simp [evalInstruction, ha, Ty.width])

theorem load (t : Tracks valid g₀ l s g) {ty : Ty} {address : ValueId} {x : BitVec 64}
    (hty : ty ≠ .i1) (ha : s.env address = some (.ofBits .i64 x)) (hx : valid x ty.bytes = true) :
    Yields valid g₀ g l s (l.createLoad ty address) (.ofBits ty (load g.mem x ty.bytes)) :=
  t.define _ (.load hty (typed ha)) (by simp [evalInstruction, ha, hx, t.mem])

theorem getRegisterValue (t : Tracks valid g₀ l s g) {r : ℕ} (hr : r < 32) :
    Yields valid g₀ g l s (l.getRegisterValue r) (.ofBits .i64 (g.reg r)) := by
  unfold Lifter.getRegisterValue
  by_cases h0 : r = 0
  · subst h0
    exact t.const64 0#64
  · rw [if_neg (show ¬ r = REG_ZERO from h0), g.reg_of_ne h0]
    cases hc : l.cachedRegisterValues r with
    | some id => exact ⟨s, t, .refl l s, (t.cached r id hc).2⟩
    | none =>
      obtain ⟨s₁, t₁, e₁, v₁⟩ := t.define (.regRead r) (v := .ofBits .i64 (g.x r))
        (.regRead hr) (by simp [evalInstruction, t.uncached r hc])
      refine ⟨s₁, ⟨t₁.runs, t₁.fresh, t₁.mem, ?_, ?_⟩, ⟨e₁.env, e₁.guest, e₁.modified, ?_⟩, v₁⟩
      · intro k id hk
        dsimp only at hk
        by_cases hkr : k = r
        · subst hkr
          simp only [Function.update_self, Option.some.injEq] at hk
          exact ⟨h0, hk ▸ v₁⟩
        · rw [Function.update_of_ne hkr] at hk
          exact t₁.cached k id hk
      · intro k hk
        dsimp only at hk
        by_cases hkr : k = r
        · subst hkr
          simp at hk
        · rw [Function.update_of_ne hkr] at hk
          exact t₁.uncached k hk
      · intro k id hk
        have hkr : k ≠ r := by
          rintro rfl
          rw [hc] at hk
          cases hk
        dsimp only
        rw [Function.update_of_ne hkr]
        exact e₁.cached k id hk

theorem setRegisterValue (t : Tracks valid g₀ l s g) (rd : ℕ) {id : ValueId} {x : BitVec 64}
    (hid : s.env id = some (.ofBits .i64 x)) :
    Tracks valid g₀ (l.setRegisterValue rd id) s (g.writeRegister rd x) := by
  unfold Lifter.setRegisterValue
  by_cases h0 : rd = 0
  · subst h0
    exact t
  · rw [if_pos (show rd ≠ REG_ZERO from h0)]
    refine ⟨t.runs, t.fresh, by simp [t.mem], ?_, ?_⟩ <;> rw [Guest.writeRegister_x _ _ h0]
    · intro k id' hk
      dsimp only at hk ⊢
      by_cases hkr : k = rd
      · subst hkr
        simp only [Function.update_self, Option.some.injEq] at hk ⊢
        exact ⟨h0, hk ▸ hid⟩
      · rw [Function.update_of_ne hkr] at hk ⊢
        exact t.cached k id' hk
    · intro k hk
      dsimp only at hk ⊢
      by_cases hkr : k = rd
      · subst hkr
        simp at hk
      · rw [Function.update_of_ne hkr] at hk ⊢
        exact t.uncached k hk

end Tracks

theorem Pending.setRegisterValue (p : Pending g₀ l s g) {rd : ℕ} (hrd : rd < 32) (id : ValueId)
    (x : BitVec 64) : Pending g₀ (l.setRegisterValue rd id) s (g.writeRegister rd x) := by
  unfold Lifter.setRegisterValue
  by_cases h0 : rd = 0
  · subst h0
    exact p
  · rw [if_pos (show rd ≠ REG_ZERO from h0)]
    refine ⟨p.unwritten, ?_, ?_⟩
    · intro k hk
      by_cases hkr : k = rd
      · subst hkr
        exact ⟨hrd, by simp⟩
      · obtain ⟨hlt, hsome⟩ := p.modified k ((List.mem_insert_iff.mp hk).resolve_left hkr)
        exact ⟨hlt, by simpa [Function.update_of_ne hkr] using hsome⟩
    · intro k hk
      have hkr : k ≠ rd := by
        rintro rfl
        exact hk (List.mem_insert_self)
      rw [Guest.writeRegister_x _ _ h0, Function.update_of_ne hkr]
      exact p.kept k fun hmem => hk (List.mem_insert_of_mem hmem)

end DinoRisc.Lifter
