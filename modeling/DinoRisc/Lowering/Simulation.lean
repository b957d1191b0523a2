import DinoRisc.IR.Access
import DinoRisc.Lowering.Constants
import DinoRisc.Lowering.HostMemory
import DinoRisc.Lowering.Operations
import DinoRisc.Lowering.Selection

/-! The selected code of a typed block does on the host what the block does to the guest. -/

namespace DinoRisc.InstructionSelector

open Arm64 IR ByteMemory

variable {L : Layout} {m₀ m m' m'' : Machine} {σ σ' : InstructionSelector} {s s' : EvalState}
  {id : ValueId} {v : Value} {vreg l r : VirtualRegister} {g : Guest}

/-- Only registers that the selector has not given to a value change. -/
structure Keeps (σ : InstructionSelector) (m m' : Machine) : Prop where
  virtual : ∀ vreg < σ.nextVirtualReg, m'.reg (.virtual vreg) = m.reg (.virtual vreg)
  physical : ∀ reg, m'.reg (.physical reg) = m.reg (.physical reg)

namespace Keeps

theorem refl (σ : InstructionSelector) (m : Machine) : Keeps σ m m :=
  ⟨fun _ _ => rfl, fun _ => rfl⟩

theorem mono (h : Keeps σ' m m') (hle : σ.nextVirtualReg ≤ σ'.nextVirtualReg) : Keeps σ m m' :=
  ⟨fun k hk => h.virtual k (lt_of_lt_of_le hk hle), h.physical⟩

theorem set (h : Keeps σ m m') (hv : σ.nextVirtualReg ≤ vreg) (value : BitVec 64) :
    Keeps σ m (m'.set (.virtual vreg) value) where
  virtual k hk := by
    rw [Machine.set_reg_ne _ _ _ (virtual_ne (lt_of_lt_of_le hk hv)), h.virtual k hk]
  physical reg := by
    rw [Machine.set_reg_ne _ _ _ (by simp), h.physical reg]

end Keeps

/-- The machine holds the values of `s` in the selector's registers and its guest in the memory. -/
structure Simulates (L : Layout) (m₀ : Machine) (σ : InstructionSelector) (s : EvalState)
    (m : Machine) : Prop where
  covers : Covers σ s.env.types
  value : ∀ {id v vreg}, s.env id = some v → σ.irToVReg id = some vreg →
    m.reg (.virtual vreg) = v.bits
  guest : Represents L m.mem s.guest
  state : m.reg (.physical (.x 0)) = L.state
  physical : ∀ reg, m.reg (.physical reg) = m₀.reg (.physical reg)
  frame : ∀ x, L.Outside x → m.mem x = m₀.mem x

namespace Simulates

theorem skip (h : Simulates L m₀ σ s m) (n : ℕ) : Simulates L m₀ (σ.skip n) s m :=
  { h with covers := h.covers.skip n }

theorem keep (h : Simulates L m₀ σ s m) (hk : Keeps σ m m') (hmem : m'.mem = m.mem) :
    Simulates L m₀ σ s m' where
  covers := h.covers
  value hv hvreg := by rw [hk.virtual _ (h.covers.bound hvreg), h.value hv hvreg]
  guest := hmem ▸ h.guest
  state := by rw [hk.physical, h.state]
  physical reg := by rw [hk.physical, h.physical]
  frame x hx := by rw [hmem, h.frame x hx]

theorem define (h : Simulates L m₀ σ s m) (hid : s.env id = none) (hk : Keeps σ m m')
    (hmem : m'.mem = m.mem) (hv : m'.reg (.virtual σ.nextVirtualReg) = v.bits) :
    Simulates L m₀ (σ.define id v.ty) (s.define id v) m' where
  covers := by
    rw [define_types]
    exact h.covers.define v.ty (by simp [Env.types, hid])
  value {k w vreg} hw hvreg := by
    by_cases hki : k = id
    · subst hki
      simp only [EvalState.define, InstructionSelector.define, Function.update_self,
        Option.some.injEq] at hw hvreg
      rw [← hw, ← hvreg, hv]
    · rw [define_irToVReg v.ty hki] at hvreg
      simp only [EvalState.define, Function.update_of_ne hki] at hw
      rw [hk.virtual _ (h.covers.bound hvreg), h.value hw hvreg]
  guest := hmem ▸ h.guest
  state := by rw [hk.physical, h.state]
  physical reg := by rw [hk.physical, h.physical]
  frame x hx := by rw [hmem, h.frame x hx]

theorem result (h : Simulates L m₀ σ s m) (hid : s.env id = none) (v : Value) :
    Simulates L m₀ (σ.define id v.ty) (s.define id v)
      (m.set (.virtual σ.nextVirtualReg) v.bits) :=
  h.define hid ((Keeps.refl σ m).set le_rfl _) rfl (m.set_reg_self ..)

theorem register (h : Simulates L m₀ σ s m) (hv : s.env id = some v) :
    ∃ vreg < σ.nextVirtualReg, σ.irToVReg id = some vreg ∧ σ.valueTypes id = some v.ty ∧
      m.reg (.virtual vreg) = v.bits := by
  obtain ⟨hty, vreg, hvreg⟩ := h.covers.typed (types_eq_some.mpr ⟨v, hv, rfl⟩)
  exact ⟨vreg, h.covers.bound hvreg, hvreg, hty, h.value hv hvreg⟩

end Simulates

theorem address_X0 (hstate : m.reg (.physical (.x 0)) = L.state) {offset : ℕ} (h : offset < 288) :
    m.address X0 (BitVec.ofNat 32 offset) = L.field offset := by
  have hext : (BitVec.ofNat 32 offset).signExtend 64 = BitVec.ofNat 64 offset := by
    have hmsb : (BitVec.ofNat 32 offset).msb = false := by
      rw [BitVec.msb_eq_decide, BitVec.toNat_ofNat, Nat.mod_eq_of_lt (by omega)]
      exact decide_eq_false (by omega)
    apply BitVec.eq_of_toNat_eq
    rw [BitVec.signExtend_eq_setWidth_of_msb_false hmsb, BitVec.toNat_setWidth,
      BitVec.toNat_ofNat, BitVec.toNat_ofNat]
    omega
  rw [Machine.address, hext, Layout.field]
  exact congrArg (· + _) hstate

/-- The address translation leaves the host address of the guest address in the next register. -/
theorem generateAddressTranslation_reaches (hstate : m.reg (.physical (.x 0)) = L.state)
    (hguest : Represents L m.mem g) (hl : l < σ.nextVirtualReg) :
    ∃ m', Reaches (σ.generateAddressTranslation l).1 m m' ∧ Keeps σ m m' ∧ m'.mem = m.mem ∧
      m'.address (.virtual σ.nextVirtualReg) 0#32 = L.host (m.reg (.virtual l)) := by
  set n := σ.nextVirtualReg with hn
  have hbase : exec (.memory .ldr .x (.virtual (n + 1)) X0 (BitVec.ofNat 32 GUEST_MEMORY_BASE_OFFSET)) m =
      some (.next (m.set (.virtual (n + 1)) L.guestMemoryBase)) := by
    rw [exec_ldr rfl (address_X0 hstate (by decide)), ← hguest.guestMemoryBase]
    rfl
  let m₁ := m.set (.virtual (n + 1)) L.guestMemoryBase
  have hstate₁ : m₁.reg (.physical (.x 0)) = L.state := by
    rw [Machine.set_reg_ne _ _ _ (by simp), hstate]
  have hshadow : exec (.memory .ldr .x (.virtual (n + 2)) X0 (BitVec.ofNat 32 SHADOW_MEMORY_OFFSET)) m₁ =
      some (.next (m₁.set (.virtual (n + 2)) L.shadowMemory)) := by
    rw [exec_ldr rfl (address_X0 hstate₁ (by decide)), ← hguest.shadowMemory]
    rfl
  let m₂ := m₁.set (.virtual (n + 2)) L.shadowMemory
  let m₃ := m₂.set (.virtual n) (m.reg (.virtual l) - L.guestMemoryBase)
  have hl₂ : m₂.reg (.virtual l) = m.reg (.virtual l) := by
    rw [Machine.set_reg_ne _ _ _ (virtual_ne (Nat.lt_add_right 2 hl)),
      Machine.set_reg_ne _ _ _ (virtual_ne (Nat.lt_add_right 1 hl))]
  have hsub : exec (.threeOperand .sub .x (.virtual n) (.virtual l) (.virtual (n + 1))) m₂ =
      some (.next m₃) := by
    rw [exec_compute rfl rfl]
    simp [DataSize.result, DataSize.width, Machine.read, m₃, hl₂, m₂, m₁]
    rfl
  have hadd : exec (.threeOperand .add .x (.virtual n) (.virtual n) (.virtual (n + 2))) m₃ =
      some (.next (m₃.set (.virtual n) (L.host (m.reg (.virtual l))))) := by
    rw [exec_compute rfl rfl]
    simp [DataSize.result, DataSize.width, Machine.read, m₃, m₂, Layout.host]
    rfl
  refine ⟨_, .cons hbase (.cons hshadow (.cons hsub (.single hadd))), ?_, rfl, ?_⟩
  · have hle (k : ℕ) : σ.nextVirtualReg ≤ n + k := Nat.le_add_right _ _
    exact ((((Keeps.refl σ m).set (hle 1) _).set (hle 2) _).set le_rfl _).set le_rfl _
  · rw [Machine.address, Machine.read, Machine.set_reg_self]
    exact BitVec.add_zero _

theorem generateAddressTranslation_access (σ : InstructionSelector) (l : VirtualRegister)
    (m : Machine) : Arm64.accesses (σ.generateAddressTranslation l).1 m = [] :=
  accesses_eq_nil (by simp [generateAddressTranslation, Arm64.Instruction.access, takeVirtualReg, X0]) m

theorem selectConstIntoRegister_transfer (type : Ty) (value : BitVec 64) (target : Arm64.Operand) :
    ∀ inst ∈ selectConstIntoRegister type value target, ∀ m, inst.transfer m = none := by
  have hchunks (size : DataSize) (firstChunk : Bool) (shifts : List ℕ) :
      ∀ inst ∈ selectChunks size target value firstChunk shifts, ∀ m, inst.transfer m = none := by
    induction shifts generalizing firstChunk with
    | nil => cases firstChunk <;> simp [selectChunks, Arm64.Instruction.transfer]
    | cons shift shifts ih =>
      rw [selectChunks]
      split
      · exact ih firstChunk
      · simpa [Arm64.Instruction.transfer] using ih false
  unfold selectConstIntoRegister
  split
  · simp [Arm64.Instruction.transfer]
  split
  · simp [Arm64.Instruction.transfer]
  · exact hchunks _ _ _

/-- The selector's code for `inst` takes the machine to `s'`, with the access of `inst` at its host
address. -/
def Step (L : Layout) (m₀ : Machine) (σ : InstructionSelector) (s s' : EvalState) (m : Machine)
    (inst : IR.Instruction) : Prop :=
  ∃ code σ' m', σ.selectInstruction inst = .ok (code, σ') ∧ Reaches code m m' ∧
    Simulates L m₀ σ' s' m' ∧
    Arm64.accesses code m = (inst.access s).toList.map L.hostAccess

theorem Step.silent {code : Code} {inst : IR.Instruction}
    (hok : σ.selectInstruction inst = .ok (code, σ')) (hreach : Reaches code m m')
    (hsim : Simulates L m₀ σ' s' m') (hcode : ∀ i ∈ code, ∀ m, i.access m = none)
    (hinst : inst.access s = none) : Step L m₀ σ s s' m inst :=
  ⟨code, σ', m', hok, hreach, hsim, by rw [accesses_eq_nil hcode, hinst]; rfl⟩

theorem fresh_register (h : Simulates L m₀ σ s m) (hid : s.env id = none) :
    σ.irToVReg id = none :=
  h.covers.fresh (by simp [Env.types, hid])

section

variable (h : Simulates L m₀ σ s m) (hid : s.env id = none)

include h hid

theorem const_step {value : BitVec 64} {ty : Ty}
    (hreach : Reaches (selectConstIntoRegister ty value (.virtual σ.nextVirtualReg)) m
      (m.set (.virtual σ.nextVirtualReg) (Value.ofBits ty value).bits)) :
    Step L m₀ σ s (s.define id (.ofBits ty value)) m ⟨id, .const ty value⟩ :=
  .silent (selectInstruction_const (fresh_register h hid) value) hreach
    (h.result hid (.ofBits ty value))
    (fun i hi m => Arm64.Instruction.access_eq_none (selectConstIntoRegister_transfer _ _ _ i hi m)) rfl

theorem arithmetic_step {opcode : BinaryOpcode} {ty : Ty} {lhs rhs : ValueId} {a b v : Value}
    (hop : opcode.isArithmetic = true) (hty : ty = .i32 ∨ ty = .i64) (hl : s.env lhs = some a)
    (hr : s.env rhs = some b) (hta : a.ty = ty) (hv : arithmetic opcode ty a b = some v) :
    Step L m₀ σ s (s.define id v) m ⟨id, .binaryOp opcode ty lhs rhs⟩ := by
  obtain ⟨l, -, hl, -, hla⟩ := h.register hl
  obtain ⟨r, -, hr, -, hrb⟩ := h.register hr
  have hwidth : (irTypeToDataSize ty).width = ty.width := by
    rcases hty with rfl | rfl <;> rfl
  obtain ⟨o, res, ho, hres, hbits⟩ := arithmetic_compute hwidth hty hta hop hv
  rw [← hla, ← hrb] at hres
  have hstep : exec (.threeOperand o (irTypeToDataSize ty) (.virtual σ.nextVirtualReg)
      (.virtual l) (.virtual r)) m = some (.next (m.set (.virtual σ.nextVirtualReg) v.bits)) := by
    rw [← hbits]
    exact exec_compute rfl hres
  have hsim := h.result hid v
  rw [arithmetic_ty hv] at hsim
  exact .silent (selectInstruction_arithmetic (fresh_register h hid)
    (comparisonCondition_arithmetic hop).1 ho hl hr) (.single hstep) hsim
    (by simp [Arm64.Instruction.access]) rfl

theorem comparison_step {opcode : BinaryOpcode} {ty : Ty} {lhs rhs : ValueId} {a b : Value}
    {c : Bool} (hl : s.env lhs = some a) (hr : s.env rhs = some b) (hta : a.ty = .i64)
    (htb : b.ty = .i64) (hc : comparison opcode a b = some c) :
    Step L m₀ σ s (s.define id (ofCondition ty c)) m ⟨id, .binaryOp opcode ty lhs rhs⟩ := by
  obtain ⟨l, -, hl, -, hla⟩ := h.register hl
  obtain ⟨r, -, hr, -, hrb⟩ := h.register hr
  obtain ⟨condition, hcond, hholds⟩ := comparison_holds hta htb hc
  let m₁ := m.compare .x (.virtual l) (.virtual r)
  have hflags : m₁.flags = A64.subFlags a.bits b.bits := by
    simp only [m₁, Machine.compare, Machine.read, hla, hrb]
    exact congrArg₂ _ (BitVec.setWidth_eq _) (BitVec.setWidth_eq _)
  have hbits : (ofCondition ty c).bits = if c then 1#64 else 0#64 := by
    cases c <;> cases ty <;> rfl
  have hcset : exec (.conditional .cset .x (.virtual σ.nextVirtualReg) condition) m₁ =
      some (.next (m₁.set (.virtual σ.nextVirtualReg) (ofCondition ty c).bits)) := by
    rw [exec_cset rfl, hflags, hholds, hbits]
  have hk : Keeps σ m m₁ := ⟨fun _ _ => rfl, fun _ => rfl⟩
  exact .silent (selectInstruction_comparison (fresh_register h hid) hcond hl hr)
    (.cons rfl (.single hcset)) ((h.keep hk rfl).result hid (ofCondition ty c))
    (by simp [Arm64.Instruction.access]) rfl

theorem convert_step {opcode : Arm64.Opcode} (size : DataSize) {a v : Value} {operand : ValueId}
    {res : BitVec size.width} {inst : IR.Instruction} (ha : s.env operand = some a)
    (hok : ∀ l, σ.irToVReg operand = some l → σ.valueTypes operand = some a.ty →
      σ.selectInstruction inst = .ok ([.twoOperand opcode size (.virtual σ.nextVirtualReg)
        (.virtual l)], σ.define id v.ty))
    (hinst : inst.access s = none) (hres : opcode.convert (a.bits.setWidth size.width) = some res)
    (hbits : size.result res = v.bits) : Step L m₀ σ s (s.define id v) m inst := by
  obtain ⟨l, -, hl, hty, hla⟩ := h.register ha
  rw [← hla] at hres
  have hstep : exec (.twoOperand opcode size (.virtual σ.nextVirtualReg) (.virtual l)) m =
      some (.next (m.set (.virtual σ.nextVirtualReg) v.bits)) := by
    rw [← hbits]
    exact exec_convert rfl hres
  exact .silent (hok l hl hty) (.single hstep) (h.result hid v)
    (by simp [Arm64.Instruction.access]) hinst

theorem sext_step {a : Value} {operand : ValueId} (ha : s.env operand = some a)
    (hty : a.ty = .i8 ∨ a.ty = .i16 ∨ a.ty = .i32) :
    Step L m₀ σ s (s.define id (.ofBits .i64 a.signed)) m ⟨id, .sext .i64 operand⟩ := by
  have hres : (sextOpcode a.ty).convert (a.bits.setWidth 64) = some a.signed := by
    rw [BitVec.setWidth_eq, Value.signed]
    rcases hty with hty | hty | hty <;> rw [hty] <;> rfl
  exact convert_step h hid .x ha
    (fun l hl htype => selectInstruction_sext (fresh_register h hid) htype hl) rfl hres
    (by rw [Value.ofBits_bits_i64]; exact BitVec.setWidth_eq _)

theorem zext_step {a : Value} {operand : ValueId} (ha : s.env operand = some a)
    (hty : a.ty = .i32) :
    Step L m₀ σ s (s.define id (.ofBits .i64 a.bits)) m ⟨id, .zext .i64 operand⟩ :=
  convert_step h hid .x ha
    (fun l hl htype => selectInstruction_zext (fresh_register h hid) (hty ▸ htype) hl) rfl rfl
    (by simp [DataSize.result, DataSize.width])

theorem trunc_step {a : Value} {operand : ValueId} (ha : s.env operand = some a) :
    Step L m₀ σ s (s.define id (.ofBits .i32 a.bits)) m ⟨id, .trunc .i32 operand⟩ :=
  convert_step h hid .w ha
    (fun _ hl _ => selectInstruction_trunc (fresh_register h hid) hl) rfl rfl rfl

theorem regRead_step {r : ℕ} (hr : r < 32) :
    Step L m₀ σ s (s.define id (.ofBits .i64 (s.guest.x r))) m ⟨id, .regRead r⟩ := by
  have haddr := address_X0 h.state (show r * REGISTER_SIZE_BYTES < 288 by
    simp only [REGISTER_SIZE_BYTES]
    omega)
  have hbits : load m.mem (L.field (r * REGISTER_SIZE_BYTES)) DataSize.x.bytes =
      (Value.ofBits .i64 (s.guest.x r)).bits := by
    rw [Value.ofBits_bits_i64, ← h.guest.x r hr]
    rfl
  have hstep : exec (.memory .ldr .x (.virtual σ.nextVirtualReg) X0
      (BitVec.ofNat 32 (r * REGISTER_SIZE_BYTES))) m =
      some (.next (m.set (.virtual σ.nextVirtualReg) (Value.ofBits .i64 (s.guest.x r)).bits)) := by
    rw [exec_ldr rfl haddr, hbits]
  exact .silent (selectInstruction_regRead (fresh_register h hid) r) (.single hstep)
    (h.result hid (.ofBits .i64 (s.guest.x r))) (by simp [Arm64.Instruction.access, X0]) rfl

theorem access_reaches {inst : IR.Instruction} {ty : Option Ty} {access : Access}
    (hinst : inst.valueId = id) (hlow : Lowerable s.env.types inst.kind ty)
    (ha : inst.access s = some access) :
    ∃ code last σ' m₁, σ.selectInstruction inst = .ok (code ++ [last], σ') ∧ Reaches code m m₁ ∧
      Arm64.accesses code m = [] ∧ last.access m₁ = some (L.hostAccess access) := by
  obtain ⟨_, kind⟩ := inst
  obtain rfl : _ = id := hinst
  dsimp only at hlow
  cases hlow with
  | @load ty address hty haddress =>
    simp only [IR.Instruction.access, Option.map_eq_some_iff] at ha
    obtain ⟨a, hs, rfl⟩ := ha
    obtain ⟨l, hlt, hl, -, hla⟩ := h.register hs
    obtain ⟨m₁, hreach, -, -, haddr⟩ := generateAddressTranslation_reaches
      (σ := σ.define _ ty) h.state h.guest (Nat.lt_succ_of_lt hlt)
    refine ⟨_, _, _, m₁, selectInstruction_load (fresh_register h hid) hl, hreach,
      generateAddressTranslation_access .., ?_⟩
    rw [hla] at haddr
    simp only [Arm64.Instruction.access, reduceCtorEq, if_false]
    cases ty <;> exact congrArg (fun a => some (a, _)) haddr
  | @store ty value address hty hv haddress =>
    simp only [IR.Instruction.access, Option.bind_eq_bind, Option.bind_eq_some_iff] at ha
    obtain ⟨v, hval, a, hs, heq⟩ := ha
    cases heq
    obtain ⟨l, -, hl, htype, -⟩ := h.register hval
    obtain ⟨r, hlt, hr, -, hra⟩ := h.register hs
    obtain ⟨m₁, hreach, -, -, haddr⟩ := generateAddressTranslation_reaches h.state h.guest hlt
    refine ⟨_, _, _, m₁, selectInstruction_store htype hl hr, hreach,
      generateAddressTranslation_access .., ?_⟩
    rw [hra] at haddr
    simp only [Arm64.Instruction.access, reduceCtorEq, if_false]
    cases v.ty <;> exact congrArg (fun a => some (a, _)) haddr
  | _ => cases ha

theorem load_step {ty : Ty} {address : ValueId} {a : Value} (hty : ty ≠ .i1)
    (ha : s.env address = some a) (hvalid : L.valid a.bits ty.bytes = true) :
    Step L m₀ σ s (s.define id (.ofBits ty (load s.guest.mem a.bits ty.bytes))) m
      ⟨id, .load ty address⟩ := by
  have hfresh := fresh_register h hid
  obtain ⟨l, hlt, hl, -, hla⟩ := h.register ha
  obtain ⟨m₁, hreach, hk, hmem, haddr⟩ := generateAddressTranslation_reaches (σ := σ.define id ty)
    h.state h.guest (Nat.lt_succ_of_lt hlt)
  rw [hla] at haddr
  have hbytes : (irTypeToDataSize ty).bytes = ty.bytes := by cases ty <;> rfl
  have hwidth : ty.width = 8 * ty.bytes := by cases ty <;> first | rfl | exact absurd rfl hty
  have hbits : load m₁.mem (L.host a.bits) (irTypeToDataSize ty).bytes =
      (Value.ofBits ty (load s.guest.mem a.bits ty.bytes)).bits := by
    rw [hmem, hbytes, h.guest.load_host hvalid, Value.ofBits_bits, hwidth,
      load_setWidth _ _ ty.bytes_le]
  have hstep : exec (.memory .ldr (irTypeToDataSize ty) (.virtual σ.nextVirtualReg)
      (.virtual (σ.nextVirtualReg + 1)) 0#32) m₁ = some (.next (m₁.set (.virtual σ.nextVirtualReg)
        (Value.ofBits ty (load s.guest.mem a.bits ty.bytes)).bits)) := by
    exact (exec_ldr rfl haddr).trans (by rw [hbits])
  have hk' : Keeps σ m m₁ := hk.mono (Nat.le_succ _)
  refine ⟨_, _, _, selectInstruction_load hfresh hl, hreach.append (.single hstep),
    ((h.keep hk' hmem).result hid (.ofBits ty (load s.guest.mem a.bits ty.bytes))).skip 3, ?_⟩
  have haccess : Arm64.Instruction.access m₁ (.memory .ldr (irTypeToDataSize ty)
      (.virtual σ.nextVirtualReg) (.virtual (σ.nextVirtualReg + 1)) 0#32) =
      some (L.host a.bits, ty.bytes) := by
    simp only [Arm64.Instruction.access, reduceCtorEq, if_false, hbytes]
    exact congrArg (fun a => some (a, _)) haddr
  rw [hreach.accesses, generateAddressTranslation_access, accesses_single, haccess]
  simp [IR.Instruction.access, ha, Layout.hostAccess]

omit hid

theorem regWrite_step {r : ℕ} {value : ValueId} {v : Value} (hr : r < 32)
    (hv : s.env value = some v) :
    Step L m₀ σ s { s with guest := { s.guest with x := Function.update s.guest.x r v.bits } } m
      ⟨id, .regWrite r value⟩ := by
  obtain ⟨l, -, hl, -, hlv⟩ := h.register hv
  have hlt : r * REGISTER_SIZE_BYTES + 8 ≤ 256 := by
    simp only [REGISTER_SIZE_BYTES]
    omega
  have haddr := address_X0 h.state (show r * REGISTER_SIZE_BYTES < 288 by omega)
  have hstep : exec (.memory .str .x (.virtual l) X0
      (BitVec.ofNat 32 (r * REGISTER_SIZE_BYTES))) m = some (.next { m with
        mem := store m.mem (L.field (r * REGISTER_SIZE_BYTES)) 8 v.bits }) := by
    rw [← haddr, ← hlv]
    rfl
  refine .silent (selectInstruction_regWrite r hl) (.single hstep)
    ⟨h.covers, h.value, h.guest.store_register hr v.bits, h.state, h.physical, ?_⟩
    (by simp [Arm64.Instruction.access, X0]) rfl
  intro x hx
  refine (store_outside _ fun hin => hx.1 ?_).trans (h.frame x hx)
  exact Layout.inRange_field hlt (by decide) hin

theorem store_step {value address : ValueId} {v a : Value} (hv : s.env value = some v)
    (ha : s.env address = some a) (hvalid : L.valid a.bits v.ty.bytes = true) :
    Step L m₀ σ s { s with guest :=
        { s.guest with mem := store s.guest.mem a.bits v.ty.bytes v.bits } } m
      ⟨id, .store value address⟩ := by
  obtain ⟨l, hlt, hl, htype, hlv⟩ := h.register hv
  obtain ⟨r, hlt', hr, -, hra⟩ := h.register ha
  obtain ⟨m₁, hreach, hk, hmem, haddr⟩ := generateAddressTranslation_reaches h.state h.guest hlt'
  rw [hra] at haddr
  have hbytes : (irTypeToDataSize v.ty).bytes = v.ty.bytes := by cases v.ty <;> rfl
  have hstep : exec (.memory .str (irTypeToDataSize v.ty) (.virtual l)
      (.virtual σ.nextVirtualReg) 0#32) m₁ = some (.next { m₁ with
        mem := store m₁.mem (L.host a.bits) v.ty.bytes v.bits }) := by
    rw [← haddr, ← hlv, ← hk.virtual l hlt, ← hbytes]
    rfl
  have haccess : Arm64.Instruction.access m₁ (.memory .str (irTypeToDataSize v.ty) (.virtual l)
      (.virtual σ.nextVirtualReg) 0#32) = some (L.host a.bits, v.ty.bytes) := by
    simp only [Arm64.Instruction.access, reduceCtorEq, if_false, hbytes]
    exact congrArg (fun a => some (a, _)) haddr
  have h₁ := h.keep hk hmem
  have h₂ : Simulates L m₀ σ { s with guest :=
      { s.guest with mem := store s.guest.mem a.bits v.ty.bytes v.bits } }
      { m₁ with mem := store m₁.mem (L.host a.bits) v.ty.bytes v.bits } := by
    refine ⟨h₁.covers, h₁.value, h₁.guest.store_host hvalid v.bits, h₁.state, h₁.physical, ?_⟩
    intro x hx
    refine (store_outside _ fun hin => hx.2 ?_).trans (h₁.frame x hx)
    exact Layout.valid_store_inRange hvalid hin
  refine ⟨_, _, _, selectInstruction_store htype hl hr, hreach.append (.single hstep), h₂.skip 3, ?_⟩
  · rw [hreach.accesses, generateAddressTranslation_access, accesses_single, haccess]
    simp [IR.Instruction.access, hv, ha, Layout.hostAccess]

end

theorem selectInstruction_step {inst : IR.Instruction} {ty : Option Ty}
    (h : Simulates L m₀ σ s m) (hid : s.env inst.valueId = none)
    (hlow : Lowerable s.env.types inst.kind ty)
    (hstep : evalInstruction L.valid s inst = some s') : Step L m₀ σ s s' m inst := by
  obtain ⟨id, kind⟩ := inst
  dsimp only at hid hlow
  cases hlow with
  | const64 value =>
    cases hstep
    refine const_step h hid ?_
    rw [Value.ofBits_bits_i64]
    exact selectConstIntoRegister_i64 rfl value m
  | const32 value hlow hhigh =>
    cases hstep
    exact const_step h hid (selectConstIntoRegister_i32 rfl value hlow hhigh m)
  | arithmetic hop hty hl hr =>
    simp only [evalInstruction, Option.bind_eq_bind, Option.bind_eq_some_iff] at hstep
    obtain ⟨a, ha, b, hb, v, hv, heq⟩ := hstep
    cases heq
    obtain ⟨hta, hv⟩ := evalBinary_eq_arithmetic hop hv
    exact arithmetic_step h hid hop hty ha hb hta hv
  | comparison hop hty hl hr =>
    simp only [evalInstruction, Option.bind_eq_bind, Option.bind_eq_some_iff] at hstep
    obtain ⟨a, ha, b, hb, v, hv, heq⟩ := hstep
    cases heq
    obtain ⟨c, hc, rfl⟩ := evalBinary_eq_comparison hop hv
    obtain ⟨_, ha', hta⟩ := value_of_type hl
    obtain ⟨_, hb', htb⟩ := value_of_type hr
    cases ha.symm.trans ha'
    cases hb.symm.trans hb'
    exact comparison_step h hid ha hb hta htb hc
  | sext hty ha =>
    simp only [evalInstruction, Option.bind_eq_bind, Option.bind_eq_some_iff] at hstep
    obtain ⟨a, hs, heq⟩ := hstep
    split at heq <;> cases heq
    obtain ⟨_, hs', rfl⟩ := value_of_type ha
    cases hs.symm.trans hs'
    exact sext_step h hid hs hty
  | zext ha =>
    simp only [evalInstruction, Option.bind_eq_bind, Option.bind_eq_some_iff] at hstep
    obtain ⟨a, hs, heq⟩ := hstep
    split at heq <;> cases heq
    obtain ⟨_, hs', hty⟩ := value_of_type ha
    cases hs.symm.trans hs'
    exact zext_step h hid hs hty
  | trunc ha =>
    simp only [evalInstruction, Option.bind_eq_bind, Option.bind_eq_some_iff] at hstep
    obtain ⟨a, hs, heq⟩ := hstep
    split at heq <;> cases heq
    exact trunc_step h hid hs
  | load hty ha =>
    simp only [evalInstruction, Option.bind_eq_bind, Option.bind_eq_some_iff] at hstep
    obtain ⟨a, hs, heq⟩ := hstep
    split at heq <;> cases heq
    exact load_step h hid hty hs (And.right ‹_›)
  | store hty hv ha =>
    simp only [evalInstruction, Option.bind_eq_bind, Option.bind_eq_some_iff] at hstep
    obtain ⟨v, hs, a, hs', heq⟩ := hstep
    split at heq <;> cases heq
    exact store_step h hs hs' (And.right ‹_›)
  | regRead hr =>
    cases hstep
    exact regRead_step h hid hr
  | regWrite hr hv =>
    simp only [evalInstruction, Option.bind_eq_bind, Option.bind_eq_some_iff] at hstep
    obtain ⟨v, hs, heq⟩ := hstep
    split at heq <;> cases heq
    exact regWrite_step h hr hs

end DinoRisc.InstructionSelector
