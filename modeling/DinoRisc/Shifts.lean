import DinoRisc.Lifter.ExactBlock
import DinoRisc.Lowering.BlockCorrect
import DinoRisc.Lowering.Capacity
import DinoRisc.RiscV.DecoderCorrect

/-! Blocks of one shift, from the word to the register. -/

namespace DinoRisc

open Arm64 Encoder InstructionSelector LivenessAnalysis RegisterAllocator

/-- The supported shifts, with the destination and the result that the ISA defines. -/
inductive Shifts : RiscV.Encoding.Instr → BitVec 5 → (Guest → BitVec 64) → Prop
  | sll (rd rs1 rs2 : BitVec 5) : Shifts (.r .sll rd rs1 rs2) rd fun g =>
      g.reg rs1.toNat <<< ((g.reg rs2.toNat).toNat % 64)
  | srl (rd rs1 rs2 : BitVec 5) : Shifts (.r .srl rd rs1 rs2) rd fun g =>
      g.reg rs1.toNat >>> ((g.reg rs2.toNat).toNat % 64)
  | sra (rd rs1 rs2 : BitVec 5) : Shifts (.r .sra rd rs1 rs2) rd fun g =>
      (g.reg rs1.toNat).sshiftRight ((g.reg rs2.toNat).toNat % 64)
  | slli (rd rs1 : BitVec 5) (shamt : BitVec 6) : Shifts (.shift .slli rd rs1 shamt) rd fun g =>
      g.reg rs1.toNat <<< shamt.toNat
  | srli (rd rs1 : BitVec 5) (shamt : BitVec 6) : Shifts (.shift .srli rd rs1 shamt) rd fun g =>
      g.reg rs1.toNat >>> shamt.toNat
  | srai (rd rs1 : BitVec 5) (shamt : BitVec 6) : Shifts (.shift .srai rd rs1 shamt) rd fun g =>
      (g.reg rs1.toNat).sshiftRight shamt.toNat
  | slliw (rd rs1 shamt : BitVec 5) : Shifts (.shiftW .slliw rd rs1 shamt) rd fun g =>
      ((g.reg rs1.toNat).setWidth 32 <<< shamt.toNat).signExtend 64

/-- `SRL`, `SRLI`, and the `SRAI` that the decoder takes for an `SRLI`. -/
def LogicalRight : RiscV.Encoding.Instr → Prop
  | .r op _ _ _ => op = .srl
  | .shift op _ _ shamt => op = .srli ∨ op = .srai ∧ 32 ≤ shamt.toNat
  | _ => False

namespace RiscV

def Opcode.isShift : Opcode → Bool
  | .sll | .srl | .sra | .slli | .srli | .srai | .slliw => true
  | _ => false

theorem Opcode.isStraightLine_of_shift {op : Opcode} (h : op.isShift = true) :
    op.isStraightLine = true := by
  cases op <;> first
    | rfl
    | cases h

namespace Decoder

open Encoding

variable {i : Instr} {rd : BitVec 5} {result : Guest → BitVec 64}

/-- What the decoder makes of a shift, against the ISA. -/
structure DecodesShift (i : Instr) (rd : BitVec 5) (result : Guest → BitVec 64)
    (inst : Instruction) : Prop where
  shift : inst.opcode.isShift = true
  shaped : Shaped inst.opcode.format inst.operands
  exact : inst.opcode.isExact = true ↔ ¬ LogicalRight i
  step : ¬ LogicalRight i → ∀ valid g, Isa.step valid inst g =
    some (g.writeRegister rd.toNat (result g), inst.address + 4#64)

theorem decodesShift (h : Shifts i rd result) (pc : BitVec 64) :
    ∃ inst, decodeWord i.encode pc = .ok inst ∧ DecodesShift i rd result inst := by
  have hshamt (funct6 shamt : BitVec 6) :
      ((funct6 ++ shamt).signExtend 64).toNat % 64 = shamt.toNat := by
    have hlow := signExtend_mod_toNat (funct6 ++ shamt) 6 (by omega)
    rw [(shift_fields _ _).1] at hlow
    exact hlow
  cases h with
  | sll rd rs1 rs2 | srl rd rs1 rs2 | sra rd rs1 rs2 =>
    refine ⟨_, decode_r _ rd rs1 rs2 pc, rfl, .r rd.isLt rs1.isLt rs2.isLt, ?_, ?_⟩
    · simp [LogicalRight, Opcode.isExact, ROp.opcode]
    · intro _ valid g
      rfl
  | slli rd rs1 shamt =>
    refine ⟨_, decode_shift .slli rd rs1 shamt pc, rfl, .i rd.isLt rs1.isLt _, ?_, ?_⟩
    · simp [LogicalRight, Opcode.isExact, shiftOpcode, ShiftOp.opcode]
    · intro _ valid g
      rw [Isa.step_alu rfl rfl rfl, hshamt]
  | srli rd rs1 shamt =>
    refine ⟨_, decode_shift .srli rd rs1 shamt pc, rfl, .i rd.isLt rs1.isLt _, ?_, ?_⟩
    · simp [LogicalRight, Opcode.isExact, shiftOpcode, ShiftOp.opcode]
    · intro hnot
      exact absurd (.inl rfl) hnot
  | srai rd rs1 shamt =>
    by_cases hwide : 32 ≤ shamt.toNat
    · have hop : shiftOpcode .srai shamt = .srli := if_pos ⟨rfl, hwide⟩
      refine ⟨_, decode_shift .srai rd rs1 shamt pc, ?_⟩
      rw [hop]
      refine ⟨rfl, .i rd.isLt rs1.isLt _, ?_, ?_⟩
      · simp [LogicalRight, Opcode.isExact, hwide]
      · intro hnot
        exact absurd (.inr ⟨rfl, hwide⟩) hnot
    · have hop : shiftOpcode .srai shamt = .srai := if_neg fun h => hwide h.2
      refine ⟨_, decode_shift .srai rd rs1 shamt pc, ?_⟩
      rw [hop]
      refine ⟨rfl, .i rd.isLt rs1.isLt _, ?_, ?_⟩
      · simp [LogicalRight, Opcode.isExact, hwide]
      · intro _ valid g
        rw [Isa.step_alu rfl rfl rfl, hshamt]
  | slliw rd rs1 shamt =>
    have hlow := signExtend_mod_toNat (ShiftWOp.slliw.funct7 ++ shamt) 5 (by omega)
    rw [shiftW_low] at hlow
    refine ⟨_, decode_shiftW .slliw rd rs1 shamt pc, rfl, .i rd.isLt rs1.isLt _, ?_, ?_⟩
    · simp [LogicalRight, Opcode.isExact, ShiftWOp.opcode]
    · intro _ valid g
      rw [Isa.step_alu rfl rfl rfl, ← hlow]
      rfl

end Decoder

end RiscV

/-! ### The lifted block -/

namespace Lifter

open IR

variable {l l' : Lifter} {inst : RiscV.Instruction} {opcode : BinaryOpcode} {ty : Ty}
  {order : List ℕ → List ℕ}

/-- `l'` has the operation and at most four other instructions more than `l`. -/
structure Operates (opcode : BinaryOpcode) (ty : Ty) (l l' : Lifter) : Prop where
  length : l'.currentInstructions.length ≤ l.currentInstructions.length + 5
  modified : l'.modifiedRegisters.length ≤ l.modifiedRegisters.length + 1
  operation : ∃ id a b, ⟨id, .binaryOp opcode ty a b⟩ ∈ l'.currentInstructions

theorem addInstruction_length (kind : InstructionKind) (l : Lifter) :
    (l.addInstruction kind).2.currentInstructions.length = l.currentInstructions.length + 1 :=
  List.length_append

theorem getRegisterValue_length (r : ℕ) (l : Lifter) :
    (l.getRegisterValue r).2.currentInstructions.length ≤ l.currentInstructions.length + 1 ∧
      (l.getRegisterValue r).2.modifiedRegisters = l.modifiedRegisters := by
  unfold getRegisterValue
  split
  · exact ⟨(addInstruction_length _ l).le, rfl⟩
  · split
    · exact ⟨Nat.le_succ _, rfl⟩
    · exact ⟨(addInstruction_length _ l).le, rfl⟩

theorem setRegisterValue_length (r : ℕ) (id : ValueId) (l : Lifter) :
    (l.setRegisterValue r id).currentInstructions = l.currentInstructions ∧
      (l.setRegisterValue r id).modifiedRegisters.length ≤ l.modifiedRegisters.length + 1 := by
  unfold setRegisterValue
  split
  · refine ⟨rfl, ?_⟩
    rw [List.length_insert]
    split
    · exact Nat.le_succ _
    · exact le_rfl
  · exact ⟨rfl, Nat.le_succ _⟩

theorem Operates.setRegister {id a b : ValueId}
    (hlength : l'.currentInstructions.length ≤ l.currentInstructions.length + 5)
    (hmodified : l'.modifiedRegisters = l.modifiedRegisters)
    (hmem : ⟨id, .binaryOp opcode ty a b⟩ ∈ l'.currentInstructions) (rd : ℕ) (v : ValueId) :
    Operates opcode ty l (l'.setRegisterValue rd v) := by
  obtain ⟨hset, hle⟩ := setRegisterValue_length rd v l'
  exact ⟨hset ▸ hlength, hmodified ▸ hle, id, a, b, hset ▸ hmem⟩

theorem liftRTypeBinaryOp_operates (hok : l.liftRTypeBinaryOp inst opcode ty = .ok l') :
    Operates opcode ty l l' := by
  obtain ⟨rs1, -, hok⟩ := bind_eq_ok.mp hok
  obtain ⟨rs2, -, hok⟩ := bind_eq_ok.mp hok
  obtain ⟨rd, -, hok⟩ := bind_eq_ok.mp hok
  let r₁ := l.getRegisterValue rs1
  let r₂ := r₁.2.getRegisterValue rs2
  let r₃ := r₂.2.createBinaryOp opcode ty r₁.1 r₂.1
  obtain ⟨h₁, m₁⟩ : r₁.2.currentInstructions.length ≤ l.currentInstructions.length + 1 ∧ _ :=
    getRegisterValue_length rs1 l
  obtain ⟨h₂, m₂⟩ : r₂.2.currentInstructions.length ≤ r₁.2.currentInstructions.length + 1 ∧ _ :=
    getRegisterValue_length rs2 r₁.2
  have h₃ : r₃.2.currentInstructions.length = r₂.2.currentInstructions.length + 1 :=
    addInstruction_length _ r₂.2
  obtain rfl : r₃.2.setRegisterValue rd r₃.1 = l' := Except.ok.inj hok
  have hmodified : r₃.2.modifiedRegisters = l.modifiedRegisters := m₂.trans m₁
  exact .setRegister (by omega) hmodified (List.mem_append_right _ (List.mem_singleton_self _)) rd r₃.1

theorem liftITypeBinaryOp_operates (hok : l.liftITypeBinaryOp inst opcode ty = .ok l') :
    Operates opcode ty l l' := by
  obtain ⟨rs1, -, hok⟩ := bind_eq_ok.mp hok
  obtain ⟨imm, -, hok⟩ := bind_eq_ok.mp hok
  obtain ⟨rd, -, hok⟩ := bind_eq_ok.mp hok
  let r₁ := l.getRegisterValue rs1
  let r₂ := r₁.2.createConstant ty imm
  let r₃ := r₂.2.createBinaryOp opcode ty r₁.1 r₂.1
  obtain ⟨h₁, m₁⟩ : r₁.2.currentInstructions.length ≤ l.currentInstructions.length + 1 ∧ _ :=
    getRegisterValue_length rs1 l
  have h₂ : r₂.2.currentInstructions.length = r₁.2.currentInstructions.length + 1 :=
    addInstruction_length _ r₁.2
  have h₃ : r₃.2.currentInstructions.length = r₂.2.currentInstructions.length + 1 :=
    addInstruction_length _ r₂.2
  obtain rfl : r₃.2.setRegisterValue rd r₃.1 = l' := Except.ok.inj hok
  have hmodified : r₃.2.modifiedRegisters = l.modifiedRegisters := m₁
  exact .setRegister (by omega) hmodified (List.mem_append_right _ (List.mem_singleton_self _)) rd r₃.1

theorem liftWTypeImmOp_operates (hok : l.liftWTypeImmOp inst opcode = .ok l') :
    Operates opcode .i32 l l' := by
  obtain ⟨rs1, -, hok⟩ := bind_eq_ok.mp hok
  obtain ⟨imm, -, hok⟩ := bind_eq_ok.mp hok
  obtain ⟨rd, -, hok⟩ := bind_eq_ok.mp hok
  let r₁ := l.getRegisterValue rs1
  let r₂ := r₁.2.createConstant .i32 imm
  let r₃ := r₂.2.createTrunc .i32 r₁.1
  let r₄ := r₃.2.createBinaryOp opcode .i32 r₃.1 r₂.1
  let r₅ := r₄.2.createSext .i64 r₄.1
  obtain ⟨h₁, m₁⟩ : r₁.2.currentInstructions.length ≤ l.currentInstructions.length + 1 ∧ _ :=
    getRegisterValue_length rs1 l
  have h₂ : r₂.2.currentInstructions.length = r₁.2.currentInstructions.length + 1 :=
    addInstruction_length _ r₁.2
  have h₃ : r₃.2.currentInstructions.length = r₂.2.currentInstructions.length + 1 :=
    addInstruction_length _ r₂.2
  have h₄ : r₄.2.currentInstructions.length = r₃.2.currentInstructions.length + 1 :=
    addInstruction_length _ r₃.2
  have h₅ : r₅.2.currentInstructions.length = r₄.2.currentInstructions.length + 1 :=
    addInstruction_length _ r₄.2
  obtain rfl : r₅.2.setRegisterValue rd r₅.1 = l' := Except.ok.inj hok
  have hmodified : r₅.2.modifiedRegisters = l.modifiedRegisters := m₁
  exact .setRegister (by omega) hmodified (List.mem_append_left _ (List.mem_append_right _ (List.mem_singleton_self _))) rd r₅.1

def shiftOperation : RiscV.Opcode → BinaryOpcode × Ty
  | .srl | .srli => (.shr, .i64)
  | .sra | .srai => (.sar, .i64)
  | .slliw => (.shl, .i32)
  | _ => (.shl, .i64)

theorem shiftOperation_shr {op : RiscV.Opcode} (hshift : op.isShift = true)
    (hexact : op.isExact = false) : shiftOperation op = (.shr, .i64) := by
  cases op <;> first
    | rfl
    | (cases hexact; done)
    | cases hshift

theorem liftSingleInstruction_operates (hop : inst.opcode.isShift = true)
    (hok : l.liftSingleInstruction inst = .ok l') :
    Operates (shiftOperation inst.opcode).1 (shiftOperation inst.opcode).2 l l' := by
  obtain ⟨op, operands, raw, address⟩ := inst
  cases op with
  | sll | srl | sra => exact liftRTypeBinaryOp_operates hok
  | slli | srli | srai => exact liftITypeBinaryOp_operates hok
  | slliw => exact liftWTypeImmOp_operates hok
  | _ => cases hop

theorem finalizeRegisterWrites_instructions (order : List ℕ → List ℕ) (l : Lifter) :
    ∃ writes, writes.length = (order l.modifiedRegisters).length ∧
      (l.finalizeRegisterWrites order).currentInstructions = l.currentInstructions ++ writes := by
  unfold finalizeRegisterWrites
  generalize order l.modifiedRegisters = rs
  induction rs generalizing l with
  | nil => exact ⟨[], rfl, (List.append_nil _).symm⟩
  | cons r rs ih =>
    obtain ⟨writes, hlength, heq⟩ :=
      ih (l.addInstruction (.regWrite r ((l.cachedRegisterValues r).getD 0))).2
    refine ⟨⟨l.nextValueId, .regWrite r ((l.cachedRegisterValues r).getD 0)⟩ :: writes,
      congrArg Nat.succ hlength, heq.trans ?_⟩
    exact List.append_assoc ..

theorem liftBasicBlock_shift (horder : ∀ rs, (order rs).Perm rs)
    (hop : inst.opcode.isShift = true) {block : BasicBlock}
    (hlift : liftBasicBlock order [inst] init = .ok (block, l')) :
    block.instructions.length ≤ 6 ∧ (∀ c t f, block.terminator ≠ .condBranch c t f) ∧
      ∃ id a b, ⟨id, .binaryOp (shiftOperation inst.opcode).1 (shiftOperation inst.opcode).2 a b⟩ ∈
        block.instructions := by
  have hterm : isTerminator inst = false := by
    rw [isTerminator_eq]
    obtain ⟨op, operands, raw, address⟩ := inst
    cases op <;> first
      | rfl
      | cases hop
  rw [liftBasicBlock_eq, liftInstructions_cons hterm] at hlift
  obtain ⟨⟨terminator, l₁⟩, hok, hlift⟩ := bind_eq_ok.mp hlift
  obtain ⟨l₂, hok, hnil⟩ := bind_eq_ok.mp hok
  cases hnil
  have hoperates := liftSingleInstruction_operates hop hok
  obtain ⟨writes, hwrites, heq⟩ := finalizeRegisterWrites_instructions order l₁
  simp only [List.getLast?_singleton, hterm, Bool.not_false, if_true] at hlift
  cases hlift
  have hlength : l₁.currentInstructions.length ≤ 5 := hoperates.length
  have hmodified : l₁.modifiedRegisters.length ≤ 1 := hoperates.modified
  rw [(horder _).length_eq] at hwrites
  refine ⟨?_, fun _ _ _ => by simp, ?_⟩
  · rw [heq, List.length_append]
    omega
  · obtain ⟨id, a, b, hmem⟩ := hoperates.operation
    exact ⟨id, a, b, heq ▸ List.mem_append_left _ hmem⟩

/-- A shift needs no memory. -/
theorem liftBasicBlock_shift_eval (horder : ∀ rs, (order rs).Perm rs)
    (hop : inst.opcode.isShift = true)
    (hshaped : RiscV.Shaped inst.opcode.format inst.operands) {block : BasicBlock}
    (hlift : liftBasicBlock order [inst] init = .ok (block, l')) (valid : Valid) (g : Guest) :
    ∃ g', RiscV.Isa.step valid inst g = some (g', inst.address + 4#64) ∧
      evalBlock valid block g = some (g', inst.address + 4#64) := by
  have hline := RiscV.Opcode.isStraightLine_of_shift hop
  obtain ⟨g', hstep⟩ : ∃ g', RiscV.Isa.step valid inst g = some (g', inst.address + 4#64) := by
    obtain ⟨op, operands, raw, address⟩ := inst
    cases op with
    | sll | srl | sra | slli | srli | srai | slliw =>
      cases hshaped
      exact ⟨_, rfl⟩
    | _ => cases hop
  have hsteps : RiscV.Isa.steps valid ([inst].map rescaled) g = some g' := by
    rw [List.map_singleton, rescaled_of_not (RiscV.Opcode.not_isUpperImmediate hline),
      RiscV.Isa.steps, hstep]
    rfl
  have hliftable : ∀ j ∈ [inst], Liftable j := by
    rintro j hj
    obtain rfl := List.mem_singleton.mp hj
    exact ⟨by rw [hline]; rfl, hshaped⟩
  obtain ⟨_, _, hlift', hends⟩ := liftBasicBlock_body_ends horder init hliftable hsteps
  cases hlift.symm.trans hlift'
  exact ⟨g', hstep, hends.eval⟩

end Lifter

/-! ### The selected code -/

namespace InstructionSelector

open IR

variable {σ σ' : InstructionSelector} {code : Code} {id a b : ValueId}

def lsrOf (d l r : VirtualRegister) : Arm64.Instruction :=
  .threeOperand .lsr .x (.virtual d) (.virtual l) (.virtual r)

theorem Lowered.shr (h : Lowered σ ⟨id, .binaryOp .shr .i64 a b⟩ code σ') :
    ∃ d l r, lsrOf d l r ∈ code := by
  cases h with
  | comparison henter hcond => cases hcond
  | @arithmetic _ _ _ _ _ op d l r _ henter hcond hop =>
    cases hop
    exact ⟨d, l, r, List.mem_singleton_self _⟩

theorem selectAll_shr {instructions : List IR.Instruction}
    (hmem : ⟨id, .binaryOp .shr .i64 a b⟩ ∈ instructions)
    (hok : σ.selectAll instructions = .ok (code, σ')) : ∃ d l r, lsrOf d l r ∈ code := by
  induction instructions generalizing σ code with
  | nil => cases hmem
  | cons inst rest ih =>
    obtain ⟨code₁, σ₁, code₂, hok₁, hok₂, rfl⟩ := selectAll_cons hok
    rcases List.mem_cons.mp hmem with rfl | hmem
    · obtain ⟨d, l, r, hlsr⟩ := (selectInstruction_lowered hok₁).shr
      exact ⟨d, l, r, List.mem_append_left _ hlsr⟩
    · obtain ⟨d, l, r, hlsr⟩ := ih hmem hok₂
      exact ⟨d, l, r, List.mem_append_right _ hlsr⟩

theorem selectInstructions_shr {block : BasicBlock}
    (hmem : ⟨id, .binaryOp .shr .i64 a b⟩ ∈ block.instructions)
    (hok : σ.selectInstructions block = .ok (code, σ')) : ∃ d l r, lsrOf d l r ∈ code := by
  obtain ⟨code₁, σ₁, code₂, hok₁, hok₂, rfl⟩ := selectInstructions_eq_ok.mp hok
  obtain ⟨d, l, r, hlsr⟩ := selectAll_shr hmem hok₁
  exact ⟨d, l, r, List.mem_append_left _ hlsr⟩

end InstructionSelector

theorem encode_lsr {d l r : Fin 31} {bytes : List (BitVec 8)}
    (hok : encodeInstruction (.threeOperand .lsr .x (.register (.x d)) (.register (.x l))
      (.register (.x r))) = .ok bytes) : ∃ word, fetch bytes = some word ∧ A64.decode word = none := by
  obtain ⟨i, hi, hfetch⟩ := encodeInstruction_emit (.threeOperand .lsr .x (.register (.x d))
    (.register (.x l)) (.register (.x r))) ⟨.inr rfl, ⟨d, rfl⟩, ⟨l, rfl⟩, .inl ⟨r, rfl⟩⟩ hok
  refine ⟨i.encode, hfetch, ?_⟩
  rw [A64.decode_encode, if_neg]
  simp only [emit, emitThreeOperand, Option.some.injEq] at hi
  subst hi
  simp [A64.Instr.allocated]

/-! ### The translated block -/

section

variable {i : RiscV.Encoding.Instr} {rd : BitVec 5} {result : Guest → BitVec 64}
  {t : BinaryTranslator} {pc : BitVec 64} {order : List ℕ → List ℕ} {inst : RiscV.Instruction}

open BinaryTranslator

/-- The block at `pc` is translated to allocated words that leave `result` in `rd`. -/
def ShiftsTo (order : List ℕ → List ℕ) (t : BinaryTranslator) (pc : BitVec 64) (rd : BitVec 5)
    (result : Guest → BitVec 64) : Prop :=
  ∃ machineCode, t.translateBlock order pc = .ok machineCode ∧
    (∀ word ∈ words machineCode, (A64.decode word).isSome = true) ∧
    ∀ (L : Layout) (g : Guest) (host : A64.Cpu), L.state = t.guestState →
      Represents L host.mem g → ∃ nextPC cpu,
        ExecutionEngine.executeBlock machineCode t.guestState .executable host =
          .ok (nextPC, cpu) ∧
        (rd ≠ 0#5 → ByteMemory.load cpu.mem (L.field (rd.toNat * REGISTER_SIZE_BYTES)) 8 = result g)

theorem decodeBlock_single (hdecode : RiscV.Decoder.decodeWord i.encode pc = .ok inst)
    (hop : inst.opcode.isShift = true)
    (hword : RiscV.Decoder.Holds t.textSectionData (pc - t.textBaseAddress).toNat i.encode)
    (hend : t.textSectionData.length = (pc - t.textBaseAddress).toNat + 4) :
    decodeBlock t.textSectionData
      (offsets (pc - t.textBaseAddress).toNat t.textSectionData.length) pc = .ok [inst] := by
  have hoffsets : offsets (pc - t.textBaseAddress).toNat t.textSectionData.length =
      [(pc - t.textBaseAddress).toNat] := by
    rw [offsets, hend, Nat.add_sub_cancel_left]
    rfl
  have hvalid : inst.isValid = true ∧ Lifter.isTerminator inst = false := by
    obtain ⟨op, operands, raw, address⟩ := inst
    cases op <;> first
      | exact ⟨rfl, rfl⟩
      | cases hop
  simp only [hoffsets, decodeBlock, RiscV.Decoder.decode_holds hword, hdecode, hvalid.1, hvalid.2,
    bind, Except.bind]
  rfl

theorem translateBlock_shift_iff (horder : ∀ rs, (order rs).Perm rs) (h : Shifts i rd result)
    (hpc : t.isValidPC pc = true)
    (hword : RiscV.Decoder.Holds t.textSectionData (pc - t.textBaseAddress).toNat i.encode)
    (hend : t.textSectionData.length = (pc - t.textBaseAddress).toNat + 4) :
    ShiftsTo order t pc rd result ↔ ¬ LogicalRight i := by
  obtain ⟨inst, hdecode, hd⟩ := RiscV.Decoder.decodesShift h pc
  have hdecoded := decodeBlock_single hdecode hd.shift hword hend
  have hsup : ∀ j ∈ [inst], j.Supported := by
    rintro j hj
    obtain rfl := List.mem_singleton.mp hj
    refine ⟨?_, hd.shaped⟩
    rw [RiscV.Opcode.isSupported, RiscV.Opcode.isStraightLine_of_shift hd.shift]
    rfl
  obtain ⟨block, l', hlift, hblock⟩ :=
    Lifter.liftBasicBlock_wellTyped horder Lifter.init hsup (by simp)
  obtain ⟨hlength, hbranch, id, a, b, hoperation⟩ :=
    Lifter.liftBasicBlock_shift horder hd.shift hlift
  obtain ⟨code, σ, hselect⟩ := selectInstructions_ok hblock
  have heval := Lifter.liftBasicBlock_shift_eval horder hd.shift hd.shaped hlift
  have hnone (g : Guest) : ∃ s', IR.evalInstructions (fun _ _ => false) block.instructions
      ⟨fun _ => none, g⟩ = some s' := by
    obtain ⟨g', -, heval⟩ := heval (fun _ _ => false) g
    obtain ⟨s', hs', -⟩ := Option.bind_eq_some_iff.mp heval
    exact ⟨s', hs'⟩
  have hpressure : ∀ interval ∈ computeLiveIntervals code,
      pressure (computeLiveIntervals code) interval.start < 18 := by
    intro interval hmem
    have hlt := pressure_of_few hblock hbranch hselect hmem
    have hle := constantId_le block.instructions
    obtain ⟨s', hs'⟩ := hnone ⟨fun _ => 0#64, fun _ => 0#8⟩
    rw [countP_isAccess_of_eval hs'] at hle
    omega
  rcases translateToARM64_cases hblock hselect with
    ⟨-, s, encoded, -, halloc, htranslate, hencode, hne⟩ | ⟨⟨interval, hmem, hle⟩, -⟩
  swap
  · have hlt := hpressure interval hmem
    omega
  have hok : t.translateBlock order pc = .ok encoded.flatten := by
    rw [translateBlock_eq hpc hdecoded hlift htranslate, hencode]
    simp [Except.bind, hne]
  constructor
  · rintro ⟨machineCode, hok', hallocated, -⟩ hright
    cases hok.symm.trans hok'
    have hexact : inst.opcode.isExact = false := by
      rw [← Bool.not_eq_true, hd.exact]
      exact not_not_intro hright
    rw [Lifter.shiftOperation_shr hd.shift hexact] at hoperation
    obtain ⟨d, l, r, hlsr⟩ := selectInstructions_shr hoperation hselect
    obtain ⟨bytes, hbytes⟩ := encode_of_mapM hencode (List.mem_map_of_mem hlsr)
    obtain ⟨nd, hnd, -⟩ := mem_availableRegisters (halloc.registerOf d)
    obtain ⟨nl, hnl, -⟩ := mem_availableRegisters (halloc.registerOf l)
    obtain ⟨nr, hnr, -⟩ := mem_availableRegisters (halloc.registerOf r)
    have hrename : (lsrOf d l r).rename s.registerOf = .threeOperand .lsr .x (.register (.x nd))
        (.register (.x nl)) (.register (.x nr)) := by
      rw [← hnd, ← hnl, ← hnr]
      rfl
    obtain ⟨word, hfetch, hnone⟩ := encode_lsr (hrename ▸ hbytes)
    have hsome := hallocated word ((mem_words hencode word).mpr
      ⟨_, List.mem_map_of_mem hlsr, bytes, hbytes, hfetch⟩)
    rw [hnone] at hsome
    cases hsome
  · intro hleft
    have hexact : ∀ inst ∈ block.instructions, inst.kind.Exact :=
      Lifter.liftBasicBlock_exact (by simpa using hd.exact.mpr hleft) hlift
    refine ⟨_, hok, ?_, ?_⟩
    · intro word hmem
      obtain ⟨renamed, hrenamed, bytes, hbytes, hfetch⟩ := (mem_words hencode word).mp hmem
      obtain ⟨word', j, hfetch', hj, -⟩ :=
        (renders_final hblock hexact hselect halloc renamed hrenamed bytes hbytes).means
      cases hfetch.symm.trans hfetch'
      rw [hj]
      rfl
    · intro L g host hstate hguest
      obtain ⟨g', hstep, heval⟩ := heval L.valid g
      cases hstep.symm.trans (hd.step hleft L.valid g)
      obtain ⟨s', hs'⟩ := hnone g
      obtain ⟨cpu, hrun, hguest', -⟩ := executeBlock_encoded hblock hexact hselect halloc hpressure
        (separate_of_no_branch hblock hbranch hselect halloc) hencode heval hguest
        fun hne => absurd (IR.accesses_eq_nil_of_eval hs') hne
      refine ⟨_, cpu, hstate ▸ hrun, fun hrd => ?_⟩
      have hne : rd.toNat ≠ 0 := fun h0 => hrd (BitVec.eq_of_toNat_eq h0)
      rw [hguest'.x rd.toNat rd.isLt, Guest.writeRegister_x _ _ hne, Function.update_self]

def translatorOfWord (word : BitVec 32) : BinaryTranslator :=
  translatorOf (RiscV.Encoding.littleEndian word)

theorem translateBlock_shift_iff_sll :
    ShiftsTo id (translatorOfWord (RiscV.Encoding.Instr.r .sll 1 2 3).encode) 0x1000#64 1
        (fun g => g.reg 2 <<< ((g.reg 3).toNat % 64)) ↔ ¬ LogicalRight (.r .sll 1 2 3) :=
  translateBlock_shift_iff (fun rs => List.Perm.refl (id rs)) (.sll 1 2 3) rfl ⟨[], rfl⟩ rfl

/-- `srl x1, x2, x3`. -/
theorem translateBlock_srl :
    ¬ ShiftsTo id (translatorOfWord (RiscV.Encoding.Instr.r .srl 1 2 3).encode) 0x1000#64 1
      (fun g => g.reg 2 >>> ((g.reg 3).toNat % 64)) := by
  rintro ⟨machineCode, hok, hallocated, -⟩
  have hnone : (do
      let machineCode ← (translatorOfWord (RiscV.Encoding.Instr.r .srl 1 2 3).encode).translateBlock
        id 0x1000#64
      return (words machineCode).all fun word => (A64.decode word).isSome) = .ok false := by
    decide +kernel
  rw [hok] at hnone
  have hall : ((words machineCode).all fun word => (A64.decode word).isSome) = true :=
    List.all_eq_true.mpr hallocated
  cases hall.symm.trans (Except.ok.inj hnone)

end

end DinoRisc
