import DinoRisc.Arm64.Emitted
import DinoRisc.Arm64.EncoderCorrect
import DinoRisc.IR.Eval
import DinoRisc.Lowering.Constants

/-! The code of a constant as machine code. -/

namespace DinoRisc

open Arm64 Arm64.Encoder IR

/-- The constants of a type, read as signed or as unsigned. -/
def IR.Ty.Holds (ty : Ty) (value : BitVec 64) : Prop :=
  -2 ^ (ty.width - 1) ≤ value.toInt ∧ value.toInt < 2 ^ ty.width

/-- The encoder accepts the instruction, and its word is allocated and means the same. -/
def Arm64.Instruction.Legal (inst : Arm64.Instruction) : Prop :=
  ∃ bytes, encodeInstruction inst = .ok bytes ∧ Means bytes inst

namespace InstructionSelector

variable {target : Operand} {p : Place} {value : BitVec 64} {ty : Ty} {size : DataSize}
  {opcode : Opcode} {inst : Arm64.Instruction} {n : Fin 31} {ρ : VirtualRegister → Register}

/-- The encoder reads a size only for whether it is `X`, and so does the machine. -/
theorem legal_narrow (hne : size ≠ .x) {src : Operand} :
    Arm64.Instruction.Legal (.twoOperand opcode size target src) ↔
      Arm64.Instruction.Legal (.twoOperand opcode .w target src) := by
  have hencode : encodeInstruction (.twoOperand opcode size target src) =
      encodeInstruction (.twoOperand opcode .w target src) := by
    cases size <;> first | rfl | contradiction
  have hexec (m : Machine) : Arm64.exec (.twoOperand opcode size target src) m =
      Arm64.exec (.twoOperand opcode .w target src) m := by
    cases size <;> cases opcode <;> first | rfl | contradiction
  simp only [Arm64.Instruction.Legal, Means, hencode, hexec]

theorem constant_legal (hop : opcode ∈ [.mov, .movn]) (hvalue : value.toNat < 2 ^ 16) :
    Arm64.Instruction.Legal (.twoOperand opcode size (.register (.x n)) (.immediate value)) := by
  have hwide (size : DataSize) (hs : size = .w ∨ size = .x) :
      Arm64.Instruction.Legal (.twoOperand opcode size (.register (.x n)) (.immediate value)) := by
    have hemitted : Arm64.Instruction.Emitted
        (.twoOperand opcode size (.register (.x n)) (.immediate value)) :=
      .constant hop (.general n) hvalue
    obtain ⟨bytes, hbytes, -⟩ := encodeInstruction_ok hemitted rfl
    refine ⟨bytes, hbytes, means_of_encodable ⟨?_, ⟨n, rfl⟩, .inr ⟨value, rfl, ?_⟩⟩ trivial hbytes⟩
    · simp only [List.mem_cons, List.not_mem_nil, or_false] at hop
      rcases hs with rfl | rfl
      · exact .inl ⟨rfl, by rintro rfl; simp at hop⟩
      · exact .inr rfl
    · simp only [List.mem_cons, List.not_mem_nil, or_false] at hop
      rcases hop with rfl | rfl <;> exact hvalue
  by_cases hx : size = .x
  · exact hwide size (.inr hx)
  · exact (legal_narrow hx).mpr (hwide .w (.inl rfl))

theorem chunk_legal (hop : opcode ∈ [.movz, .movk]) (hs : size = .w ∨ size = .x)
    {imm16 : BitVec 16} {shift : BitVec 8} (hshift : shift ∈ [0#8, 16#8, 32#8, 48#8]) :
    Arm64.Instruction.Legal (.moveWide opcode size (.register (.x n)) imm16 shift) ↔
      (size = .w → shift.toNat < 32) := by
  have hemitted : Arm64.Instruction.Emitted
      (.moveWide opcode size (.register (.x n)) imm16 shift) := .chunk hop (.general n) hshift
  obtain ⟨bytes, hbytes, -⟩ := encodeInstruction_ok hemitted rfl
  have hmeans := encodeInstruction_means_iff (.moveWide opcode size _ imm16 shift)
    ⟨hs, ⟨n, rfl⟩, hshift⟩ hbytes
  simp only [Arm64.Instruction.Legal, hbytes, Except.ok.injEq, exists_eq_left', hmeans]
  rcases hs with rfl | rfl
  · simp [Arm64.Instruction.Encodable]
  · simp [Arm64.Instruction.Encodable]

/-! ### The constants of one instruction -/

theorem selectConstIntoRegister_small (ty : Ty) (target : Operand)
    (hlow : -65536 ≤ value.toInt) (hhigh : value.toInt < 65536) :
    ∃ opcode imm, opcode ∈ [Opcode.mov, .movn] ∧ imm.toNat < 2 ^ 16 ∧
      (∀ w ≤ 64, opcode.convert (imm.setWidth w) = some (value.setWidth w)) ∧
      selectConstIntoRegister ty value target =
        [.twoOperand opcode (irTypeToDataSize ty) target (.immediate imm)] := by
  have hint := BitVec.toInt_eq_toNat_cond value
  rw [selectConstIntoRegister]
  by_cases hneg : value.toInt < 0
  · refine ⟨.movn, ~~~value, by simp, ?_, fun w hw => ?_, if_pos ⟨hneg, hlow⟩⟩
    · rw [BitVec.toNat_not]
      omega
    · exact congrArg some (not_setWidth_not value hw)
  · refine ⟨.mov, value, by simp, ?_, fun w hw => rfl, ?_⟩
    · omega
    · rw [if_neg (fun h => hneg h.1)]
      exact if_pos ⟨by omega, by omega⟩

/-! ### The constants of several chunks -/

theorem mem_selectChunks {firstChunk : Bool} {shifts : List ℕ}
    (h : inst ∈ selectChunks size target value firstChunk shifts) :
    ∃ opcode imm16 shift, opcode ∈ [Opcode.movz, .movk] ∧
      inst = .moveWide opcode size target imm16 (BitVec.ofNat 8 shift) ∧
      (shift = 0 ∨ shift ∈ shifts ∧ (value >>> shift).setWidth 16 ≠ 0#16) := by
  induction shifts generalizing firstChunk with
  | nil =>
    cases firstChunk with
    | true => exact ⟨.movz, 0#16, 0, by simp, by simpa [selectChunks] using h, .inl rfl⟩
    | false => cases h
  | cons shift shifts ih =>
    have hlater (h : ∃ opcode imm16 shift, opcode ∈ [Opcode.movz, .movk] ∧
        inst = .moveWide opcode size target imm16 (BitVec.ofNat 8 shift) ∧
        (shift = 0 ∨ shift ∈ shifts ∧ (value >>> shift).setWidth 16 ≠ 0#16)) :
        ∃ opcode imm16 k, opcode ∈ [Opcode.movz, .movk] ∧
          inst = .moveWide opcode size target imm16 (BitVec.ofNat 8 k) ∧
          (k = 0 ∨ k ∈ shift :: shifts ∧ (value >>> k).setWidth 16 ≠ 0#16) := by
      obtain ⟨opcode, imm16, k, hop, rfl, hk⟩ := h
      exact ⟨opcode, imm16, k, hop, rfl, hk.imp_right fun hk => ⟨.tail _ hk.1, hk.2⟩⟩
    rw [selectChunks] at h
    split at h
    · exact hlater (ih h)
    · rcases List.mem_cons.mp h with rfl | h
      · refine ⟨_, _, shift, ?_, rfl, .inr ⟨.head _, ‹_›⟩⟩
        cases firstChunk <;> simp
      · exact hlater (ih h)

theorem mem_selectChunks_of_chunk (size : DataSize) (target : Operand) {shifts : List ℕ}
    {shift : ℕ} (hmem : shift ∈ shifts) (hchunk : (value >>> shift).setWidth 16 ≠ 0#16)
    (firstChunk : Bool) :
    ∃ opcode imm16, opcode ∈ [Opcode.movz, .movk] ∧
      .moveWide opcode size target imm16 (BitVec.ofNat 8 shift) ∈
        selectChunks size target value firstChunk shifts := by
  induction shifts generalizing firstChunk with
  | nil => cases hmem
  | cons first shifts ih =>
    rw [selectChunks]
    rcases List.mem_cons.mp hmem with rfl | hmem
    · rw [if_neg hchunk]
      refine ⟨_, _, ?_, .head _⟩
      cases firstChunk <;> simp
    · split
      · exact ih hmem firstChunk
      · obtain ⟨opcode, imm16, hop, hmem⟩ := ih hmem false
        exact ⟨opcode, imm16, hop, .tail _ hmem⟩

theorem chunk_eq_zero (value : BitVec 64) (k : ℕ) :
    (value >>> k).setWidth 16 = 0#16 ↔ value.toNat / 2 ^ k % 2 ^ 16 = 0 := by
  rw [BitVec.toNat_eq, BitVec.toNat_setWidth, BitVec.toNat_ushiftRight, Nat.shiftRight_eq_div_pow,
    BitVec.toNat_ofNat, Nat.zero_mod]

theorem chunk_single (h0 : (value >>> 0).setWidth 16 = 0#16) (h : value.toNat < 2 ^ 32) :
    (((value >>> 16).setWidth 16).setWidth 32 <<< 16).setWidth 64 = value := by
  have h0 : value.toNat % 2 ^ 16 = 0 := by simpa using congrArg BitVec.toNat h0
  apply BitVec.eq_of_toNat_eq
  simp only [BitVec.toNat_setWidth, BitVec.toNat_shiftLeft, BitVec.toNat_ushiftRight,
    Nat.shiftLeft_eq, Nat.shiftRight_eq_div_pow]
  omega

theorem chunk_pair (h : value.toNat < 2 ^ 32) :
    (((((value >>> 0).setWidth 16).setWidth 32 <<< 0).setWidth 64).setWidth 32 &&&
        ~~~(0xFFFF#32 <<< 16) |||
      ((value >>> 16).setWidth 16).setWidth 32 <<< 16).setWidth 64 = value := by
  apply BitVec.eq_of_getLsbD_eq
  intro i hi
  have hmask : (0xFFFF#32).getLsbD (i - 16) = decide (i - 16 < 16) := by
    rw [show (0xFFFF#32) = (BitVec.allOnes 16).setWidth 32 from rfl, BitVec.getLsbD_setWidth,
      BitVec.getLsbD_allOnes]
    simp only [Bool.and_eq_right_iff_imp, decide_eq_true_eq]
    omega
  simp only [BitVec.ushiftRight_zero, BitVec.shiftLeft_zero, BitVec.getLsbD_setWidth,
    BitVec.getLsbD_or, BitVec.getLsbD_and, BitVec.getLsbD_not, BitVec.getLsbD_shiftLeft,
    BitVec.getLsbD_ushiftRight, hmask]
  by_cases h16 : i < 16
  · simp [h16, hi, show i < 32 by omega]
  by_cases h32 : i < 32
  · simp [h16, h32, hi, show i - 16 < 16 by omega, show i - 16 < 32 by omega,
      show 16 + (i - 16) = i by omega]
  · have hhigh : value.getLsbD i = false :=
      Nat.testBit_lt_two_pow (h.trans_le (Nat.pow_le_pow_right (by omega) (by omega)))
    rw [hhigh]
    simp [h32]

theorem exec_movz_w (hp : target.place = some p) {imm16 : BitVec 16} {shift : BitVec 8}
    {m : Machine} : Arm64.exec (.moveWide .movz .w target imm16 shift) m =
      some (.next (m.set p ((imm16.setWidth 32 <<< shift.toNat).setWidth 64))) := by
  simp only [Arm64.exec, m.write_eq p _ hp, DataSize.result]
  rfl

theorem exec_movk_w (hp : target.place = some p) {imm16 : BitVec 16} {shift : BitVec 8}
    {m : Machine} : Arm64.exec (.moveWide .movk .w target imm16 shift) m =
      some (.next (m.set p ((((m.reg p).setWidth 32 &&& ~~~(0xFFFF#32 <<< shift.toNat)) |||
        imm16.setWidth 32 <<< shift.toNat).setWidth 64))) := by
  have hread : m.read target = m.reg p := by
    cases target <;> cases hp <;> rfl
  simp only [Arm64.exec, m.write_eq p _ hp, hread, DataSize.result]
  rfl

theorem selectChunks_reaches_w (hp : target.place = some p) (hlow : 65536 ≤ value.toNat)
    (hhigh : value.toNat < 2 ^ 32) (m : Machine) :
    Reaches (selectChunks .w target value true [0, 16, 32, 48]) m (m.set p value) := by
  have h1 : ¬ (value >>> 16).setWidth 16 = 0#16 := by
    rw [chunk_eq_zero]
    omega
  have h2 : (value >>> 32).setWidth 16 = 0#16 := by
    rw [chunk_eq_zero]
    omega
  have h3 : (value >>> 48).setWidth 16 = 0#16 := by
    rw [chunk_eq_zero]
    omega
  simp only [selectChunks, h1, h2, h3, if_true, if_false, Bool.false_eq_true]
  split
  · apply Reaches.single
    rw [exec_movz_w hp]
    exact congrArg (fun v => some (Outcome.next (m.set p v))) (chunk_single ‹_› hhigh)
  · apply Reaches.cons (exec_movz_w hp)
    apply Reaches.single
    rw [exec_movk_w hp, Machine.set_set, Machine.set_reg_self]
    exact congrArg (fun v => some (Outcome.next (m.set p v))) (chunk_pair hhigh)

/-! ### Every constant -/

theorem small_correct (hlow : -65536 ≤ value.toInt) (hhigh : value.toInt < 65536)
    (hp : target.place = some p) (hρ : target.rename ρ = .register (.x n)) :
    (∀ inst ∈ selectConstIntoRegister ty value target, (inst.rename ρ).Legal) ∧
      ∀ m, ∃ v, Reaches (selectConstIntoRegister ty value target) m (m.set p v) ∧
        v.setWidth ty.width = value.setWidth ty.width := by
  obtain ⟨opcode, imm, hop, himm, hconvert, hcode⟩ :=
    selectConstIntoRegister_small ty target hlow hhigh
  have hle : (irTypeToDataSize ty).width ≤ 64 := by cases ty <;> decide
  have hty : ty.width ≤ (irTypeToDataSize ty).width := by cases ty <;> decide
  rw [hcode]
  constructor
  · intro inst hinst
    obtain rfl := List.mem_singleton.mp hinst
    rw [Arm64.Instruction.rename, hρ]
    exact constant_legal hop himm
  · intro m
    refine ⟨_, Reaches.single (exec_convert hp (hconvert _ hle)), ?_⟩
    rw [DataSize.result, BitVec.setWidth_setWidth (by omega), BitVec.setWidth_setWidth (by omega)]

theorem chunks_correct (hty : ty = .i64 ∨ ty = .i32 ∧ 0 ≤ value.toInt) (hrange : ty.Holds value)
    (hlarge : ¬ (-65536 ≤ value.toInt ∧ value.toInt < 65536))
    (hp : target.place = some p) (hρ : target.rename ρ = .register (.x n)) :
    (∀ inst ∈ selectConstIntoRegister ty value target, (inst.rename ρ).Legal) ∧
      ∀ m, Reaches (selectConstIntoRegister ty value target) m (m.set p value) := by
  have hcode : selectConstIntoRegister ty value target =
      selectChunks (irTypeToDataSize ty) target value true [0, 16, 32, 48] := by
    rw [selectConstIntoRegister, if_neg (by omega), if_neg (by omega)]
  constructor
  · intro inst hinst
    rw [hcode] at hinst
    obtain ⟨opcode, imm16, shift, hop, rfl, hshift⟩ := mem_selectChunks hinst
    rw [Arm64.Instruction.rename, hρ]
    have hfour : BitVec.ofNat 8 shift ∈ [0#8, 16#8, 32#8, 48#8] := by
      rcases hshift with rfl | ⟨hmem, -⟩
      · simp
      · simp only [List.mem_cons, List.not_mem_nil, or_false] at hmem
        rcases hmem with rfl | rfl | rfl | rfl <;> simp
    rcases hty with rfl | ⟨rfl, hpos⟩
    · apply (chunk_legal hop (.inr rfl) hfour).mpr
      rintro h
      cases h
    · refine (chunk_legal hop (.inl rfl) hfour).mpr fun _ => ?_
      rcases hshift with rfl | ⟨hmem, hchunk⟩
      · decide
      · -- the two upper chunks of a number below 2 ^ 32 are zero
        have hint := BitVec.toInt_eq_toNat_cond value
        have hhigh := hrange.2
        rw [Ne, chunk_eq_zero] at hchunk
        simp only [List.mem_cons, List.not_mem_nil, or_false] at hmem
        simp only [Ty.width] at hhigh
        rcases hmem with rfl | rfl | rfl | rfl <;> first | decide | (exfalso; omega)
  · intro m
    rcases hty with rfl | ⟨rfl, hpos⟩
    · exact selectConstIntoRegister_i64 hp value m
    · have hint := BitVec.toInt_eq_toNat_cond value
      have hhigh := hrange.2
      simp only [Ty.width] at hhigh
      rw [hcode]
      exact selectChunks_reaches_w hp (by omega) (by omega) m

/-- The code of a constant is legal and leaves the constant, except for the negative constants of 32
bits that take a MOVK at bit 32. -/
theorem selectConstIntoRegister_legal_iff (hty : ty ≠ .i1) (hrange : ty.Holds value)
    (hp : target.place = some p) (hρ : target.rename ρ = .register (.x n)) :
    ((∀ inst ∈ selectConstIntoRegister ty value target, (inst.rename ρ).Legal) ∧
      ∀ m, ∃ v, Reaches (selectConstIntoRegister ty value target) m (m.set p v) ∧
        v.setWidth ty.width = value.setWidth ty.width) ↔
      ¬ (ty = .i32 ∧ value.toInt < -65536) := by
  have hint := BitVec.toInt_eq_toNat_cond value
  obtain ⟨hlow, hhigh⟩ := id hrange
  constructor
  · rintro ⟨hlegal, -⟩ ⟨rfl, hneg⟩
    simp only [Ty.width] at hlow
    have hchunk : (value >>> 32).setWidth 16 ≠ 0#16 := by
      rw [Ne, chunk_eq_zero]
      omega
    have hshift : 32 ∈ [0, 16, 32, 48] := by simp
    obtain ⟨opcode, imm16, hop, hmem⟩ := mem_selectChunks_of_chunk .w target hshift hchunk true
    rw [selectConstIntoRegister, if_neg (by omega), if_neg (by omega)] at hlegal
    have hbad := hlegal _ hmem
    rw [Arm64.Instruction.rename, hρ, chunk_legal hop (.inl rfl) (by simp)] at hbad
    exact absurd (hbad rfl) (by decide)
  · intro hnot
    by_cases hsmall : -65536 ≤ value.toInt ∧ value.toInt < 65536
    · exact small_correct hsmall.1 hsmall.2 hp hρ
    · have hwide : ty = .i64 ∨ ty = .i32 ∧ 0 ≤ value.toInt := by
        cases ty <;> simp only [Ty.width] at hlow hhigh <;> simp at hnot ⊢ <;> omega
      obtain ⟨hlegal, hreach⟩ := chunks_correct hwide hrange hsmall hp hρ
      exact ⟨hlegal, fun m => ⟨value, hreach m, rfl⟩⟩

theorem selectConstIntoRegister_legal_iff_chunks :
    ((∀ inst ∈ selectConstIntoRegister .i32 0x12345678#64 (.virtual 4),
        (inst.rename fun _ => .x 7).Legal) ∧
      ∀ m, ∃ v, Reaches (selectConstIntoRegister .i32 0x12345678#64 (.virtual 4)) m
          (m.set (.virtual 4) v) ∧ v.setWidth 32 = (0x12345678#64).setWidth 32) ↔
      ¬ (Ty.i32 = .i32 ∧ (0x12345678#64).toInt < -65536) :=
  selectConstIntoRegister_legal_iff (by decide) (by unfold Ty.Holds; decide) rfl rfl

/-- The third instruction shifts by 32. -/
theorem selectConstIntoRegister_negative :
    Ty.Holds .i32 (BitVec.ofInt 64 (-65537)) ∧
      ¬ ∀ inst ∈ selectConstIntoRegister .i32 (BitVec.ofInt 64 (-65537)) X0, inst.Legal := by
  refine ⟨by unfold Ty.Holds; decide, fun hlegal => ?_⟩
  have hmovk := hlegal (.moveWide .movk .w X0 0xFFFF#16 32#8) (by decide)
  exact absurd ((chunk_legal (by simp) (.inl rfl) (by simp)).mp hmovk rfl) (by decide)

end InstructionSelector

end DinoRisc
