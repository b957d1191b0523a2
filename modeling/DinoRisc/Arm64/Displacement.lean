import DinoRisc.Arm64.LoadStore
import DinoRisc.Library.A64Displacement

/-! The displacements of loads, stores and branches. -/

namespace DinoRisc.Arm64

open A64 (Transfer Branch)

/-- The word is the load or the store at `baseReg + offset` without writeback, or the branch that is
`target` bytes away. -/
def Encoder.Displaces (word : BitVec 32) : Instruction → Prop
  | .memory opcode size (.register (.x rt)) (.register (.x rn)) offset =>
    ∃ t, A64.decodeTransfer word = some t ∧ t.opc = transferBits opcode ∧ t.size = sizeBits size ∧
      t.rt = number rt ∧ t.rn = number rn ∧
      ∀ base, t.address base = base + offset.signExtend 64 ∧ t.writeback base = base
  | .branch opcode target =>
    ∃ b, A64.decodeBranch word = some b ∧ b.displacement = target.toInt ∧
      match b with
      | .always _ => opcode = .b
      | .conditional cond _ => getConditionCode opcode = .ok (cond.setWidth 32)
  | _ => False

/-- LDR or STR of general registers, or a branch. -/
def Instruction.HasDisplacement : Instruction → Prop
  | .memory opcode _ reg baseReg _ => opcode ∈ [.ldr, .str] ∧ reg.IsGeneral ∧ baseReg.IsGeneral
  | .branch opcode _ => opcode ∈ [.b, .b_eq, .b_ne, .b_lt, .b_le, .b_gt, .b_ge]
  | _ => False

/-- An offset that is not negative and a multiple of the size, or a target that is a multiple of
four. -/
def Instruction.Aligned : Instruction → Prop
  | .memory _ size _ _ offset => 0 ≤ offset.toInt ∧ offset.toInt % size.bytes = 0
  | .branch _ target => target.toInt % 4 = 0
  | _ => True

namespace Encoder

variable {opcode : Opcode} {size : DataSize} {rt rn : Fin 31} {offset word : BitVec 32}
  {target : BitVec 64}

theorem encodeMemoryInst_aligned (hop : opcode ∈ [.ldr, .str])
    (haligned : 0 ≤ offset.toInt ∧ offset.toInt % size.bytes = 0)
    (h : encodeMemoryInst opcode size (.register (.x rt)) (.register (.x rn)) offset = .ok word) :
    Scaled size offset := by
  have hpos : offset.toNat < 2 ^ 31 := by
    have := BitVec.toInt_eq_toNat_cond offset
    omega
  have hint : offset.toInt = offset.toNat := by
    rw [BitVec.toInt_eq_toNat_of_lt]
    omega
  have hmsb : offset.msb = false := BitVec.msb_eq_false_iff_two_mul_lt.mpr (by omega)
  have hmod : offset.toNat % size.bytes = 0 := by
    have := haligned.2
    rw [hint] at this
    exact_mod_cast this
  refine ⟨hpos, hmod, ?_⟩
  by_contra hlarge
  have hnot : ¬ offset.sshiftRight (sizeField size).toNat ≤ 0xFFF#32 := by
    rw [BitVec.le_def, BitVec.sshiftRight_eq_of_msb_false hmsb, BitVec.toNat_ushiftRight,
      Nat.shiftRight_eq_div_pow, two_pow_sizeField, BitVec.toNat_ofNat]
    omega
  have hreject (name : String) (rn rt unsignedOffset postIndex : BitVec 32) :
      encodeOffset name (sizeField size) rn rt offset unsignedOffset postIndex =
        .error (.encoding (name ++ " scaled offset too large (>4095)")) := by
    rw [encodeOffset, mod_sizeField, if_pos haligned]
    exact if_neg hnot
  simp only [List.mem_cons, List.not_mem_nil, or_false] at hop
  rcases hop with rfl | rfl <;>
    simp only [encodeMemoryInst, encodeRegister_general, bind, Except.bind, hreject,
      reduceCtorEq] at h

/-- Any other offset becomes a store: LDR a pre-indexed one, STR a post-indexed one. -/
theorem encodeMemoryInst_indexed (hop : opcode ∈ [.ldr, .str])
    (haligned : ¬ (0 ≤ offset.toInt ∧ offset.toInt % size.bytes = 0))
    (h : encodeMemoryInst opcode size (.register (.x rt)) (.register (.x rn)) offset = .ok word) :
    word = (Transfer.mk (sizeBits size) 0#2
      (.indexed (if opcode = .ldr then 3#2 else 1#2) (offset.extractLsb' 0 9))
      (number rn) (number rt)).encode := by
  have hmask : offset &&& 0x1FF#32 = (offset.extractLsb' 0 9).setWidth 32 :=
    BitField.and_mask offset 9 (by omega)
  have hok (name : String) (rn rt unsignedOffset postIndex : BitVec 32) :
      encodeOffset name (sizeField size) rn rt offset unsignedOffset postIndex =
        if -256 ≤ offset.toInt ∧ offset.toInt ≤ 255 then
          .ok (((sizeBits size).setWidth 32 <<< 30) ||| (0b11100000#32 <<< 22) |||
            ((offset.extractLsb' 0 9).setWidth 32 <<< 12) ||| (postIndex <<< 10) ||| (rn <<< 5) ||| rt)
        else .error (.encoding (name ++ " offset out of range")) := by
    rw [encodeOffset, mod_sizeField, if_neg haligned, hmask, sizeField_eq]
  simp only [List.mem_cons, List.not_mem_nil, or_false] at hop
  rcases hop with rfl | rfl
  all_goals
    simp only [encodeMemoryInst, encodeRegister_general, bind, Except.bind, hok] at h
    split at h
    · cases h
      simp [Transfer.encode, A64.Instr.place, BitVec.or_assoc]
    · cases h

theorem displaces_memory_iff (hop : opcode ∈ [.ldr, .str])
    (h : encodeMemoryInst opcode size (.register (.x rt)) (.register (.x rn)) offset = .ok word) :
    Displaces word (.memory opcode size (.register (.x rt)) (.register (.x rn)) offset) ↔
      0 ≤ offset.toInt ∧ offset.toInt % size.bytes = 0 := by
  constructor
  · rintro ⟨t, ht, hopc, -, -, -, haddress⟩
    by_contra haligned
    obtain rfl := encodeMemoryInst_indexed hop haligned h
    rw [A64.decodeTransfer_encode] at ht
    cases ht
    simp only [List.mem_cons, List.not_mem_nil, or_false] at hop
    rcases hop with rfl | rfl
    · cases hopc
    · -- the access is at the base, not at the offset from it
      have hzero : 0#64 = offset.signExtend 64 := (haddress 0#64).1.trans (BitVec.zero_add _)
      have hoffset := congrArg BitVec.toInt hzero
      rw [BitVec.toInt_signExtend_of_le (by omega), BitVec.toInt_zero] at hoffset
      exact haligned (by simp [← hoffset])
  · intro haligned
    have hscaled := encodeMemoryInst_aligned hop haligned h
    rw [encodeMemoryInst_scaled hop hscaled] at h
    cases h
    rw [A64.loadStore_encode]
    refine ⟨_, A64.decodeTransfer_encode _, rfl, rfl, rfl, rfl, fun base => ⟨?_, rfl⟩⟩
    rw [← hscaled.scale, ← two_pow_sizeBits]
    rfl

/-! ### Branches -/

theorem toInt_word_field {k : ℕ} (hk : 0 < k) (hle : k ≤ 64)
    (hlow : -(4 * 2 ^ (k - 1)) ≤ target.toInt) (hhigh : target.toInt < 4 * 2 ^ (k - 1)) :
    4 * ((target.sshiftRight 2).setWidth k).toInt = target.toInt ↔ target.toInt % 4 = 0 := by
  have hshift : (target.sshiftRight 2).toInt = target.toInt / 4 := by
    rw [BitVec.toInt_sshiftRight, Int.shiftRight_eq_div_pow]
    rfl
  have hdiv := Int.mul_ediv_add_emod target.toInt 4
  rw [BitField.toInt_setWidth_of_fits hk hle _ (by omega) (by omega), hshift]
  omega

theorem getConditionCode_ok (hop : opcode ∈ [.b_eq, .b_ne, .b_lt, .b_le, .b_gt, .b_ge]) :
    ∃ cond : BitVec 4, getConditionCode opcode = .ok (cond.setWidth 32) := by
  simp only [List.mem_cons, List.not_mem_nil, or_false] at hop
  rcases hop with rfl | rfl | rfl | rfl | rfl | rfl
  · exact ⟨0b0000#4, rfl⟩
  · exact ⟨0b0001#4, rfl⟩
  · exact ⟨0b1011#4, rfl⟩
  · exact ⟨0b1101#4, rfl⟩
  · exact ⟨0b1100#4, rfl⟩
  · exact ⟨0b1010#4, rfl⟩

theorem encodeBranchInst_b (h : encodeBranchInst .b target = .ok word) :
    word = (Branch.always ((target.sshiftRight 2).setWidth 26)).encode ∧
      -0x2000000 ≤ target.toInt ∧ target.toInt ≤ 0x1FFFFFF := by
  have hmask : target.sshiftRight 2 &&& 0x3FFFFFF#64 =
      ((target.sshiftRight 2).setWidth 26).setWidth 64 := BitField.and_mask _ 26 (by omega)
  simp only [encodeBranchInst, bind, Except.bind, pure, Except.pure, throw, throwThe,
    MonadExceptOf.throw] at h
  split at h
  · cases h
  · simp only [hmask, Except.ok.injEq] at h
    subst h
    refine ⟨?_, by omega⟩
    simp [Branch.encode, A64.Instr.place]

theorem encodeBranchInst_conditional {cond : BitVec 4}
    (hop : opcode ∈ [.b_eq, .b_ne, .b_lt, .b_le, .b_gt, .b_ge])
    (hcond : getConditionCode opcode = .ok (cond.setWidth 32))
    (h : encodeBranchInst opcode target = .ok word) :
    word = (Branch.conditional cond ((target.sshiftRight 2).setWidth 19)).encode ∧
      -0x40000 ≤ target.toInt ∧ target.toInt ≤ 0x3FFFF := by
  have hmask : target.sshiftRight 2 &&& 0x7FFFF#64 =
      ((target.sshiftRight 2).setWidth 19).setWidth 64 := BitField.and_mask _ 19 (by omega)
  simp only [List.mem_cons, List.not_mem_nil, or_false] at hop
  rcases hop with rfl | rfl | rfl | rfl | rfl | rfl
  all_goals
    simp only [encodeBranchInst, bind, Except.bind, pure, Except.pure, throw, throwThe,
      MonadExceptOf.throw, hcond, hmask] at h
    split at h
    · cases h
    split at h
    · cases h
    · cases h
      refine ⟨?_, by omega⟩
      simp [Branch.encode, A64.Instr.place]

theorem displaces_branch_iff (hop : opcode ∈ [.b, .b_eq, .b_ne, .b_lt, .b_le, .b_gt, .b_ge])
    (h : encodeBranchInst opcode target = .ok word) :
    Displaces word (.branch opcode target) ↔ target.toInt % 4 = 0 := by
  have hbranch (b : Branch) (hcode : match b with
      | .always _ => opcode = .b
      | .conditional cond _ => getConditionCode opcode = .ok (cond.setWidth 32)) :
      Displaces b.encode (.branch opcode target) ↔ b.displacement = target.toInt := by
    rw [Displaces, A64.decodeBranch_encode]
    constructor
    · rintro ⟨b', hb', hdisp, -⟩
      cases hb'
      exact hdisp
    · intro hdisp
      exact ⟨b, rfl, hdisp, hcode⟩
  rcases List.mem_cons.mp hop with rfl | hop
  · obtain ⟨rfl, hlow, hhigh⟩ := encodeBranchInst_b h
    rw [hbranch _ rfl]
    exact toInt_word_field (by omega) (by omega) (by omega) (by omega)
  · obtain ⟨cond, hcond⟩ := getConditionCode_ok hop
    obtain ⟨rfl, hlow, hhigh⟩ := encodeBranchInst_conditional hop hcond h
    rw [hbranch _ hcond]
    exact toInt_word_field (by omega) (by omega) (by omega) (by omega)

/-- An accepted displacement is encoded exactly if and only if it is aligned. -/
theorem encodeInstruction_displaces_iff {inst : Instruction} {bytes : List (BitVec 8)}
    (hinst : inst.HasDisplacement) (h : encodeInstruction inst = .ok bytes) :
    (∃ word, fetch bytes = some word ∧ Displaces word inst) ↔ inst.Aligned := by
  obtain ⟨word, hword, hfetch⟩ := encodeInstruction_fetch h
  simp only [hfetch, Option.some.injEq, exists_eq_left']
  cases inst with
  | memory opcode size reg baseReg offset =>
    obtain ⟨hop, ⟨rt, rfl⟩, ⟨rn, rfl⟩⟩ := hinst
    exact displaces_memory_iff hop hword
  | branch opcode target => exact displaces_branch_iff hinst hword
  | _ => exact hinst.elim

theorem encodeInstruction_displaces_iff_str :
    (∃ word, fetch [0x41#8, 0x08#8, 0x00#8, 0xF9#8] = some word ∧
      Displaces word (.memory .str .x (.register (.x 1)) (.register (.x 2)) 16#32)) ↔
      (Instruction.memory .str .x (.register (.x 1)) (.register (.x 2)) 16#32).Aligned := by
  have hinst : (Instruction.memory .str .x (.register (.x 1)) (.register (.x 2))
      16#32).HasDisplacement := ⟨by simp, ⟨1, rfl⟩, ⟨2, rfl⟩⟩
  exact encodeInstruction_displaces_iff hinst rfl

/-- `LDR X1, [X2, #-8]` is encoded as `STR X1, [X2, #-8]!`. -/
theorem encodeInstruction_ldr_negative :
    let ldr := Instruction.memory .ldr .x (.register (.x 1)) (.register (.x 2)) (BitVec.ofInt 32 (-8))
    ∃ bytes word t, encodeInstruction ldr = .ok bytes ∧ fetch bytes = some word ∧
      A64.decodeTransfer word = some t ∧ t.opc = 0#2 ∧ t.preIndexed ∧ ¬ Displaces word ldr := by
  refine ⟨_, _, _, rfl, rfl, rfl, rfl, rfl, ?_⟩
  rintro ⟨t, ht, hopc, -⟩
  cases ht
  cases hopc

end Encoder

end DinoRisc.Arm64
