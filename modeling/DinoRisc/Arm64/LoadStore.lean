import DinoRisc.Arm64.EncoderCorrect
import DinoRisc.Arm64.Run

/-! The words of loads and stores at a scaled offset. -/

namespace DinoRisc.Arm64.Encoder

open A64 (Instr)
open ByteMemory

variable {size : DataSize} {offset : BitVec 32} {rt rn : Fin 31}

def sizeBits : DataSize → BitVec 2
  | .b => 0#2
  | .h => 1#2
  | .w => 2#2
  | .x => 3#2

theorem sizeField_eq (size : DataSize) : sizeField size = (sizeBits size).setWidth 32 := by
  cases size <;> rfl

theorem two_pow_sizeField (size : DataSize) : 2 ^ (sizeField size).toNat = size.bytes := by
  cases size <;> rfl

theorem two_pow_sizeBits (size : DataSize) : 2 ^ (sizeBits size).toNat = size.bytes := by
  cases size <;> rfl

theorem mod_sizeField (size : DataSize) (offset : BitVec 32) :
    offset.toInt % 2 ^ (sizeField size).toNat = offset.toInt % size.bytes := by
  rw [← two_pow_sizeField, Nat.cast_pow, Nat.cast_ofNat]

/-- Not negative, a multiple of the size, and below 4096 times the size. -/
structure Scaled (size : DataSize) (offset : BitVec 32) : Prop where
  positive : offset.toNat < 2 ^ 31
  aligned : offset.toNat % size.bytes = 0
  bound : offset.toNat / size.bytes < 2 ^ 12

def scaledOffset (size : DataSize) (offset : BitVec 32) : BitVec 12 :=
  BitVec.ofNat 12 (offset.toNat / size.bytes)

theorem Scaled.sshiftRight (h : Scaled size offset) :
    offset.sshiftRight (sizeField size).toNat = (scaledOffset size offset).setWidth 32 := by
  have hmsb : offset.msb = false := BitVec.msb_eq_false_iff_two_mul_lt.mpr (by have := h.positive; omega)
  apply BitVec.eq_of_toNat_eq
  rw [BitVec.sshiftRight_eq_of_msb_false hmsb, BitVec.toNat_ushiftRight, Nat.shiftRight_eq_div_pow,
    two_pow_sizeField, BitVec.toNat_setWidth, scaledOffset, BitVec.toNat_ofNat,
    Nat.mod_eq_of_lt h.bound, Nat.mod_eq_of_lt (h.bound.trans (by decide))]

theorem Scaled.scale (h : Scaled size offset) :
    BitVec.ofNat 64 ((scaledOffset size offset).toNat * size.bytes) = offset.signExtend 64 := by
  have hmsb : offset.msb = false :=
    BitVec.msb_eq_false_iff_two_mul_lt.mpr (by have := h.positive; omega)
  have hmul := Nat.div_mul_cancel (Nat.dvd_of_mod_eq_zero h.aligned)
  apply BitVec.eq_of_toNat_eq
  rw [BitVec.toNat_ofNat, scaledOffset, BitVec.toNat_ofNat, Nat.mod_eq_of_lt h.bound, hmul,
    BitVec.signExtend_eq_setWidth_of_msb_false hmsb, BitVec.toNat_setWidth]

theorem encodeOffset_scaled (name : String) (h : Scaled size offset)
    (rn rt unsignedOffset postIndex : BitVec 32) :
    encodeOffset name (sizeField size) rn rt offset unsignedOffset postIndex =
      .ok ((sizeField size <<< 30) ||| (unsignedOffset <<< 22) |||
        ((scaledOffset size offset).setWidth 32 <<< 10) ||| (rn <<< 5) ||| rt) := by
  have hint : offset.toInt = offset.toNat := by
    rw [BitVec.toInt_eq_toNat_of_lt]
    have := h.positive
    omega
  have hform : 0 ≤ offset.toInt ∧ offset.toInt % 2 ^ (sizeField size).toNat = 0 := by
    have haligned := h.aligned
    rw [mod_sizeField, hint]
    omega
  have hle : (scaledOffset size offset).setWidth 32 ≤ 0xFFF#32 := by
    have := (scaledOffset size offset).isLt
    rw [BitVec.le_def, BitVec.toNat_setWidth, BitVec.toNat_ofNat]
    omega
  rw [encodeOffset, if_pos hform]
  simp only [h.sshiftRight, if_pos hle]

def transferBits : Opcode → BitVec 2
  | .ldr => 1#2
  | _ => 0#2

theorem encodeMemoryInst_scaled {opcode : Opcode} (hop : opcode ∈ [.ldr, .str])
    (h : Scaled size offset) :
    encodeMemoryInst opcode size (.register (.x rt)) (.register (.x rn)) offset =
      .ok (Instr.loadStore (sizeBits size) (transferBits opcode) (scaledOffset size offset)
        (number rn) (number rt)).encode := by
  simp only [List.mem_cons, List.not_mem_nil, or_false] at hop
  rcases hop with rfl | rfl
  all_goals
    simp only [encodeMemoryInst, encodeRegister_general, bind, Except.bind,
      encodeOffset_scaled _ h]
    simp [sizeField_eq, Instr.encode, Instr.place, transferBits, BitVec.or_assoc]

theorem exec_loadStore {opcode : Opcode} (hop : opcode ∈ [.ldr, .str]) (h : Scaled size offset)
    (m : Machine) :
    (exec (.memory opcode size (.register (.x rt)) (.register (.x rn)) offset) m).map Outcome.cpu =
      some (A64.exec (.loadStore (sizeBits size) (transferBits opcode) (scaledOffset size offset)
        (number rn) (number rt)) m.cpu) := by
  have hbytes := two_pow_sizeBits size
  simp only [List.mem_cons, List.not_mem_nil, or_false] at hop
  rcases hop with rfl | rfl
  all_goals
    simp only [A64.exec, cpu_getSP, cpu_get, hbytes, h.scale, transferBits]
  · rw [if_neg (by decide), cpu_set]
    rfl
  · rfl

theorem access_loadStore {opcode : Opcode} (hop : opcode ∈ [.ldr, .str]) (h : Scaled size offset)
    (m : Machine) :
    (Instr.loadStore (sizeBits size) (transferBits opcode) (scaledOffset size offset) (number rn)
      (number rt)).access m.cpu =
      (Instruction.memory opcode size (.register (.x rt)) (.register (.x rn)) offset).transfer m := by
  simp only [Instr.access, Instruction.transfer, two_pow_sizeBits, cpu_getSP, h.scale]
  simp only [List.mem_cons, List.not_mem_nil, or_false] at hop
  rcases hop with rfl | rfl <;> rfl

theorem means_loadStore {opcode : Opcode} (hop : opcode ∈ [.ldr, .str]) (h : Scaled size offset)
    {bytes : List (BitVec 8)}
    (hok : encodeInstruction (.memory opcode size (.register (.x rt)) (.register (.x rn)) offset) =
      .ok bytes) :
    Means bytes (.memory opcode size (.register (.x rt)) (.register (.x rn)) offset) := by
  have hword : encodeWord (.memory opcode size (.register (.x rt)) (.register (.x rn)) offset) =
      .ok _ := encodeMemoryInst_scaled hop h
  obtain ⟨word, hword', hfetch⟩ := encodeInstruction_fetch hok
  cases hword'.symm.trans hword
  rw [means_iff_emit _ hfetch]
  refine ⟨?_, exec_loadStore hop h⟩
  simp only [List.mem_cons, List.not_mem_nil, or_false] at hop
  rcases hop with rfl | rfl <;> rfl

end DinoRisc.Arm64.Encoder
