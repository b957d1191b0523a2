import DinoRisc.Library.BitField
import DinoRisc.RiscV.Decoder
import DinoRisc.RiscV.Encoding

namespace DinoRisc.RiscV.Decoder

open BitField Encoding

/-! ### Reading the word and its fields -/

/-- The buffer has the four bytes of `w` at `offset`, in memory order. -/
def Holds (data : List (BitVec 8)) (offset : ℕ) (w : BitVec 32) : Prop :=
  littleEndian w <+: data.drop offset

theorem Holds.byteAt {data : List (BitVec 8)} {offset : ℕ} {w : BitVec 32}
    (h : Holds data offset w) (k : ℕ) (hk : k < 4) :
    byteAt data (offset + k) = .ok (w.extractLsb' (8 * k) 8) := by
  obtain ⟨rest, hrest⟩ := h
  have hget : data[offset + k]? = (littleEndian w)[k]? := by
    rw [← List.getElem?_drop, ← hrest, List.getElem?_append_left (by simpa [littleEndian] using hk)]
  have hval : (littleEndian w)[k]? = some (w.extractLsb' (8 * k) 8) := by
    obtain rfl | rfl | rfl | rfl : k = 0 ∨ k = 1 ∨ k = 2 ∨ k = 3 := by omega
    all_goals rfl
  simp [Decoder.byteAt, hget, hval]

theorem bytes_join (w : BitVec 32) :
    (w.extractLsb' 0 8).setWidth 32 ||| (w.extractLsb' 8 8).setWidth 32 <<< 8 |||
      (w.extractLsb' 16 8).setWidth 32 <<< 16 ||| (w.extractLsb' 24 8).setWidth 32 <<< 24 = w := by
  rw [← extract_all w, ← extract_all (_ ||| _)]
  refine extract_append_ext (a := 24) (b := 8) (extract_append_ext (a := 16) (b := 8)
    (extract_append_ext (a := 8) (b := 8) ?_ ?_) ?_) ?_
  all_goals simp (disch := omega) only [Nat.zero_add, BitVec.extractLsb'_or, extract_low,
    extract_low_disjoint, extract_place, extract_place_disjoint, BitVec.zero_or, BitVec.or_zero,
    extract_all]

theorem readInstruction_holds {data : List (BitVec 8)} {offset : ℕ} {w : BitVec 32}
    (h : Holds data offset w) : readInstructionFromMemory data offset = .ok w := by
  have h0 := h.byteAt 0 (by omega)
  have h1 := h.byteAt 1 (by omega)
  have h2 := h.byteAt 2 (by omega)
  have h3 := h.byteAt 3 (by omega)
  simp only [Nat.add_zero] at h0
  simp only [readInstructionFromMemory, h0, h1, h2, h3, bind, Except.bind, pure, Except.pure]
  exact congrArg Except.ok (bytes_join w)

theorem extractFields_eq (raw : BitVec 32) :
    extractFields raw =
      { opcode := (raw.extractLsb' 0 7).setWidth 32
        rd := (raw.extractLsb' 7 5).setWidth 32
        rs1 := (raw.extractLsb' 15 5).setWidth 32
        rs2 := (raw.extractLsb' 20 5).setWidth 32
        funct3 := (raw.extractLsb' 12 3).setWidth 32
        funct7 := (raw.extractLsb' 25 7).setWidth 32 } := by
  have h0 := and_mask raw 7 (by omega)
  have h7 := shift_and_mask raw 7 5 (by omega)
  have h12 := shift_and_mask raw 12 3 (by omega)
  have h15 := shift_and_mask raw 15 5 (by omega)
  have h20 := shift_and_mask raw 20 5 (by omega)
  have h25 := shift_and_mask raw 25 7 (by omega)
  simp only [extractFields]
  exact congr (congr (congr (congr (congr (congrArg _ h0) h7) h15) h20) h12) h25

theorem signExtend_eq {bits : ℕ} (x : BitVec bits) (hpos : 0 < bits) (h : bits ≤ 32) :
    signExtend (x.setWidth 32) bits = x.signExtend 32 := by
  have hsign : (x.setWidth 32 &&& 1#32 <<< (bits - 1) ≠ 0#32) ↔ x.msb = true := by
    rw [BitVec.msb_eq_getLsbD_last]
    constructor
    · intro hne
      by_contra hmsb
      refine hne (BitVec.eq_of_getLsbD_eq fun i hi => ?_)
      simp only [BitVec.getLsbD_and, BitVec.getLsbD_setWidth, BitVec.getLsbD_shiftLeft,
        BitVec.getLsbD_zero, BitVec.getLsbD_one]
      by_cases hb : i = bits - 1
      · subst hb; simp [Bool.eq_false_iff.mpr hmsb]
      · have : ¬ (bits - 1 ≤ i ∧ i - (bits - 1) = 0) := by omega
        grind
    · intro hmsb hz
      have := congrArg (fun z => z.getLsbD (bits - 1)) hz
      simp [hmsb, show bits - 1 < 32 by omega] at this
  unfold signExtend
  by_cases hm : x.msb = true
  · rw [if_pos (hsign.mpr hm)]
    ext i hi
    simp only [BitVec.getElem_or, BitVec.getElem_setWidth, BitVec.getElem_shiftLeft,
      BitVec.getElem_signExtend, BitVec.getElem_allOnes, hm]
    by_cases hib : i < bits
    · simp [hib, BitVec.getLsbD_eq_getElem]
    · simp [hib]
  · rw [if_neg (fun hne => hm (hsign.mp hne)),
      BitVec.signExtend_eq_setWidth_of_msb_false (Bool.eq_false_iff.mpr hm)]

theorem widen_signExtend {bits : ℕ} (x : BitVec bits) (hpos : 0 < bits) (h : bits ≤ 32) :
    widen (signExtend (x.setWidth 32) bits) = x.signExtend 64 := by
  rw [signExtend_eq x hpos h, widen, signExtend_signExtend x h (by omega)]

/-! ### The immediates of the five formats -/

theorem iTypeImmediate_eq (raw : BitVec 32) :
    widen (extractITypeImmediate raw) = (raw.extractLsb' 20 12).signExtend 64 := by
  have hfield := shift_and_mask raw 20 12 (by omega)
  rw [extractITypeImmediate]
  exact (congrArg (fun z => widen (signExtend z 12)) hfield).trans
    (widen_signExtend _ (by omega) (by omega))

theorem uTypeImmediate_eq (raw : BitVec 32) :
    widen (extractUTypeImmediate raw) = (raw.extractLsb' 12 20 ++ 0#12).signExtend 64 := by
  have hmask : extractUTypeImmediate raw = raw.extractLsb' 12 20 ++ 0#12 := by
    apply BitVec.eq_of_getLsbD_eq
    intro i hi
    simp only [extractUTypeImmediate, BitVec.getLsbD_and, BitVec.getLsbD_append,
      BitVec.getLsbD_extractLsb']
    interval_cases i <;> simp
  rw [widen, hmask]

def sPieces (raw : BitVec 32) : BitVec 12 :=
  raw.extractLsb' 25 7 ++ raw.extractLsb' 7 5

def bPieces (raw : BitVec 32) : BitVec 12 :=
  raw.extractLsb' 31 1 ++ raw.extractLsb' 7 1 ++ raw.extractLsb' 25 6 ++ raw.extractLsb' 8 4

def jPieces (raw : BitVec 32) : BitVec 20 :=
  raw.extractLsb' 31 1 ++ raw.extractLsb' 12 8 ++ raw.extractLsb' 20 1 ++ raw.extractLsb' 21 10

theorem sTypeImmediate_eq (raw : BitVec 32) :
    widen (extractSTypeImmediate raw) = (sPieces raw).signExtend 64 := by
  have hjoin : ((raw >>> 25) &&& 0x7F#32) <<< 5 ||| ((raw >>> 7) &&& 0x1F#32) =
      (sPieces raw).setWidth 32 := by
    rw [show (0x7F#32) = BitVec.ofNat 32 (2 ^ 7 - 1) from rfl,
      show (0x1F#32) = BitVec.ofNat 32 (2 ^ 5 - 1) from rfl,
      shift_and_mask raw 25 7 (by omega), shift_and_mask raw 7 5 (by omega)]
    apply BitVec.eq_of_getLsbD_eq
    intro i hi
    simp only [sPieces, BitVec.getLsbD_or, BitVec.getLsbD_shiftLeft, BitVec.getLsbD_setWidth,
      BitVec.getLsbD_append, BitVec.getLsbD_extractLsb']
    interval_cases i <;> simp
  rw [extractSTypeImmediate]
  exact (congrArg (fun z => widen (signExtend z 12)) hjoin).trans
    (widen_signExtend _ (by omega) (by omega))

theorem bTypeImmediate_eq (raw : BitVec 32) :
    widen (extractBTypeImmediate raw) = (bPieces raw ++ 0#1).signExtend 64 := by
  have hjoin : ((raw >>> 31) &&& 0x1#32) <<< 12 ||| ((raw >>> 7) &&& 0x1#32) <<< 11 |||
      ((raw >>> 25) &&& 0x3F#32) <<< 5 ||| ((raw >>> 8) &&& 0xF#32) <<< 1 =
      (bPieces raw ++ 0#1).setWidth 32 := by
    rw [show (0x1#32) = BitVec.ofNat 32 (2 ^ 1 - 1) from rfl,
      show (0x3F#32) = BitVec.ofNat 32 (2 ^ 6 - 1) from rfl,
      show (0xF#32) = BitVec.ofNat 32 (2 ^ 4 - 1) from rfl,
      shift_and_mask raw 31 1 (by omega), shift_and_mask raw 7 1 (by omega),
      shift_and_mask raw 25 6 (by omega), shift_and_mask raw 8 4 (by omega)]
    apply BitVec.eq_of_getLsbD_eq
    intro i hi
    simp only [bPieces, BitVec.getLsbD_or, BitVec.getLsbD_shiftLeft, BitVec.getLsbD_setWidth,
      BitVec.getLsbD_append, BitVec.getLsbD_extractLsb']
    interval_cases i <;> simp
  rw [extractBTypeImmediate]
  exact (congrArg (fun z => widen (signExtend z 13)) hjoin).trans
    (widen_signExtend _ (by omega) (by omega))

theorem jTypeImmediate_eq (raw : BitVec 32) :
    widen (extractJTypeImmediate raw) = (jPieces raw ++ 0#1).signExtend 64 := by
  have hjoin : ((raw >>> 31) &&& 0x1#32) <<< 20 ||| ((raw >>> 12) &&& 0xFF#32) <<< 12 |||
      ((raw >>> 20) &&& 0x1#32) <<< 11 ||| ((raw >>> 21) &&& 0x3FF#32) <<< 1 =
      (jPieces raw ++ 0#1).setWidth 32 := by
    rw [show (0x1#32) = BitVec.ofNat 32 (2 ^ 1 - 1) from rfl,
      show (0xFF#32) = BitVec.ofNat 32 (2 ^ 8 - 1) from rfl,
      show (0x3FF#32) = BitVec.ofNat 32 (2 ^ 10 - 1) from rfl,
      shift_and_mask raw 31 1 (by omega), shift_and_mask raw 12 8 (by omega),
      shift_and_mask raw 20 1 (by omega), shift_and_mask raw 21 10 (by omega)]
    apply BitVec.eq_of_getLsbD_eq
    intro i hi
    simp only [jPieces, BitVec.getLsbD_or, BitVec.getLsbD_shiftLeft, BitVec.getLsbD_setWidth,
      BitVec.getLsbD_append, BitVec.getLsbD_extractLsb']
    interval_cases i <;> simp
  rw [extractJTypeImmediate]
  exact (congrArg (fun z => widen (signExtend z 21)) hjoin).trans
    (widen_signExtend _ (by omega) (by omega))

end DinoRisc.RiscV.Decoder
