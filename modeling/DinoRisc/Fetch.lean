import DinoRisc.BinaryTranslator
import DinoRisc.RiscV.DecoderReject

/-! Which bytes of the text section the decode loop of `executeBlock` reads. -/

namespace DinoRisc.BinaryTranslator

open RiscV

variable {data : List (BitVec 8)} {pc : BitVec 64} {offset count : ℕ}

/-- The loop ends after the instruction at `offset`: it is a control transfer, or the decoder
rejects it. -/
def endsBlock (data : List (BitVec 8)) (offset : ℕ) (pc : BitVec 64) : Bool :=
  match Decoder.decode data offset pc with
  | .ok inst => !inst.isValid || Lifter.isTerminator inst
  | .error _ => true

/-- The offsets at which the loop calls the decoder, in order. -/
def decodeCalls (data : List (BitVec 8)) : List ℕ → BitVec 64 → List ℕ
  | [], _ => []
  | offset :: rest, currentPC =>
    offset :: if endsBlock data offset currentPC then []
      else decodeCalls data rest (currentPC + 4#64)

theorem decode_outside (h : data.length < offset + 4) (pc : BitVec 64) :
    Decoder.decode data offset pc = .error .outOfBounds := by
  have hnone : data[offset + 3]? = none := List.getElem?_eq_none (by omega)
  simp only [Decoder.decode, Decoder.readInstructionFromMemory, Decoder.byteAt, hnone, bind,
    Except.bind]
  cases data[offset]? <;> cases data[offset + 1]? <;> cases data[offset + 2]? <;> rfl

theorem decode_outside_iff (pc : BitVec 64) :
    Decoder.decode data offset pc = .error .outOfBounds ↔ data.length < offset + 4 := by
  refine ⟨fun h => ?_, fun h => decode_outside h pc⟩
  by_contra hinside
  have hbyte (o : ℕ) (ho : o < data.length) : ∃ b, Decoder.byteAt data o = .ok b := by
    rw [Decoder.byteAt, List.getElem?_eq_getElem ho]
    exact ⟨_, rfl⟩
  obtain ⟨b0, h0⟩ := hbyte offset (by omega)
  obtain ⟨b1, h1⟩ := hbyte (offset + 1) (by omega)
  obtain ⟨b2, h2⟩ := hbyte (offset + 2) (by omega)
  obtain ⟨b3, h3⟩ := hbyte (offset + 3) (by omega)
  obtain ⟨raw, hraw⟩ : ∃ raw, Decoder.readInstructionFromMemory data offset = .ok raw := by
    simp only [Decoder.readInstructionFromMemory, h0, h1, h2, h3, bind, Except.bind]
    exact ⟨_, rfl⟩
  simp only [Decoder.decode, hraw, bind, Except.bind] at h
  cases hop : Decoder.determineOpcode (Decoder.extractFields raw) with
  | error e =>
    rw [hop, Decoder.determineOpcode_error hop] at h
    cases h
  | ok op =>
    obtain ⟨operands, hoperands⟩ := Decoder.extractOperands_ok (Decoder.extractFields raw) raw
      (Decoder.determineOpcode_ne_invalid hop)
    simp only [hop, hoperands] at h
    cases h

/-- The loop reads outside of the text section where one of its calls does. -/
theorem decodeBlock_outside_iff {os : List ℕ} : decodeBlock data os pc = .error .outOfBounds ↔
    ∃ o ∈ decodeCalls data os pc, data.length < o + 4 := by
  induction os generalizing pc with
  | nil => simp [decodeBlock, decodeCalls]
  | cons offset rest ih =>
    simp only [decodeCalls, List.mem_cons, exists_eq_or_imp]
    rw [← decode_outside_iff pc]
    cases hdecode : Decoder.decode data offset pc with
    | error e => simp [decodeBlock, endsBlock, hdecode, bind, Except.bind]
    | ok inst =>
      simp only [decodeBlock, endsBlock, hdecode, bind, Except.bind, reduceCtorEq, false_or]
      cases hvalid : inst.isValid with
      | false => simp [throw, throwThe, MonadExceptOf.throw]
      | true =>
        cases hterm : Lifter.isTerminator inst with
        | true => simp [pure, Except.pure]
        | false =>
          simp only [Bool.not_true, Bool.false_or, Bool.false_eq_true, if_false, ← ih]
          cases decodeBlock data rest (pc + 4#64) with
          | error e => simp
          | ok instructions => simp [pure, Except.pure]

def pcAt (pc : BitVec 64) (k : ℕ) : BitVec 64 := pc + BitVec.ofNat 64 (4 * k)

theorem pcAt_succ (pc : BitVec 64) (k : ℕ) : pcAt (pc + 4#64) k = pcAt pc (k + 1) := by
  simp only [pcAt]
  rw [show 4 * (k + 1) = 4 + 4 * k by ring, BitVec.ofNat_add, BitVec.add_assoc]

theorem mem_decodeCalls {o : ℕ} : o ∈ decodeCalls data (List.range' offset count 4) pc ↔
    ∃ k < count, o = offset + 4 * k ∧
      ∀ j < k, endsBlock data (offset + 4 * j) (pcAt pc j) = false := by
  induction count generalizing offset pc with
  | zero => simp [decodeCalls]
  | succ count ih =>
    have hzero : pcAt pc 0 = pc := by simp [pcAt]
    rw [List.range'_succ, decodeCalls, List.mem_cons]
    constructor
    · rintro (rfl | hmem)
      · exact ⟨0, Nat.succ_pos _, rfl, by simp⟩
      · cases hends : endsBlock data offset pc with
        | true => simp [hends] at hmem
        | false =>
          rw [hends, if_neg (by simp), ih] at hmem
          obtain ⟨k, hk, rfl, hrun⟩ := hmem
          refine ⟨k + 1, by omega, by omega, fun j hj => ?_⟩
          cases j with
          | zero => rwa [hzero]
          | succ j =>
            rw [← pcAt_succ, show offset + 4 * (j + 1) = offset + 4 + 4 * j by ring]
            exact hrun j (by omega)
    · rintro ⟨k, hk, rfl, hrun⟩
      cases k with
      | zero => exact .inl rfl
      | succ k =>
        right
        have hends := hrun 0 (Nat.succ_pos k)
        rw [hzero, Nat.mul_zero, Nat.add_zero] at hends
        rw [hends, if_neg (by simp), ih]
        refine ⟨k, by omega, by omega, fun j hj => ?_⟩
        rw [pcAt_succ, show offset + 4 + 4 * j = offset + 4 * (j + 1) by ring]
        exact hrun (j + 1) (by omega)

/-- Every fetch lies inside the text section exactly when whole words lead up to its end, or the
loop ends at a whole word before it. -/
theorem decodeCalls_inside_iff (data : List (BitVec 8)) (base pc : BitVec 64) :
    (∀ o ∈ decodeCalls data (offsets (pc - base).toNat data.length) pc, o + 4 ≤ data.length) ↔
      (data.length - (pc - base).toNat) % 4 = 0 ∨
        ∃ k, (pc - base).toNat + 4 * k + 4 ≤ data.length ∧
          endsBlock data ((pc - base).toNat + 4 * k) (pcAt pc k) = true := by
  generalize (pc - base).toNat = offset
  simp only [offsets, mem_decodeCalls]
  constructor
  · intro hinside
    by_contra! hnot
    obtain ⟨hmod, hnone⟩ := hnot
    -- the loop reaches the partial word at the end
    have hlast := hinside (offset + 4 * ((data.length - offset + 3) / 4 - 1))
      ⟨_, by omega, rfl, fun j hj => by
        have := hnone j (by omega)
        simpa using this⟩
    omega
  · rintro (hmod | ⟨k, hk, hends⟩) o ⟨i, hi, rfl, hrun⟩
    · omega
    · rcases Nat.lt_or_ge k i with hlt | hle
      · rw [hrun k hlt] at hends
        cases hends
      · omega

def idle : BinaryTranslator :=
  ⟨[], 0#64, 0x1000#64, ⟨fun _ => 0#64, 0#64, ⟨false, false, false, false⟩, fun _ => 0#8⟩,
    fun _ => .executable⟩

def halfWord : List (BitVec 8) := [0x13#8, 0x00#8, 0x00#8, 0x00#8, 0x13#8, 0x00#8]

theorem decodeCalls_halfWord :
    (idle.start halfWord 0x1000#64 0x1000#64).isValidPC 0x1000#64 = true ∧
      ∃ o ∈ decodeCalls halfWord (offsets (0x1000#64 - 0x1000#64).toNat halfWord.length) 0x1000#64,
        halfWord.length < o + 4 :=
  ⟨rfl, 4, by decide, by decide⟩

end DinoRisc.BinaryTranslator
