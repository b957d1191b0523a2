import DinoRisc.Arm64.Run
import DinoRisc.Lowering.InstructionSelector

/-! The code of a constant leaves the constant in its register. -/

namespace DinoRisc.InstructionSelector

open Arm64 IR

variable {target : Operand} {p : Place} {value : BitVec 64}

def low (value : BitVec 64) (k : ℕ) : BitVec 64 := (value.setWidth k).setWidth 64

theorem low_all (value : BitVec 64) : low value 64 = value := by simp [low]

theorem low_getLsbD (value : BitVec 64) (k i : ℕ) :
    (low value k).getLsbD i = (decide (i < k) && value.getLsbD i) := by
  by_cases h : i < 64
  · simp [low, h]
  · simp [low, BitVec.getLsbD_of_ge value i (by omega)]

theorem low_zero_chunk (value : BitVec 64) (k : ℕ) (h : (value >>> k).setWidth 16 = 0#16) :
    low value (k + 16) = low value k := by
  apply BitVec.eq_of_getLsbD_eq
  intro i hi
  rw [low_getLsbD, low_getLsbD]
  by_cases hk : i < k
  · simp [hk, show i < k + 16 by omega]
  by_cases hk' : i < k + 16
  · have hbit := congrArg (fun x => x.getLsbD (i - k)) h
    simp [show i - k < 16 by omega, show k + (i - k) = i by omega] at hbit
    simp [hk, hbit]
  · simp [hk, hk']

theorem low_first_chunk (value : BitVec 64) (k : ℕ) (h : low value k = 0#64) :
    low value (k + 16) = ((value >>> k).setWidth 16).setWidth 64 <<< k := by
  apply BitVec.eq_of_getLsbD_eq
  intro i hi
  have hbit := congrArg (fun x => x.getLsbD i) h
  simp only [low_getLsbD, BitVec.getLsbD_zero] at hbit
  rw [low_getLsbD]
  by_cases hk : i < k
  · simp_all
  by_cases hk' : i < k + 16
  · simp [hi, hk, hk', show i - k < 16 by omega, show i - k < 64 by omega,
      show k + (i - k) = i by omega]
  · simp [hk, hk', show ¬ i - k < 16 by omega]

theorem low_chunk (value : BitVec 64) (k : ℕ) :
    low value (k + 16) = (low value k &&& ~~~(0xFFFF#64 <<< k)) |||
      ((value >>> k).setWidth 16).setWidth 64 <<< k := by
  apply BitVec.eq_of_getLsbD_eq
  intro i hi
  have hmask : (0xFFFF#64).getLsbD (i - k) = decide (i - k < 16) := by
    rw [show (0xFFFF#64) = (BitVec.allOnes 16).setWidth 64 from rfl, BitVec.getLsbD_setWidth,
      BitVec.getLsbD_allOnes]
    simp [show i - k < 64 by omega]
  simp only [BitVec.getLsbD_or, BitVec.getLsbD_and, BitVec.getLsbD_not, BitVec.getLsbD_shiftLeft,
    low_getLsbD, hmask, BitVec.getLsbD_setWidth, BitVec.getLsbD_ushiftRight]
  by_cases hk : i < k
  · simp [hi, hk, show i < k + 16 by omega]
  by_cases hk' : i < k + 16
  · simp [hi, hk, hk', show i - k < 16 by omega, show i - k < 64 by omega,
      show k + (i - k) = i by omega]
  · simp [hk, hk', show ¬ i - k < 16 by omega]

/-- From the low `16 * i` bits on, the remaining `n` chunks complete the constant. -/
theorem selectChunks_reaches (hp : target.place = some p) (n i : ℕ) (hn : i + n = 4)
    (firstChunk : Bool) (m : Machine) (hfirst : firstChunk = true → low value (16 * i) = 0#64)
    (hrest : firstChunk = false → m.reg p = low value (16 * i)) :
    Reaches (selectChunks .x target value firstChunk ((List.range' i n).map (16 * ·))) m
      (m.set p value) := by
  have hread (m : Machine) : m.read target = m.reg p := by
    cases target <;> cases hp <;> rfl
  induction n generalizing i firstChunk m with
  | zero =>
    obtain rfl : i = 4 := by omega
    cases firstChunk with
    | true =>
      have hzero : value = 0#64 := by simpa [low_all] using hfirst rfl
      apply Reaches.single
      rw [exec_movz hp, hzero]
      simp
    | false =>
      have hval : m.reg p = value := by simpa [low_all] using hrest rfl
      rw [← hval, Machine.set_same]
      exact .nil m
  | succ n ih =>
    rw [List.range'_succ, List.map_cons, selectChunks]
    have hshift : (BitVec.ofNat 8 (16 * i)).toNat = 16 * i := by
      rw [BitVec.toNat_ofNat]
      omega
    split
    · have hlow := low_zero_chunk value (16 * i) ‹_›
      apply ih (i + 1) (by omega)
      · intro hf
        rw [Nat.mul_add, Nat.mul_one, hlow, hfirst hf]
      · intro hf
        rw [Nat.mul_add, Nat.mul_one, hlow, hrest hf]
    · let m' := m.set p (low value (16 * (i + 1)))
      have hstep : exec (.moveWide (if firstChunk then .movz else .movk) .x target
          ((value >>> (16 * i)).setWidth 16) (BitVec.ofNat 8 (16 * i))) m = some (.next m') := by
        cases firstChunk with
        | true =>
          rw [if_pos rfl, exec_movz hp, hshift, ← low_first_chunk _ _ (hfirst rfl)]
          rfl
        | false =>
          rw [if_neg (by simp), exec_movk hp, hshift, hread, hrest rfl, ← low_chunk]
          rfl
      have hdone := ih (i + 1) (by omega) false m' (by simp) (by simp [m'])
      rw [Machine.set_set] at hdone
      exact .cons hstep hdone

theorem not_setWidth_not (value : BitVec 64) {w : ℕ} (h : w ≤ 64) :
    ~~~((~~~value).setWidth w) = value.setWidth w := by
  rw [BitVec.setWidth_not h, BitVec.not_not]

theorem selectConstIntoRegister_i64 (hp : target.place = some p) (value : BitVec 64)
    (m : Machine) : Reaches (selectConstIntoRegister .i64 value target) m (m.set p value) := by
  unfold selectConstIntoRegister
  split
  · apply Reaches.single
    have hnot := not_setWidth_not value (le_refl 64)
    rw [BitVec.setWidth_eq] at hnot
    rw [exec_convert hp rfl]
    exact congrArg (fun v => some (Outcome.next (m.set p v)))
      ((congrArg (BitVec.setWidth 64) hnot).trans (BitVec.setWidth_eq value))
  split
  · apply Reaches.single
    rw [exec_convert hp rfl]
    simp [DataSize.result, DataSize.width, irTypeToDataSize, Machine.read]
  · exact selectChunks_reaches hp 4 0 rfl true m (fun _ => by simp [low, BitVec.of_length_zero])
      (by simp)

theorem selectConstIntoRegister_i32 (hp : target.place = some p) (value : BitVec 64)
    (hlow : -65536 ≤ value.toInt) (hhigh : value.toInt < 65536) (m : Machine) :
    Reaches (selectConstIntoRegister .i32 value target) m
      (m.set p ((value.setWidth 32).setWidth 64)) := by
  unfold selectConstIntoRegister
  split
  · apply Reaches.single
    rw [exec_convert hp rfl]
    exact congrArg (fun v => some (Outcome.next (m.set p (BitVec.setWidth 64 v))))
      (not_setWidth_not value (show 32 ≤ 64 by omega))
  · rw [if_pos (by omega)]
    apply Reaches.single
    rw [exec_convert hp rfl]
    simp [DataSize.result, DataSize.width, irTypeToDataSize, Machine.read]

end DinoRisc.InstructionSelector
