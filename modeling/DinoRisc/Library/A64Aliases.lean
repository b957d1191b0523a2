import DinoRisc.Library.A64

/-!
What the operations of the architecture compute in the forms that have a name of their own:
subtraction and its flags, the shifts and extensions made of a bitfield move, and the conditions.
-/

namespace DinoRisc.A64

variable {w : ℕ}

theorem addWithCarry_false (x y : BitVec w) : (addWithCarry x y false).1 = x + y := by
  apply BitVec.eq_of_toNat_eq
  simp [addWithCarry]

theorem toNat_add_not (x y : BitVec w) :
    x.toNat + (~~~y).toNat + 1 = 2 ^ w + x.toNat - y.toNat := by
  have hy := y.isLt
  rw [BitVec.toNat_not]
  omega

theorem ofNat_add_not (x y : BitVec w) :
    BitVec.ofNat w (x.toNat + (~~~y).toNat + 1) = x - y := by
  apply BitVec.eq_of_toNat_eq
  have hy := y.isLt
  rw [toNat_add_not, BitVec.toNat_ofNat, BitVec.toNat_sub]
  congr 1
  omega

/-- The flags of the subtraction `x - y`. -/
def subFlags (x y : BitVec w) : Flags where
  n := (x - y).msb
  z := x = y
  c := y.toNat ≤ x.toNat
  v := (x - y).toInt ≠ x.toInt - y.toInt

theorem toInt_not (h : 0 < w) (y : BitVec w) : (~~~y).toInt = -y.toInt - 1 := by
  have hp : 2 ^ w = 2 * 2 ^ (w - 1) := by
    rw [← pow_succ', show w - 1 + 1 = w by omega]
  have hy := y.isLt
  rw [BitVec.toInt_eq_toNat_cond, BitVec.toInt_eq_toNat_cond, BitVec.toNat_not]
  split <;> split <;> omega

theorem addWithCarry_not (h : 0 < w) (x y : BitVec w) :
    addWithCarry x (~~~y) true = (x - y, subFlags x y) := by
  have hx := x.isLt
  have hy := y.isLt
  have hzero : (x - y = 0#w) ↔ x = y := sub_eq_zero
  have hcarry : (x - y).toNat ≠ x.toNat + (~~~y).toNat + 1 ↔ y.toNat ≤ x.toNat := by
    rw [toNat_add_not, BitVec.toNat_sub]
    by_cases hle : y.toNat ≤ x.toNat
    · have hlt := Nat.mod_lt (2 ^ w - y.toNat + x.toNat) (Nat.two_pow_pos w)
      simp only [hle, iff_true]
      omega
    · rw [Nat.mod_eq_of_lt (by omega)]
      simp only [hle, iff_false]
      omega
  have hoverflow : x.toInt + (~~~y).toInt + 1 = x.toInt - y.toInt := by
    rw [toInt_not h]
    ring
  simp only [addWithCarry, Bool.toNat_true, ofNat_add_not, subFlags, hzero, hcarry, Nat.cast_one,
    hoverflow]

theorem addSub_add (x y : BitVec w) : (addSub 0#1 x y).1 = x + y := addWithCarry_false x y

theorem addSub_sub (h : 0 < w) (x y : BitVec w) : addSub 1#1 x y = (x - y, subFlags x y) :=
  addWithCarry_not h x y

theorem bmod_of_overflow {n : ℕ} {x : ℤ} (hlow : -(2 * n : ℤ) ≤ x) (hhigh : x < 2 * n) :
    x.bmod (2 * n) = if x < -n then x + 2 * n else if x < n then x else x - 2 * n := by
  split_ifs with h1 h2
  · rw [← Int.add_bmod_right]
    exact Int.bmod_eq_of_le_mul_two (by push_cast; omega) (by push_cast; omega)
  · exact Int.bmod_eq_of_le_mul_two (by push_cast; omega) (by push_cast; omega)
  · rw [← Int.sub_bmod_right]
    exact Int.bmod_eq_of_le_mul_two (by push_cast; omega) (by push_cast; omega)

/-- A signed comparison reads the sign of the difference, unless the subtraction overflows. -/
theorem subFlags_slt (h : 0 < w) (x y : BitVec w) :
    ((subFlags x y).n != (subFlags x y).v) = x.slt y := by
  have hp : 2 ^ w = 2 * 2 ^ (w - 1) := by
    rw [← pow_succ', show w - 1 + 1 = w by omega]
  have hpos : (0 : ℤ) < 2 ^ (w - 1) := by positivity
  have hxl := BitVec.le_toInt x
  have hxu := BitVec.toInt_lt (x := x)
  have hyl := BitVec.le_toInt y
  have hyu := BitVec.toInt_lt (x := y)
  have hxy := bmod_of_overflow (n := 2 ^ (w - 1)) (x := x.toInt - y.toInt)
    (by push_cast; omega) (by push_cast; omega)
  rw [← hp, ← BitVec.toInt_sub] at hxy
  push_cast at hxy
  simp only [subFlags, BitVec.msb_eq_toInt, BitVec.slt, hxy]
  split_ifs <;> grind

/-! ### Bitfield moves -/

theorem setWidth_shiftRight_setWidth (x : BitVec w) (k : ℕ) :
    ((x >>> k).setWidth (w - k)).setWidth w = x >>> k := by
  apply BitVec.eq_of_getLsbD_eq
  intro i hi
  simp only [BitVec.getLsbD_setWidth, BitVec.getLsbD_ushiftRight]
  by_cases hk : i < w - k
  · simp [hi, hk]
  · simp [show w ≤ k + i by omega]

theorem signExtend_shiftRight_setWidth (x : BitVec w) (k : ℕ) (h : k < w) :
    ((x >>> k).setWidth (w - k)).signExtend w = x.sshiftRight k := by
  apply BitVec.eq_of_getLsbD_eq
  intro i hi
  rw [BitVec.getLsbD_signExtend, BitVec.getLsbD_sshiftRight, BitVec.msb_eq_getLsbD_last,
    BitVec.msb_eq_getLsbD_last]
  simp only [BitVec.getLsbD_setWidth, BitVec.getLsbD_ushiftRight]
  by_cases hk : i < w - k
  · simp [hi, hk, show k + i < w by omega, show ¬ w ≤ i by omega]
  · simp [hi, hk, show ¬ k + i < w by omega, show ¬ w ≤ i by omega,
      show k + (w - k - 1) = w - 1 by omega, show w - k - 1 < w - k by omega]

theorem setWidth_setWidth_shiftLeft (x : BitVec w) (k : ℕ) :
    (x.setWidth (w - k)).setWidth w <<< k = x <<< k := by
  apply BitVec.eq_of_getLsbD_eq
  intro i hi
  simp only [BitVec.getLsbD_shiftLeft, BitVec.getLsbD_setWidth]
  by_cases hk : i < k
  · simp [hk]
  · simp [hi, hk, show i - k < w by omega, show i - k < w - k by omega]

theorem bitfieldMove_down (immr imms : ℕ) (h : immr ≤ imms) (old x : BitVec w) :
    bitfieldMove 2#2 immr imms old x = ((x >>> immr).setWidth (imms - immr + 1)).setWidth w := by
  unfold bitfieldMove
  rw [if_pos h]
  exact BitVec.shiftLeft_zero _

theorem bitfieldMove_down_signed (immr imms : ℕ) (h : immr ≤ imms) (old x : BitVec w) :
    bitfieldMove 0#2 immr imms old x = ((x >>> immr).setWidth (imms - immr + 1)).signExtend w := by
  unfold bitfieldMove
  rw [if_pos h]
  exact BitVec.shiftLeft_zero _

theorem bitfieldMove_up (immr imms : ℕ) (h : imms < immr) (old x : BitVec w) :
    bitfieldMove 2#2 immr imms old x = (x.setWidth (imms + 1)).setWidth w <<< (w - immr) := by
  unfold bitfieldMove
  rw [if_neg (by omega)]
  rfl

theorem bitfieldMove_shiftLeft (k : ℕ) (h : k < w) (old x : BitVec w) :
    bitfieldMove 2#2 ((w - k) % w) (w - 1 - k) old x = x <<< k := by
  by_cases hk : k = 0
  · subst hk
    rw [Nat.sub_zero, Nat.mod_self, bitfieldMove_down _ _ (by omega),
      show w - 1 - 0 - 0 + 1 = w by omega]
    simp
  · rw [Nat.mod_eq_of_lt (by omega), bitfieldMove_up _ _ (by omega),
      show w - 1 - k + 1 = w - k by omega, show w - (w - k) = k by omega]
    exact setWidth_setWidth_shiftLeft x k

theorem bitfieldMove_shiftRight (k : ℕ) (h : k < w) (old x : BitVec w) :
    bitfieldMove 2#2 k (w - 1) old x = x >>> k := by
  rw [bitfieldMove_down _ _ (by omega), show w - 1 - k + 1 = w - k by omega]
  exact setWidth_shiftRight_setWidth x k

theorem bitfieldMove_sshiftRight (k : ℕ) (h : k < w) (old x : BitVec w) :
    bitfieldMove 0#2 k (w - 1) old x = x.sshiftRight k := by
  rw [bitfieldMove_down_signed _ _ (by omega), show w - 1 - k + 1 = w - k by omega]
  exact signExtend_shiftRight_setWidth x k h

theorem bitfieldMove_signExtend (k : ℕ) (old x : BitVec w) :
    bitfieldMove 0#2 0 k old x = (x.setWidth (k + 1)).signExtend w := by
  rw [bitfieldMove_down_signed _ _ (by omega), BitVec.ushiftRight_zero, Nat.sub_zero]

end DinoRisc.A64
