import Mathlib

/-!
Fields of a machine word: a value placed at a bit offset, the fields that can be read back
from an `or` of placed values, and words compared field by field.
-/

namespace DinoRisc.BitField

variable {n w : ℕ}

theorem extract_place (a : BitVec w) (k : ℕ) (h : k + w ≤ n) :
    (a.setWidth n <<< k).extractLsb' k w = a := by
  ext i hi
  simp only [BitVec.getElem_extractLsb', BitVec.getLsbD_shiftLeft, BitVec.getLsbD_setWidth]
  simp [hi, show k + i < n by omega, show i < n by omega]

theorem extract_place_disjoint (a : BitVec w) (k s l : ℕ) (h : s + l ≤ k ∨ k + w ≤ s) :
    (a.setWidth n <<< k).extractLsb' s l = 0#l := by
  ext i hi
  simp only [BitVec.getElem_extractLsb', BitVec.getLsbD_shiftLeft, BitVec.getLsbD_setWidth]
  rcases h with h | h
  · simp [show s + i < k by omega]
  · simp [show w ≤ s + i - k by omega]

theorem extract_low (a : BitVec w) (h : w ≤ n) : (a.setWidth n).extractLsb' 0 w = a := by
  simpa using extract_place a 0 (n := n) (by omega)

theorem extract_low_disjoint (a : BitVec w) (s l : ℕ) (h : w ≤ s) :
    (a.setWidth n).extractLsb' s l = 0#l := by
  simpa using extract_place_disjoint a 0 s l (n := n) (by omega)

theorem extract_extract (x : BitVec n) (s l t m : ℕ) (h : t + m ≤ l) :
    (x.extractLsb' s l).extractLsb' t m = x.extractLsb' (s + t) m := by
  ext i hi
  simp [show t + i < l by omega, Nat.add_assoc]

theorem extract_all (x : BitVec n) : x.extractLsb' 0 n = x := by
  ext i hi
  simp

theorem extract_append_ext {x y : BitVec n} {s a b : ℕ}
    (hl : x.extractLsb' s a = y.extractLsb' s a)
    (hr : x.extractLsb' (s + a) b = y.extractLsb' (s + a) b) :
    x.extractLsb' s (a + b) = y.extractLsb' s (a + b) := by
  ext i hi
  simp only [BitVec.getElem_extractLsb']
  by_cases hia : i < a
  · have := congrArg (fun z => z.getLsbD i) hl
    simpa [hia] using this
  · have := congrArg (fun z => z.getLsbD (i - a)) hr
    simpa [show i - a < b by omega, show s + a + (i - a) = s + i by omega] using this

theorem and_mask (x : BitVec n) (w : ℕ) (h : w ≤ n) :
    x &&& BitVec.ofNat n (2 ^ w - 1) = (x.extractLsb' 0 w).setWidth n := by
  apply BitVec.eq_of_toNat_eq
  have hp : 2 ^ w ≤ 2 ^ n := Nat.pow_le_pow_right (by omega) h
  have hw : 0 < 2 ^ w := Nat.two_pow_pos w
  have hx : x.toNat % 2 ^ w < 2 ^ n := lt_of_lt_of_le (Nat.mod_lt _ hw) hp
  simp [BitVec.toNat_and, BitVec.toNat_ofNat, Nat.mod_eq_of_lt (show 2 ^ w - 1 < 2 ^ n by omega),
    Nat.and_two_pow_sub_one_eq_mod, Nat.mod_eq_of_lt hx]

theorem shift_and_mask (x : BitVec n) (k w : ℕ) (h : w ≤ n) :
    (x >>> k) &&& BitVec.ofNat n (2 ^ w - 1) = (x.extractLsb' k w).setWidth n := by
  rw [and_mask _ _ h]
  congr 1

theorem signExtend_signExtend (x : BitVec w) {m : ℕ} (hw : w ≤ m) (hm : m ≤ n) :
    (x.signExtend m).signExtend n = x.signExtend n := by
  apply BitVec.eq_of_toInt_eq
  rw [BitVec.toInt_signExtend_of_le hm, BitVec.toInt_signExtend_of_le hw,
    BitVec.toInt_signExtend_of_le (hw.trans hm)]

theorem toInt_setWidth_of_fits {k : ℕ} (hk : 0 < k) (hle : k ≤ n) (x : BitVec n)
    (hlow : -2 ^ (k - 1) ≤ x.toInt) (hhigh : x.toInt < 2 ^ (k - 1)) :
    (x.setWidth k).toInt = x.toInt := by
  have hx : x.setWidth k = BitVec.ofInt k x.toInt := by
    apply BitVec.eq_of_toInt_eq
    rw [BitVec.toInt_ofInt, BitVec.toInt_setWidth, BitVec.toInt_eq_toNat_bmod,
      Int.bmod_bmod_of_dvd]
    exact pow_dvd_pow 2 hle
  rw [hx, BitVec.toInt_ofInt_eq_self hk hlow hhigh]

end DinoRisc.BitField
