import DinoRisc.IR.Typing

/-! Narrow values in wide registers: what a comparison of the whole registers says of the values. -/

namespace DinoRisc.IR

variable {opcode : BinaryOpcode}

namespace BinaryOpcode

def isSigned : BinaryOpcode → Bool
  | lt | le | gt | ge => true
  | _ => false

def relates (a b : ℤ) : BinaryOpcode → Bool
  | eq => a = b
  | ne => a ≠ b
  | lt | ltU => a < b
  | le | leU => a ≤ b
  | gt | gtU => b < a
  | ge | geU => b ≤ a
  | _ => false

def read {w : ℕ} (opcode : BinaryOpcode) (x : BitVec w) : ℤ :=
  if opcode.isSigned then x.toInt else x.toNat

/-- The number of the value of type `ty` in a register. -/
def number (opcode : BinaryOpcode) (ty : Ty) (x : BitVec 64) : ℤ := opcode.read (x.setWidth ty.width)

/-- How much a register exceeds its value, in units of `2 ^ ty.width`. -/
def excess (opcode : BinaryOpcode) (ty : Ty) (x : BitVec 64) : ℤ :=
  (opcode.read x - opcode.number ty x) / 2 ^ ty.width

/-- Numbers that differ by less than `n` only matter where their multiples of `n` are equal. -/
theorem relates_iff {n A B D E : ℤ} (hlow : -n < A - B) (hhigh : A - B < n)
    (opcode : BinaryOpcode) :
    opcode.relates (A + n * D) (B + n * E) = opcode.relates A B ↔
      D = E ∨ opcode.relates D E = opcode.relates A B := by
  rcases lt_trichotomy D E with h | rfl | h
  · have hmul : n * (D + 1) ≤ n * E := Int.mul_le_mul_of_nonneg_left (by omega) (by omega)
    rw [Int.mul_add, Int.mul_one] at hmul
    have hlt : A + n * D < B + n * E := by omega
    cases opcode <;> simp [relates, h.ne, h, h.le, hlt, hlt.ne, hlt.le, h.not_gt, h.not_ge,
      hlt.not_gt, hlt.not_ge]
  · cases opcode <;> simp [relates]
  · have hmul : n * (E + 1) ≤ n * D := Int.mul_le_mul_of_nonneg_left (by omega) (by omega)
    rw [Int.mul_add, Int.mul_one] at hmul
    have hlt : B + n * E < A + n * D := by omega
    cases opcode <;> simp [relates, h.ne', h, h.le, hlt, hlt.ne', hlt.le, h.not_gt, h.not_ge,
      hlt.not_gt, hlt.not_ge]

theorem read_eq (opcode : BinaryOpcode) (ty : Ty) (x : BitVec 64) :
    opcode.read x = opcode.number ty x + 2 ^ ty.width * opcode.excess ty x := by
  have hdvd : (2 ^ ty.width : ℤ) ∣ opcode.read x - opcode.number ty x := by
    have hcast : (2 ^ ty.width : ℤ) = (2 ^ ty.width : ℕ) := by push_cast; rfl
    rw [hcast, number, read, read]
    split
    · rw [BitVec.toInt_setWidth, ← Int.bmod_bmod_of_dvd (pow_dvd_pow 2 ty.width_le),
        ← BitVec.toInt_eq_toNat_bmod]
      exact Int.dvd_self_sub_bmod
    · rw [BitVec.toNat_setWidth, Int.natCast_mod]
      exact Int.dvd_self_sub_emod
  rw [excess, Int.mul_ediv_cancel' hdvd]
  omega

theorem number_close (opcode : BinaryOpcode) (ty : Ty) (x y : BitVec 64) :
    -2 ^ ty.width < opcode.number ty x - opcode.number ty y ∧
      opcode.number ty x - opcode.number ty y < 2 ^ ty.width := by
  rw [number, number, read, read]
  split
  · have hpow : (2 : ℤ) ^ ty.width = 2 * 2 ^ (ty.width - 1) := by
      rw [← pow_succ']
      cases ty <;> rfl
    have hx := BitVec.le_toInt (x.setWidth ty.width)
    have hx' := BitVec.toInt_lt (x := x.setWidth ty.width)
    have hy := BitVec.le_toInt (y.setWidth ty.width)
    have hy' := BitVec.toInt_lt (x := y.setWidth ty.width)
    omega
  · have hcast : ((2 ^ ty.width : ℕ) : ℤ) = 2 ^ ty.width := by push_cast; rfl
    have hx := (x.setWidth ty.width).isLt
    have hy := (y.setWidth ty.width).isLt
    omega

end BinaryOpcode

theorem comparison_ofBits (opcode : BinaryOpcode) (ty : Ty) (x y : BitVec 64) :
    comparison opcode (.ofBits ty x) (.ofBits ty y) =
      if opcode.isComparison then some (opcode.relates (opcode.number ty x) (opcode.number ty y))
      else none := by
  have hle := ty.width_le
  have hbits (z : BitVec 64) : (Value.ofBits ty z).bits.toNat = (z.setWidth ty.width).toNat := by
    have hlt := (z.setWidth ty.width).isLt
    have hpow : 2 ^ ty.width ≤ 2 ^ 64 := Nat.pow_le_pow_right (by omega) hle
    rw [Value.ofBits_bits, BitVec.toNat_setWidth, Nat.mod_eq_of_lt (by omega)]
  have hsigned (z : BitVec 64) : (Value.ofBits ty z).signed.toInt = (z.setWidth ty.width).toInt := by
    rw [Value.signed, Value.ofBits_bits, Value.ofBits_ty, BitVec.setWidth_setWidth (by omega),
      BitVec.setWidth_eq, BitVec.toInt_signExtend_of_le hle]
  have heq : (Value.ofBits ty x).bits = (Value.ofBits ty y).bits ↔
      (x.setWidth ty.width).toNat = (y.setWidth ty.width).toNat := by
    rw [BitVec.toNat_eq, hbits, hbits]
  simp only [BinaryOpcode.number]
  cases opcode <;> simp only [comparison, BinaryOpcode.isComparison, BinaryOpcode.relates,
    BinaryOpcode.read, BinaryOpcode.isSigned, BitVec.slt, BitVec.sle, BitVec.ult, BitVec.ule, heq,
    hsigned, hbits, ne_eq, if_true, if_false, Bool.false_eq_true, Nat.cast_inj, Nat.cast_lt,
    Nat.cast_le]

theorem comparison_wide_iff (hop : opcode.isComparison = true) (ty : Ty) (x y : BitVec 64) :
    comparison opcode (.ofBits .i64 x) (.ofBits .i64 y) =
        comparison opcode (.ofBits ty x) (.ofBits ty y) ↔
      opcode.excess ty x = opcode.excess ty y ∨
        opcode.relates (opcode.excess ty x) (opcode.excess ty y) =
          opcode.relates (opcode.number ty x) (opcode.number ty y) := by
  have hclose := opcode.number_close ty x y
  have hwide (z : BitVec 64) : opcode.number .i64 z = opcode.read z := by
    rw [BinaryOpcode.number, Ty.width, BitVec.setWidth_eq]
  rw [comparison_ofBits, comparison_ofBits, if_pos hop, if_pos hop, Option.some.injEq, hwide, hwide,
    opcode.read_eq ty x, opcode.read_eq ty y]
  exact BinaryOpcode.relates_iff hclose.1 hclose.2 opcode

end DinoRisc.IR
