import DinoRisc.Arm64.Exec
import DinoRisc.IR.Typing
import DinoRisc.Lowering.InstructionSelector

/-! The opcode or the condition that the selector takes for an IR operation computes it. -/

namespace DinoRisc.InstructionSelector

open Arm64 IR

variable {opcode : BinaryOpcode} {ty : Ty} {a b v : Value}

theorem evalBinary_eq_arithmetic (hop : opcode.isArithmetic = true)
    (h : evalBinary opcode ty a b = some v) : a.ty = ty ∧ arithmetic opcode ty a b = some v := by
  have hnone : comparison opcode a b = none := by
    cases opcode <;> first
      | rfl
      | cases hop
  simp only [evalBinary, hnone] at h
  split at h
  · exact ⟨And.left ‹_›, h⟩
  · cases h

theorem evalBinary_eq_comparison (hop : opcode.isComparison = true)
    (h : evalBinary opcode ty a b = some v) :
    ∃ c, comparison opcode a b = some c ∧ ofCondition ty c = v := by
  obtain ⟨c, hc⟩ : ∃ c, comparison opcode a b = some c := by
    cases opcode <;> first
      | exact ⟨_, rfl⟩
      | cases hop
  simp only [evalBinary, hc] at h
  split at h <;> cases h
  exact ⟨c, hc, rfl⟩

theorem signed_i64 (h : a.ty = .i64) : a.signed = a.bits := by
  rw [Value.signed, h]
  simp [Ty.width]

theorem subFlags_le (x y : BitVec 64) :
    (!((A64.subFlags x y).n == (A64.subFlags x y).v && !(A64.subFlags x y).z)) = x.sle y := by
  have hlt := A64.subFlags_slt (by omega) x y
  have hz : (A64.subFlags x y).z = decide (x = y) := rfl
  have hle : x.sle y = (x.slt y || decide (x = y)) := by
    rw [BitVec.sle_eq_slt_or_eq]
    rfl
  rw [hle, ← hlt, hz]
  cases (A64.subFlags x y).n <;> cases (A64.subFlags x y).v <;> simp

theorem subFlags_ls (x y : BitVec 64) :
    (!((A64.subFlags x y).c && !(A64.subFlags x y).z)) = x.ule y := by
  have heq : x = y ↔ x.toNat = y.toNat := BitVec.toNat_inj.symm
  simp only [A64.subFlags, BitVec.ule, heq]
  by_cases h : x.toNat ≤ y.toNat <;> by_cases h' : y.toNat ≤ x.toNat <;> simp [h, h'] <;> omega

theorem comparison_holds {c : Bool} (ha : a.ty = .i64) (hb : b.ty = .i64)
    (h : comparison opcode a b = some c) : ∃ condition,
      comparisonCondition opcode = some condition ∧
        condition.holds (A64.subFlags a.bits b.bits) = c := by
  have hlt := A64.subFlags_slt (show 0 < 64 by omega) a.bits b.bits
  have hle := subFlags_le a.bits b.bits
  have hls := subFlags_ls a.bits b.bits
  have hge : b.bits.sle a.bits = !a.bits.slt b.bits := BitVec.sle_eq_not_slt ..
  have hgt : b.bits.slt a.bits = !a.bits.sle b.bits := by
    rw [BitVec.sle_eq_not_slt, Bool.not_not]
  have hult : a.bits.ult b.bits = !b.bits.ule a.bits := by
    rw [BitVec.ule_eq_not_ult, Bool.not_not]
  have hugt : b.bits.ult a.bits = !a.bits.ule b.bits := by
    rw [BitVec.ule_eq_not_ult, Bool.not_not]
  cases opcode <;> simp only [comparison, Option.some.injEq, reduceCtorEq] at h
  all_goals
    subst h
    refine ⟨_, rfl, ?_⟩
    simp only [signed_i64 ha, signed_i64 hb, Condition.holds]
  case eq => rfl
  case ne => simp [A64.subFlags]
  case lt => exact hlt
  case le => exact hle
  case gt => rw [hgt, ← hle, Bool.not_not]
  case ge => rw [hge, ← hlt]; simp [bne]
  case ltU => exact hult.symm
  case leU => exact hls
  case gtU => rw [hugt, ← hls, Bool.not_not]
  case geU => rfl

theorem amount_setWidth (b : BitVec 64) {w : ℕ} (hw : w = 32 ∨ w = 64) :
    (b.setWidth w).toNat % w = b.toNat % w := by
  rw [BitVec.toNat_setWidth]
  rcases hw with rfl | rfl <;> omega

theorem ushiftRight_setWidth {x : BitVec 64} {w : ℕ} (hx : x.toNat < 2 ^ w) (n : ℕ) :
    (x >>> n).setWidth w = x.setWidth w >>> n := by
  have hle : x.toNat >>> n ≤ x.toNat := Nat.shiftRight_le _ _
  apply BitVec.eq_of_toNat_eq
  rw [BitVec.toNat_setWidth, BitVec.toNat_ushiftRight, BitVec.toNat_ushiftRight,
    BitVec.toNat_setWidth, Nat.mod_eq_of_lt hx, Nat.mod_eq_of_lt (by omega)]

theorem sshiftRight_setWidth {w : ℕ} (x : BitVec w) (hw : w ≤ 64) (n : ℕ) :
    ((x.signExtend 64).sshiftRight n).setWidth w = x.sshiftRight n := by
  apply BitVec.eq_of_getLsbD_eq
  intro i hi
  have hi' : i < 64 := by omega
  have hmsb : (x.signExtend 64).msb = x.msb := by
    rw [BitVec.msb_eq_getLsbD_last, BitVec.getLsbD_signExtend, BitVec.msb_eq_getLsbD_last]
    by_cases hw' : w = 64
    · subst hw'
      simp
    · simp [show ¬ 63 < w by omega]
  simp only [BitVec.getLsbD_setWidth, BitVec.getLsbD_sshiftRight, BitVec.getLsbD_signExtend, hmsb,
    hi, not_le.mpr hi, not_le.mpr hi', decide_true, decide_false, Bool.not_false,
    Bool.true_and]
  by_cases hn : n + i < w
  · simp [hn, show n + i < 64 by omega]
  · simp [hn]
    omega

theorem arithmetic_compute {size : DataSize} (hsize : size.width = ty.width)
    (hty : ty = .i32 ∨ ty = .i64) (ha : a.ty = ty) (hop : opcode.isArithmetic = true)
    (hv : arithmetic opcode ty a b = some v) :
    ∃ o r, irBinaryOpToARM64 opcode = .ok o ∧
      o.compute (a.bits.setWidth size.width) (b.bits.setWidth size.width) = some r ∧
      size.result r = v.bits := by
  have hw : size.width = 32 ∨ size.width = 64 := by
    rw [hsize]
    rcases hty with rfl | rfl <;> simp [Ty.width]
  have hfits : a.bits.toNat < 2 ^ size.width := by
    rw [hsize, ← ha]
    exact a.fits
  have hamount : (b.bits.setWidth size.width).toNat % size.width = b.bits.toNat % ty.width := by
    rw [amount_setWidth b.bits hw, hsize]
  have hle : size.width ≤ 64 := by omega
  have hsigned : a.signed = (a.bits.setWidth size.width).signExtend 64 := by
    rw [Value.signed, ha, hsize]
  have hsub : (a.bits - b.bits).setWidth size.width =
      a.bits.setWidth size.width - b.bits.setWidth size.width := by
    rw [BitVec.sub_eq_add_neg, BitVec.setWidth_add _ _ hle, BitVec.setWidth_neg_of_le hle,
      ← BitVec.sub_eq_add_neg]
  have hbits (x : BitVec 64) :
      (Value.ofBits ty x).bits = size.result (x.setWidth size.width) := by
    rw [DataSize.result, hsize, Value.ofBits_bits]
  cases opcode <;> simp only [BinaryOpcode.isArithmetic, Bool.false_eq_true] at hop
  all_goals
    cases hv
    refine ⟨_, _, rfl, rfl, ?_⟩
    rw [hbits]
    congr 1
  case add => exact (BitVec.setWidth_add _ _ hle).symm
  case sub => exact hsub.symm
  case and => exact BitVec.setWidth_and.symm
  case or => exact BitVec.setWidth_or.symm
  case xor => exact BitVec.setWidth_xor.symm
  case shl => rw [hamount, BitVec.setWidth_shiftLeft_of_le hle]
  case shr => rw [hamount, ushiftRight_setWidth hfits]
  case sar => rw [hamount, hsigned, sshiftRight_setWidth _ hle]

end DinoRisc.InstructionSelector
