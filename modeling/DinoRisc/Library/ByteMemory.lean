import Mathlib

/-!
Byte-addressed memory with little-endian accesses of up to eight bytes. Addresses are words of
any width and wrap around.
-/

namespace DinoRisc.ByteMemory

abbrev Memory (w : ℕ) := BitVec w → BitVec 8

variable {w : ℕ}

/-- The `n` bytes from `a` as a number, zero-extended to 64 bits. -/
def load (m : Memory w) (a : BitVec w) : ℕ → BitVec 64
  | 0 => 0#64
  | n + 1 => load m a n ||| (m (a + BitVec.ofNat w n)).setWidth 64 <<< (8 * n)

def store (m : Memory w) (a : BitVec w) (n : ℕ) (v : BitVec 64) : Memory w :=
  fun x => if (x - a).toNat < n then v.extractLsb' (8 * (x - a).toNat) 8 else m x

def InRange (a : BitVec w) (n : ℕ) (x : BitVec w) : Prop := (x - a).toNat < n

instance (a : BitVec w) (n : ℕ) (x : BitVec w) : Decidable (InRange a n x) :=
  inferInstanceAs (Decidable (_ < _))

/-- The `n` bytes from `b` are among the `k` bytes from `a`. -/
def Within (a : BitVec w) (k : ℕ) (b : BitVec w) (n : ℕ) : Prop := (b - a).toNat + n ≤ k

instance (a : BitVec w) (k : ℕ) (b : BitVec w) (n : ℕ) : Decidable (Within a k b n) :=
  inferInstanceAs (Decidable (_ ≤ _))

theorem offset_sub (a : BitVec w) {i : ℕ} (h : i < 2 ^ w) :
    (a + BitVec.ofNat w i - a).toNat = i := by
  rw [BitVec.add_comm, BitVec.add_sub_cancel, BitVec.toNat_ofNat, Nat.mod_eq_of_lt h]

theorem add_offset (a x : BitVec w) : a + BitVec.ofNat w (x - a).toNat = x := by
  rw [BitVec.ofNat_toNat, BitVec.setWidth_eq, BitVec.add_comm, BitVec.sub_add_cancel]

theorem store_inside {m : Memory w} {a x : BitVec w} {n : ℕ} (v : BitVec 64)
    (h : InRange a n x) : store m a n v x = v.extractLsb' (8 * (x - a).toNat) 8 := if_pos h

theorem store_outside {m : Memory w} {a x : BitVec w} {n : ℕ} (v : BitVec 64)
    (h : ¬ InRange a n x) : store m a n v x = m x := if_neg h

theorem load_congr {v : ℕ} {m : Memory w} {m' : Memory v} {a : BitVec w} {a' : BitVec v} {n : ℕ}
    (h : ∀ i < n, m (a + BitVec.ofNat w i) = m' (a' + BitVec.ofNat v i)) :
    load m a n = load m' a' n := by
  induction n with
  | zero => rfl
  | succ n ih => rw [load, load, ih (fun i hi => h i (by omega)), h n (by omega)]

/-- Bit `i` of a load is bit `i % 8` of byte `i / 8`. -/
theorem load_bit (m : Memory w) (a : BitVec w) (n : ℕ) (hn : n ≤ 8) (i : ℕ) :
    (load m a n).getLsbD i =
      (decide (i < 8 * n) && (m (a + BitVec.ofNat w (i / 8))).getLsbD (i % 8)) := by
  induction n with
  | zero => simp [load]
  | succ n ih =>
    rw [load, BitVec.getLsbD_or, ih (by omega), BitVec.getLsbD_shiftLeft, BitVec.getLsbD_setWidth]
    rcases Nat.lt_or_ge i (8 * n) with hlt | hge
    · simp [hlt, show i < 8 * (n + 1) by omega]
    · rcases Nat.lt_or_ge i (8 * (n + 1)) with hlt' | hge'
      · have hdiv : i / 8 = n := by omega
        have hmod : i - 8 * n = i % 8 := by omega
        simp [hlt', show ¬ i < 8 * n by omega, show i < 64 by omega, hdiv, hmod,
          show i % 8 < 64 by omega]
      · have hbyte : (m (a + BitVec.ofNat w n)).getLsbD (i - 8 * n) = false :=
          BitVec.getLsbD_of_ge _ _ (by omega)
        simp [show ¬ i < 8 * n by omega, show ¬ i < 8 * (n + 1) by omega, hbyte]

theorem load_setWidth (m : Memory w) (a : BitVec w) {n : ℕ} (hn : n ≤ 8) :
    ((load m a n).setWidth (8 * n)).setWidth 64 = load m a n := by
  apply BitVec.eq_of_getLsbD_eq
  intro i hi
  simp only [BitVec.getLsbD_setWidth, load_bit m a n hn]
  by_cases h : i < 8 * n <;> simp [h, hi]

theorem load_store_same (m : Memory w) (a : BitVec w) (v : BitVec 64) {n : ℕ} (hn : n ≤ 8)
    (hw : 8 ≤ 2 ^ w) : load (store m a n v) a n = (v.setWidth (8 * n)).setWidth 64 := by
  apply BitVec.eq_of_getLsbD_eq
  intro i hi
  rw [load_bit _ _ _ hn]
  simp only [BitVec.getLsbD_setWidth]
  by_cases h : i < 8 * n
  · have hoff := offset_sub a (show i / 8 < 2 ^ w by omega)
    have hin : InRange a n (a + BitVec.ofNat w (i / 8)) := by rw [InRange, hoff]; omega
    rw [store_inside v hin, hoff]
    simp [h, hi, Nat.mod_lt, show 8 * (i / 8) + i % 8 = i by omega]
  · simp [h]

theorem store_setWidth (m : Memory w) (a : BitVec w) (n : ℕ) (v : BitVec 64) :
    store m a n ((v.setWidth (8 * n)).setWidth 64) = store m a n v := by
  funext x
  by_cases h : InRange a n x
  · rw [store_inside _ h, store_inside _ h]
    rw [InRange] at h
    generalize (x - a).toNat = k at h
    apply BitVec.eq_of_getLsbD_eq
    intro i hi
    by_cases h64 : 8 * k + i < 64
    · simp [h64, hi, show 8 * k + i < 8 * n by omega]
    · simp [h64, BitVec.getLsbD_of_ge v _ (Nat.le_of_not_lt h64)]
  · rw [store_outside _ h, store_outside _ h]

theorem load_store_disjoint (m : Memory w) (a b : BitVec w) (v : BitVec 64) {n k : ℕ}
    (h : ∀ i < n, ¬ InRange b k (a + BitVec.ofNat w i)) :
    load (store m b k v) a n = load m a n :=
  load_congr fun i hi => store_outside v (h i hi)

theorem store_comm {m : Memory w} {a b : BitVec w} {k l : ℕ}
    (h : ∀ x, ¬ (InRange a k x ∧ InRange b l x)) (u v : BitVec 64) :
    store (store m a k u) b l v = store (store m b l v) a k u := by
  funext x
  by_cases ha : InRange a k x
  · have hb : ¬ InRange b l x := fun hb => h x ⟨ha, hb⟩
    rw [store_outside v hb, store_inside u ha, store_inside u ha]
  · by_cases hb : InRange b l x
    · rw [store_inside v hb, store_outside u ha, store_inside v hb]
    · rw [store_outside v hb, store_outside u ha, store_outside u ha, store_outside v hb]

end DinoRisc.ByteMemory
