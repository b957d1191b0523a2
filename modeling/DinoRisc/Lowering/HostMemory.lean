import DinoRisc.GuestState
import DinoRisc.IR.Eval
import DinoRisc.Lowering.InstructionSelector

/-!
Where translated code finds the guest: a `GuestState` and its shadow memory in the memory of the
host, at places that do not overlap.
-/

namespace DinoRisc

open ByteMemory InstructionSelector

structure Layout where
  state : BitVec 64
  shadowMemory : BitVec 64
  shadowMemorySize : ℕ
  guestMemoryBase : BitVec 64
  disjoint : ∀ x, InRange state GUEST_STATE_SIZE x → ¬ InRange shadowMemory shadowMemorySize x

namespace Layout

variable (L : Layout)

def field (offset : ℕ) : BitVec 64 := L.state + BitVec.ofNat 64 offset

def host (a : BitVec 64) : BitVec 64 := a - L.guestMemoryBase + L.shadowMemory

def hostAccess (access : BitVec 64 × ℕ) : BitVec 64 × ℕ := (L.host access.1, access.2)

/-- The access lies in the shadow memory. -/
def valid : IR.Valid := fun a n => (a - L.guestMemoryBase).toNat + n ≤ L.shadowMemorySize

/-- Not a byte of the guest's registers or of the shadow memory. -/
def Outside (x : BitVec 64) : Prop :=
  ¬ InRange L.state 256 x ∧ ¬ InRange L.shadowMemory L.shadowMemorySize x

variable {L}

theorem host_sub (a b : BitVec 64) : L.host a - L.host b = a - b := by
  simp only [host]
  ring

theorem host_add (a : BitVec 64) (i : ℕ) :
    L.host a + BitVec.ofNat 64 i = L.host (a + BitVec.ofNat 64 i) := by
  simp only [host]
  ring

theorem host_inRange (a : BitVec 64) : InRange L.shadowMemory L.shadowMemorySize (L.host a) ↔
    (a - L.guestMemoryBase).toNat < L.shadowMemorySize := by
  rw [InRange, host, BitVec.add_sub_cancel]

theorem valid_inRange {a : BitVec 64} {n i : ℕ} (h : L.valid a n) (hi : i < n) :
    (a + BitVec.ofNat 64 i - L.guestMemoryBase).toNat < L.shadowMemorySize := by
  have hle : (a - L.guestMemoryBase).toNat + n ≤ L.shadowMemorySize := by
    simpa [valid] using h
  have heq : a + BitVec.ofNat 64 i - L.guestMemoryBase =
      a - L.guestMemoryBase + BitVec.ofNat 64 i := by ring
  rw [heq, BitVec.toNat_add, BitVec.toNat_ofNat]
  refine lt_of_le_of_lt (Nat.mod_le _ _) ?_
  have := Nat.mod_le i (2 ^ 64)
  omega

theorem valid_store_inRange {a x : BitVec 64} {n : ℕ} (h : L.valid a n)
    (hx : InRange (L.host a) n x) : InRange L.shadowMemory L.shadowMemorySize x := by
  have hin := valid_inRange h hx
  rw [InRange] at hx ⊢
  have heq : L.host a + BitVec.ofNat 64 (x - L.host a).toNat = x := add_offset _ _
  rw [← heq, host_add]
  exact (host_inRange _).mpr hin

theorem field_add (o i : ℕ) : L.field o + BitVec.ofNat 64 i = L.field (o + i) := by
  rw [field, field, BitVec.ofNat_add, BitVec.add_assoc]

theorem field_sub {o o' : ℕ} (h : o ≤ o') : L.field o' - L.field o = BitVec.ofNat 64 (o' - o) := by
  have heq : BitVec.ofNat 64 o' = BitVec.ofNat 64 (o' - o) + BitVec.ofNat 64 o := by
    rw [← BitVec.ofNat_add, Nat.sub_add_cancel h]
  rw [field, field, heq]
  ring

theorem field_disjoint {o n o' n' : ℕ} (ho : o + n ≤ GUEST_STATE_SIZE)
    (ho' : o' + n' ≤ GUEST_STATE_SIZE) (h : o + n ≤ o' ∨ o' + n' ≤ o) {i : ℕ} (hi : i < n') :
    ¬ InRange (L.field o) n (L.field o' + BitVec.ofNat 64 i) := by
  rw [GUEST_STATE_SIZE] at ho ho'
  rw [InRange, field_add]
  rcases Nat.lt_or_ge (o' + i) o with hlt | hle
  · rw [← neg_sub, field_sub hlt.le, BitVec.toNat_neg, BitVec.toNat_ofNat]
    omega
  · rw [field_sub hle, BitVec.toNat_ofNat]
    omega

theorem field_inRange {o n : ℕ} (ho : o < n) (hn : n ≤ GUEST_STATE_SIZE) :
    InRange L.state n (L.field o) := by
  rw [GUEST_STATE_SIZE] at hn
  have hstate : L.state = L.field 0 := by simp [field]
  rw [InRange, hstate, field_sub (Nat.zero_le o), BitVec.toNat_ofNat]
  omega

theorem inRange_field {o n k : ℕ} {x : BitVec 64} (ho : o + n ≤ k) (hk : k ≤ GUEST_STATE_SIZE)
    (hx : InRange (L.field o) n x) : InRange L.state k x := by
  rw [InRange] at hx
  have heq := add_offset (L.field o) x
  rw [field_add] at heq
  rw [← heq]
  exact field_inRange (by omega) hk

end Layout

/-- The guest's registers and memory are where the layout says. -/
structure Represents (L : Layout) (mem : Memory 64) (g : Guest) : Prop where
  x : ∀ r < 32, load mem (L.field (r * REGISTER_SIZE_BYTES)) 8 = g.x r
  guestMemoryBase : load mem (L.field GUEST_MEMORY_BASE_OFFSET) 8 = L.guestMemoryBase
  shadowMemory : load mem (L.field SHADOW_MEMORY_OFFSET) 8 = L.shadowMemory
  mem : ∀ a, (a - L.guestMemoryBase).toNat < L.shadowMemorySize → mem (L.host a) = g.mem a

namespace Represents

variable {L : Layout} {mem : Memory 64} {g : Guest}

theorem load_host (h : Represents L mem g) {a : BitVec 64} {n : ℕ} (hv : L.valid a n) :
    load mem (L.host a) n = load g.mem a n := by
  apply load_congr
  intro i hi
  rw [Layout.host_add]
  exact h.mem _ (Layout.valid_inRange hv hi)

theorem store_host (h : Represents L mem g) {a : BitVec 64} {n : ℕ} (hv : L.valid a n)
    (v : BitVec 64) :
    Represents L (store mem (L.host a) n v) { g with mem := store g.mem a n v } := by
  have hfield {o : ℕ} (ho : o + 8 ≤ GUEST_STATE_SIZE) :
      load (store mem (L.host a) n v) (L.field o) 8 = load mem (L.field o) 8 := by
    apply load_store_disjoint
    intro i hi hin
    have hstate : InRange L.state GUEST_STATE_SIZE (L.field o + BitVec.ofNat 64 i) := by
      rw [Layout.field_add]
      exact Layout.field_inRange (by omega) (le_refl _)
    exact L.disjoint _ hstate (Layout.valid_store_inRange hv hin)
  constructor
  · intro r hr
    rw [hfield (by simp only [REGISTER_SIZE_BYTES, GUEST_STATE_SIZE]; omega)]
    exact h.x r hr
  · rw [hfield (by decide)]
    exact h.guestMemoryBase
  · rw [hfield (by decide)]
    exact h.shadowMemory
  · intro b hb
    have hiff : InRange (L.host a) n (L.host b) ↔ InRange a n b := by
      rw [InRange, InRange, Layout.host_sub]
    by_cases hin : InRange a n b
    · rw [store_inside v (hiff.mpr hin), Layout.host_sub]
      exact (store_inside v hin).symm
    · rw [store_outside v (fun hc => hin (hiff.mp hc)), h.mem b hb]
      exact (store_outside v hin).symm

theorem store_register (h : Represents L mem g) {r : ℕ} (hr : r < 32) (v : BitVec 64) :
    Represents L (store mem (L.field (r * REGISTER_SIZE_BYTES)) 8 v)
      { g with x := Function.update g.x r v } := by
  have hother {o : ℕ} (ho : o + 8 ≤ GUEST_STATE_SIZE)
      (hne : r * 8 + 8 ≤ o ∨ o + 8 ≤ r * 8) :
      load (store mem (L.field (r * 8)) 8 v) (L.field o) 8 = load mem (L.field o) 8 := by
    apply load_store_disjoint
    intro i hi
    exact Layout.field_disjoint (by simp only [GUEST_STATE_SIZE]; omega) ho hne hi
  constructor
  · intro k hk
    by_cases hkr : k = r
    · subst hkr
      simp [load_store_same]
    · rw [REGISTER_SIZE_BYTES, hother (by simp only [GUEST_STATE_SIZE]; omega) (by omega)]
      exact (h.x k hk).trans (Function.update_of_ne hkr ..).symm
  · rw [REGISTER_SIZE_BYTES, hother (by decide) (by simp only [GUEST_MEMORY_BASE_OFFSET]; omega)]
    exact h.guestMemoryBase
  · rw [REGISTER_SIZE_BYTES, hother (by decide) (by simp only [SHADOW_MEMORY_OFFSET]; omega)]
    exact h.shadowMemory
  · intro b hb
    rw [store_outside, h.mem b hb]
    intro hin
    have hstate := Layout.inRange_field (k := GUEST_STATE_SIZE)
      (by simp only [REGISTER_SIZE_BYTES, GUEST_STATE_SIZE]; omega) (le_refl _) hin
    exact L.disjoint _ hstate ((Layout.host_inRange b).mpr hb)

end Represents

/-! ### A memory for each guest -/

namespace Layout

variable (L : Layout)

/-- The words of the `GuestState`. -/
def word (g : Guest) (k : ℕ) : BitVec 64 :=
  if k < 32 then g.x k
  else if k * 8 = GUEST_MEMORY_BASE_OFFSET then L.guestMemoryBase
  else if k * 8 = SHADOW_MEMORY_OFFSET then L.shadowMemory
  else 0#64

/-- A memory with the guest where the layout says. -/
def image (g : Guest) : Memory 64 := fun x =>
  let offset := (x - L.state).toNat
  if offset < GUEST_STATE_SIZE then (L.word g (offset / 8)).extractLsb' (8 * (offset % 8)) 8
  else g.mem (x - L.shadowMemory + L.guestMemoryBase)

theorem load_image (g : Guest) {k : ℕ} (hk : k < 36) :
    load (L.image g) (L.field (k * 8)) 8 = L.word g k := by
  have hstore : load (store (L.image g) (L.field (k * 8)) 8 (L.word g k)) (L.field (k * 8)) 8 =
      L.word g k := by
    simp [load_store_same]
  refine Eq.trans (load_congr fun i hi => ?_) hstore
  have hoffset : (L.field (k * 8) + BitVec.ofNat 64 i - L.state).toNat = k * 8 + i := by
    rw [field_add, field]
    exact offset_sub L.state (by omega)
  have hbyte : (L.field (k * 8) + BitVec.ofNat 64 i - L.field (k * 8)).toNat = i :=
    offset_sub _ (by omega)
  rw [store_inside _ (by rwa [InRange, hbyte]), hbyte]
  simp only [image, hoffset]
  rw [if_pos (by simp only [GUEST_STATE_SIZE]; omega), show (k * 8 + i) / 8 = k by omega,
    show (k * 8 + i) % 8 = i by omega]

theorem represents_image (g : Guest) : Represents L (L.image g) g where
  x r hr := by
    rw [REGISTER_SIZE_BYTES, L.load_image g (by omega), word, if_pos hr]
  guestMemoryBase := by
    rw [show GUEST_MEMORY_BASE_OFFSET = 35 * 8 from rfl, L.load_image g (by decide)]
    rfl
  shadowMemory := by
    rw [show SHADOW_MEMORY_OFFSET = 33 * 8 from rfl, L.load_image g (by decide)]
    rfl
  mem a ha := by
    have hstate : ¬ (L.host a - L.state).toNat < GUEST_STATE_SIZE := fun hin =>
      L.disjoint (L.host a) hin ((host_inRange a).mpr ha)
    have haddress : L.host a - L.shadowMemory + L.guestMemoryBase = a := by
      rw [host]
      ring
    simp only [image, if_neg hstate, haddress]

end Layout

end DinoRisc
