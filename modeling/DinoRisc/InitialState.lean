import DinoRisc.BinaryTranslator
import DinoRisc.Lowering.HostMemory

/-! The guest state that the constructor, the arguments and the start of a function leave. -/

namespace DinoRisc

open ByteMemory

namespace Layout

variable {L : Layout} {mem : Memory 64} {o o' : ℕ}

theorem load_store_field (v : BitVec 64) (ho : o + 8 ≤ GUEST_STATE_SIZE)
    (ho' : o' + 8 ≤ GUEST_STATE_SIZE) (h : o + 8 ≤ o' ∨ o' + 8 ≤ o) :
    load (store mem (L.field o) 8 v) (L.field o') 8 = load mem (L.field o') 8 :=
  load_store_disjoint _ _ _ _ fun _ hi => field_disjoint ho ho' h hi

theorem store_field_shadow (v : BitVec 64) (ho : o + 8 ≤ GUEST_STATE_SIZE) {x : BitVec 64}
    (hx : InRange L.shadowMemory L.shadowMemorySize x) :
    store mem (L.field o) 8 v x = mem x :=
  store_outside v fun hin => L.disjoint x (inRange_field ho le_rfl hin) hx

/-- What follows the registers in the guest state is outside. -/
theorem outside_field {n i : ℕ} (ho : 256 ≤ o) (hn : o + n ≤ GUEST_STATE_SIZE) (hi : i < n) :
    L.Outside (L.field o + BitVec.ofNat 64 i) := by
  have hstate : L.field 0 = L.state := by simp [field]
  constructor
  · rw [← hstate]
    exact field_disjoint (by decide) hn (.inl ho) hi
  · rw [field_add]
    exact L.disjoint _ (field_inRange (by omega) le_rfl)

end Layout

/-- The program counter is no part of the guest. -/
theorem Represents.store_pc {L : Layout} {mem : Memory 64} {g : Guest} (h : Represents L mem g)
    (v : BitVec 64) : Represents L (store mem (L.field PC_OFFSET) 8 v) g where
  x r hr := by
    rw [Layout.load_store_field v (by decide), h.x r hr]
    all_goals simp only [REGISTER_SIZE_BYTES, GUEST_STATE_SIZE, PC_OFFSET]; omega
  guestMemoryBase := by
    rw [Layout.load_store_field v (by decide) (by decide) (by decide), h.guestMemoryBase]
  shadowMemory := by
    rw [Layout.load_store_field v (by decide) (by decide) (by decide), h.shadowMemory]
  mem a ha := by
    rw [Layout.store_field_shadow v (by decide) ((Layout.host_inRange a).mpr ha), h.mem a ha]

namespace BinaryTranslator

variable {L : Layout} {t t' : BinaryTranslator} {o o' : ℕ} {v : BitVec 64}

/-- `t'` keeps what `t` has outside of its guest state. -/
structure Extends (L : Layout) (t t' : BinaryTranslator) : Prop where
  state : t'.guestState = t.guestState
  mappings : t'.mappings = t.mappings
  mem : ∀ x, ¬ InRange L.state GUEST_STATE_SIZE x → t'.host.mem x = t.host.mem x

theorem Extends.refl (t : BinaryTranslator) : Extends L t t := ⟨rfl, rfl, fun _ _ => rfl⟩

theorem Extends.trans {t'' : BinaryTranslator} (h : Extends L t t') (h' : Extends L t' t'') :
    Extends L t t'' :=
  ⟨h'.state.trans h.state, h'.mappings.trans h.mappings,
    fun x hx => (h'.mem x hx).trans (h.mem x hx)⟩

theorem setField_guestState : (t.setField o v).guestState = t.guestState := rfl

section

variable (hstate : t.guestState = L.state)

include hstate

theorem extends_setField (ho : o + 8 ≤ GUEST_STATE_SIZE) (v : BitVec 64) :
    Extends L t (t.setField o v) where
  state := rfl
  mappings := rfl
  mem x hx := by
    refine store_outside v fun hin => hx ?_
    rw [hstate] at hin
    exact Layout.inRange_field ho le_rfl hin

theorem getField_setField_ne (ho : o + 8 ≤ GUEST_STATE_SIZE) (ho' : o' + 8 ≤ GUEST_STATE_SIZE)
    (h : o + 8 ≤ o' ∨ o' + 8 ≤ o) : (t.setField o v).getField o' = t.getField o' := by
  simp only [getField, setField, hstate]
  exact Layout.load_store_field v ho ho' h

omit hstate

theorem getField_setField : (t.setField o v).getField o = v := by
  simp [getField, setField, load_store_same]

end

theorem represents_of_getField {g : Guest} (hstate : t.guestState = L.state)
    (hx : ∀ r < 32, t.getField (r * REGISTER_SIZE_BYTES) = g.x r)
    (hbase : t.getField GUEST_MEMORY_BASE_OFFSET = L.guestMemoryBase)
    (hshadow : t.getField SHADOW_MEMORY_OFFSET = L.shadowMemory)
    (hmem : ∀ a, (a - L.guestMemoryBase).toNat < L.shadowMemorySize →
      t.host.mem (L.host a) = g.mem a) : Represents L t.host.mem g := by
  simp only [getField, hstate] at hx hbase hshadow
  exact ⟨hx, hbase, hshadow, hmem⟩

theorem register_bound {r : ℕ} (hr : r < 32) : r * REGISTER_SIZE_BYTES + 8 ≤ 256 := by
  simp only [REGISTER_SIZE_BYTES]
  omega

theorem clear_registers (hstate : t.guestState = L.state) {n : ℕ} (hn : n ≤ 32) :
    Extends L t ((List.range n).foldl (fun t reg => t.setRegister reg 0#64) t) ∧
      ∀ r < n, ((List.range n).foldl (fun t reg => t.setRegister reg 0#64) t).getField
        (r * REGISTER_SIZE_BYTES) = 0#64 := by
  induction n with
  | zero => exact ⟨.refl t, by simp⟩
  | succ n ih =>
    obtain ⟨hextends, hzero⟩ := ih (by omega)
    have hbound := register_bound (show n < 32 by omega)
    have hle : n * REGISTER_SIZE_BYTES + 8 ≤ GUEST_STATE_SIZE := hbound.trans (by decide)
    have hstate' := hextends.state.trans hstate
    rw [List.range_succ, List.foldl_append, List.foldl_cons, List.foldl_nil]
    refine ⟨hextends.trans (extends_setField hstate' hle 0#64), fun r hr => ?_⟩
    rcases Nat.lt_succ_iff_lt_or_eq.mp hr with hlt | rfl
    · rw [setRegister, getField_setField_ne hstate' hle, hzero r hlt]
      all_goals simp only [REGISTER_SIZE_BYTES, GUEST_STATE_SIZE] at hle ⊢; omega
    · exact getField_setField

/-- The guest is where the translator's `GuestState` says. -/
structure Holds (L : Layout) (t : BinaryTranslator) (g : Guest) : Prop where
  state : t.guestState = L.state
  guest : Represents L t.host.mem g
  size : t.getField SHADOW_MEMORY_SIZE_OFFSET = BitVec.ofNat 64 L.shadowMemorySize

namespace Holds

variable {g : Guest}

theorem setPC (h : Holds L t g) (v : BitVec 64) : Holds L (t.setField PC_OFFSET v) g where
  state := h.state
  guest := by
    simp only [setField, h.state]
    exact h.guest.store_pc v
  size := by
    rw [getField_setField_ne h.state (by decide) (by decide) (by decide), h.size]

theorem setRegister (h : Holds L t g) {r : ℕ} (hr : r < 32) (v : BitVec 64) :
    Holds L (t.setRegister r v) { g with x := Function.update g.x r v } where
  state := h.state
  guest := by
    simp only [BinaryTranslator.setRegister, setField, h.state]
    exact h.guest.store_register hr v
  size := by
    have hbound := register_bound hr
    rw [BinaryTranslator.setRegister, getField_setField_ne h.state (hbound.trans (by decide))
      (by decide) (.inl (hbound.trans (by decide))), h.size]

end Holds

def stackTop : BitVec 64 := BitVec.ofNat 64 (SHADOW_MEMORY_SIZE - STACK_RESERVE)

/-- Everything is zero, but for the stack pointer. -/
def emptyGuest : Guest where
  x := Function.update (fun _ => 0#64) 2 stackTop
  mem := fun _ => 0#8

/-- The guest at the entry of a function. -/
def entryGuest (args : List (BitVec 64)) : Guest where
  x r := if r = 2 then stackTop else if 10 ≤ r ∧ r < 18 then args.getD (r - 10) 0#64 else 0#64
  mem := fun _ => 0#8

/-- `mmap` has cleared the shadow memory, and the system maps the code of every block. -/
structure Cleared (L : Layout) (t : BinaryTranslator) : Prop where
  state : t.guestState = L.state
  mapped : ∀ n, t.mappings n = .executable
  size : L.shadowMemorySize = SHADOW_MEMORY_SIZE
  base : L.guestMemoryBase = 0#64
  mem : ∀ x, InRange L.shadowMemory L.shadowMemorySize x → t.host.mem x = 0#8

theorem initializeTranslator_eq (shadowMem : BitVec 64) (t : BinaryTranslator) :
    t.initializeTranslator shadowMem =
      ((((((List.range 32).foldl (fun t reg => t.setRegister reg 0#64) t).setField PC_OFFSET
        0#64).setField SHADOW_MEMORY_OFFSET shadowMem).setField SHADOW_MEMORY_SIZE_OFFSET
          (BitVec.ofNat 64 SHADOW_MEMORY_SIZE)).setField GUEST_MEMORY_BASE_OFFSET
            0#64).setRegister 2 stackTop := rfl

theorem initializeTranslator_holds (h : Cleared L t) :
    Holds L (t.initializeTranslator L.shadowMemory) emptyGuest ∧
      Extends L t (t.initializeTranslator L.shadowMemory) := by
  obtain ⟨hextends, hzero⟩ := clear_registers h.state (le_refl 32)
  rw [initializeTranslator_eq]
  generalize (List.range 32).foldl (fun t reg => t.setRegister reg 0#64) t = t₁ at hextends hzero
  obtain ⟨t₂, ht₂⟩ : ∃ t₂, t₁.setField PC_OFFSET 0#64 = t₂ := ⟨_, rfl⟩
  obtain ⟨t₃, ht₃⟩ : ∃ t₃, t₂.setField SHADOW_MEMORY_OFFSET L.shadowMemory = t₃ := ⟨_, rfl⟩
  obtain ⟨t₄, ht₄⟩ : ∃ t₄, t₃.setField SHADOW_MEMORY_SIZE_OFFSET
    (BitVec.ofNat 64 SHADOW_MEMORY_SIZE) = t₄ := ⟨_, rfl⟩
  have hstate₁ := hextends.state.trans h.state
  have hstate₂ : t₂.guestState = L.state := by
    rw [← ht₂, setField_guestState, hstate₁]
  have hstate₃ : t₃.guestState = L.state := by
    rw [← ht₃, setField_guestState, hstate₂]
  have hstate₄ : t₄.guestState = L.state := by
    rw [← ht₄, setField_guestState, hstate₃]
  have hextends' : Extends L t (t₄.setField GUEST_MEMORY_BASE_OFFSET 0#64) :=
    hextends.trans <| (ht₂ ▸ extends_setField hstate₁ (by decide) _).trans <|
      (ht₃ ▸ extends_setField hstate₂ (by decide) _).trans <|
      (ht₄ ▸ extends_setField hstate₃ (by decide) _).trans <|
      extends_setField hstate₄ (by decide) _
  have hguest : Holds L (t₄.setField GUEST_MEMORY_BASE_OFFSET 0#64)
      ⟨fun _ => 0#64, fun _ => 0#8⟩ := by
    refine ⟨hstate₄, represents_of_getField hstate₄ (fun r hr => ?_) ?_ ?_ fun a ha => ?_, ?_⟩
    · have hbound := register_bound hr
      have hle : r * REGISTER_SIZE_BYTES + 8 ≤ GUEST_STATE_SIZE := hbound.trans (by decide)
      rw [getField_setField_ne hstate₄ (by decide) hle (.inr (hbound.trans (by decide))), ← ht₄,
        getField_setField_ne hstate₃ (by decide) hle (.inr (hbound.trans (by decide))), ← ht₃,
        getField_setField_ne hstate₂ (by decide) hle (.inr (hbound.trans (by decide))), ← ht₂,
        getField_setField_ne hstate₁ (by decide) hle (.inr (hbound.trans (by decide))), hzero r hr]
    · rw [getField_setField, h.base]
    · rw [getField_setField_ne hstate₄ (by decide) (by decide) (by decide), ← ht₄,
        getField_setField_ne hstate₃ (by decide) (by decide) (by decide), ← ht₃, getField_setField]
    · have hshadow := (Layout.host_inRange a).mpr ha
      rw [hextends'.mem _ fun hin => L.disjoint _ hin hshadow, h.mem _ hshadow]
    · rw [getField_setField_ne hstate₄ (by decide) (by decide) (by decide), ← ht₄,
        getField_setField, h.size]
  have hstate₅ : (t₄.setField GUEST_MEMORY_BASE_OFFSET 0#64).guestState = L.state := hstate₄
  rw [ht₂, ht₃, ht₄]
  exact ⟨hguest.setRegister (by decide) stackTop,
    hextends'.trans (extends_setField hstate₅ (by decide) stackTop)⟩

theorem arguments_holds (args : List (BitVec 64)) {k : ℕ} {g : Guest} (h : Holds L t g)
    (hk : k + args.length ≤ 8) :
    ∃ g', Holds L ((args.zipIdx k).foldl (fun t (arg, i) => t.setRegister (10 + i) arg) t) g' ∧
      Extends L t ((args.zipIdx k).foldl (fun t (arg, i) => t.setRegister (10 + i) arg) t) ∧
      g'.mem = g.mem ∧ ∀ r, g'.x r =
        if 10 + k ≤ r ∧ r < 10 + k + args.length then args.getD (r - (10 + k)) 0#64 else g.x r := by
  induction args generalizing t k g with
  | nil =>
    refine ⟨g, h, .refl t, rfl, fun r => ?_⟩
    rw [if_neg]
    simp
  | cons arg args ih =>
    rw [List.length_cons] at hk
    have hbound := register_bound (show 10 + k < 32 by omega)
    have hextends := extends_setField (v := arg) h.state (hbound.trans (by decide))
    obtain ⟨g', hguest, hextends', hmem, hx⟩ := ih (t := t.setRegister (10 + k) arg) (k := k + 1)
      (h.setRegister (by omega) arg) (by omega)
    refine ⟨g', hguest, hextends.trans hextends', hmem, fun r => ?_⟩
    dsimp only at hx
    rw [hx r, List.length_cons]
    rcases Nat.lt_trichotomy r (10 + k) with hlt | rfl | hgt
    · rw [if_neg (by omega), if_neg (by omega), Function.update_of_ne hlt.ne]
    · rw [if_neg (by omega), if_pos (by omega), Function.update_self, Nat.sub_self]
      rfl
    · obtain ⟨j, rfl⟩ := Nat.exists_eq_add_of_lt hgt
      have hindex : 10 + k + j + 1 - (10 + k) = j + 1 := by omega
      have hindex' : 10 + k + j + 1 - (10 + (k + 1)) = j := by omega
      rw [hindex, hindex', List.getD_cons_succ, Function.update_of_ne (by omega)]
      exact if_congr (by omega) rfl rfl

variable {args : List (BitVec 64)}

/-- The translator when `executeFunction` enters its loop. -/
def started (shadowMem : BitVec 64) (args : List (BitVec 64)) (text : List (BitVec 8))
    (base entry : BitVec 64) (t : BinaryTranslator) : BinaryTranslator :=
  ((t.initializeTranslator shadowMem).setArgumentRegisters args).start text base entry

theorem started_register {x : ℕ → BitVec 64} (hx : ∀ r, x r =
    if 10 + 0 ≤ r ∧ r < 10 + 0 + (args.take 8).length then (args.take 8).getD (r - (10 + 0)) 0#64
      else emptyGuest.x r) (r : ℕ) : Function.update x 1 0#64 r = (entryGuest args).x r := by
  simp only [entryGuest, Function.update_apply, hx r, emptyGuest, List.length_take]
  by_cases hr : 10 ≤ r ∧ r < 18
  · have htake : (args.take 8).getD (r - 10) 0#64 = args.getD (r - 10) 0#64 := by
      rw [List.getD_eq_getElem?_getD, List.getElem?_take_of_lt (by omega),
        ← List.getD_eq_getElem?_getD]
    rw [if_neg (by omega), if_neg (by omega : ¬ r = 2), if_neg (by omega : ¬ r = 2), if_pos hr]
    split
    · exact htake
    · rw [List.getD_eq_default _ _ (by omega)]
  · rw [if_neg (by omega : ¬ (10 + 0 ≤ r ∧ _)), if_neg hr]
    split
    · rw [if_neg (by omega)]
    · rfl

/-- Whatever the memory held before, the loop starts from the entry state of the function, and
nothing outside of the guest state has been touched. -/
theorem started_holds (args : List (BitVec 64)) (text : List (BitVec 8))
    (base entry : BitVec 64) (h : Cleared L t) :
    Holds L (t.started L.shadowMemory args text base entry) (entryGuest args) ∧
      Extends L t (t.started L.shadowMemory args text base entry) := by
  obtain ⟨hguest, hextends⟩ := initializeTranslator_holds h
  have hlength : (args.take 8).length ≤ 8 := List.length_take_le ..
  obtain ⟨g, hguest', hextends', hmem, hx⟩ :=
    arguments_holds (args.take 8) (k := 0) hguest (by omega)
  obtain ⟨t', ht'⟩ : ∃ t', (t.initializeTranslator L.shadowMemory).setArgumentRegisters args = t' :=
    ⟨_, rfl⟩
  rw [setArgumentRegisters] at ht'
  rw [ht'] at hguest' hextends'
  obtain ⟨t₁, ht₁⟩ : ∃ t₁ : BinaryTranslator,
    { t' with textSectionData := text, textBaseAddress := base } = t₁ := ⟨_, rfl⟩
  have hextends₁ : Extends L t' t₁ := by
    subst ht₁
    exact ⟨rfl, rfl, fun _ _ => rfl⟩
  have hguest₁ : Holds L t₁ g := by
    subst ht₁
    exact ⟨hguest'.state, hguest'.guest, hguest'.size⟩
  have hpc := hguest₁.setPC entry
  have hentry : entryGuest args = { g with x := Function.update g.x 1 0#64 } := by
    refine Guest.ext (funext fun r => ?_) hmem.symm
    exact (started_register hx r).symm
  rw [started, setArgumentRegisters, ht', start, ht₁, hentry]
  refine ⟨hpc.setRegister (by decide) 0#64, (hextends.trans hextends').trans ?_⟩
  exact (hextends₁.trans (extends_setField hguest₁.state (by decide) entry)).trans
    (extends_setField hpc.state (by decide) 0#64)

end BinaryTranslator

end DinoRisc
