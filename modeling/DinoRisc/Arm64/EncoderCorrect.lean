import DinoRisc.Arm64.Emit

/-!
What the emitted instructions do: the words of data processing mean what `exec` says, except for
EOR, for LSR by a register and for a 32-bit move that shifts by 32 or 48.
-/

namespace DinoRisc.Arm64

open A64 (Instr)

def Machine.cpu (m : Machine) : A64.Cpu where
  x n := m.reg (.physical (.x n))
  sp := m.reg (.physical .xsp)
  flags := m.flags
  mem := m.mem

def Outcome.cpu : Outcome → A64.Outcome
  | .next m => .next m.cpu
  | .jump m target => .jump m.cpu target

/-- Not EOR, LSR by a register, or a 32-bit move that shifts by 32 or 48. -/
def Instruction.Encodable : Instruction → Prop
  | .threeOperand .eor _ _ _ _ => False
  | .threeOperand .lsr _ _ _ (.register _) => False
  | .moveWide _ .w _ _ shift => shift.toNat < 32
  | _ => True

namespace Encoder

theorem cpu_get (m : Machine) (n : Fin 31) : m.cpu.get (number n) = m.reg (.physical (.x n)) := by
  have hn : (number n).toNat = n := by
    simp only [number, BitVec.toNat_ofNat]
    omega
  simp [A64.Cpu.get, Machine.cpu, hn]

theorem cpu_getSP (m : Machine) (n : Fin 31) :
    m.cpu.getSP (number n) = m.reg (.physical (.x n)) := by
  have hn : (number n).toNat = n := by
    simp only [number, BitVec.toNat_ofNat]
    omega
  simp [A64.Cpu.getSP, Machine.cpu, hn]

theorem cpu_get_zero (cpu : A64.Cpu) : cpu.get 31#5 = 0#64 := rfl

theorem cpu_set_zero (cpu : A64.Cpu) (value : BitVec 64) : cpu.set 31#5 value = cpu := rfl

theorem cpu_set (m : Machine) (n : Fin 31) (value : BitVec 64) :
    m.cpu.set (number n) value =
      Machine.cpu { m with reg := Function.update m.reg (.physical (.x n)) value } := by
  have hn : (number n).toNat = n := by
    simp only [number, BitVec.toNat_ofNat]
    omega
  ext k
  all_goals simp [A64.Cpu.set, Machine.cpu, hn, Function.update_apply]

theorem cpu_setSP (m : Machine) (n : Fin 31) (value : BitVec 64) :
    m.cpu.setSP (number n) value = m.cpu.set (number n) value := by
  have hn : (number n).toNat = n := by
    simp only [number, BitVec.toNat_ofNat]
    omega
  simp [A64.Cpu.set, A64.Cpu.setSP, hn]

theorem sized_sf (size : DataSize) (hs : size = .w ∨ size = .x)
    (f : (w : ℕ) → BitVec w → BitVec w → BitVec w) (a b : BitVec 64) :
    A64.sized (sf size) f a b =
      size.result (f size.width (a.setWidth size.width) (b.setWidth size.width)) := by
  obtain rfl | rfl := hs
  · rfl
  · simp [A64.sized, sf, DataSize.result, DataSize.width]

theorem sizedFlags_sf (size : DataSize) (hs : size = .w ∨ size = .x)
    (f : (w : ℕ) → BitVec w → BitVec w → A64.Flags) (a b : BitVec 64) :
    A64.sizedFlags (sf size) f a b =
      f size.width (a.setWidth size.width) (b.setWidth size.width) := by
  obtain rfl | rfl := hs
  · rfl
  · simp [A64.sizedFlags, sf, DataSize.width]

theorem width_pos (size : DataSize) : 0 < size.width := by cases size <;> decide

theorem setWidth_field_all {k : ℕ} (value : BitVec 64) (h : value.toNat < 2 ^ k) (n : ℕ) :
    (value.setWidth k).setWidth n = value.setWidth n := by
  apply BitVec.eq_of_toNat_eq
  simp only [BitVec.toNat_setWidth]
  rw [Nat.mod_eq_of_lt (a := value.toNat) (b := 2 ^ k) h]

theorem setWidth_result (size : DataSize) (value : BitVec size.width) :
    (size.result value).setWidth size.width = value := by
  have hle : size.width ≤ 64 := by cases size <;> decide
  rw [DataSize.result, BitVec.setWidth_setWidth (by omega), BitVec.setWidth_eq]

theorem shiftReg_none {w : ℕ} (x : BitVec w) : A64.shiftReg 0#2 0 x = x := BitVec.shiftLeft_zero x

theorem exec_emitThreeOperand (size : DataSize) (hs : size = .w ∨ size = .x) (opcode : Opcode)
    (rd rn : Fin 31) (src2 : Operand) (hfit : src2.Fits opcode size) (heor : opcode ≠ .eor)
    (hlsr : opcode = .lsr → ¬ src2.IsGeneral) {i : Instr}
    (h : emitThreeOperand size rd rn opcode src2 = some i) (m : Machine) :
    (exec (.threeOperand opcode size (.register (.x rd)) (.register (.x rn)) src2) m).map
      Outcome.cpu = some (A64.exec i m.cpu) := by
  have hw := width_pos size
  obtain ⟨rm, rfl⟩ | ⟨value, rfl, hv⟩ := hfit
  · cases opcode <;> simp [emitThreeOperand] at h
    case eor => exact absurd rfl heor
    case lsr => exact absurd ⟨rm, rfl⟩ (hlsr rfl)
    all_goals subst h
    case cmp =>
      simp only [exec, A64.exec, sizedFlags_sf size hs, cpu_get, cpu_set_zero, if_true,
        A64.addSub_sub hw, BitVec.toNat_zero, shiftReg_none]
      rfl
    all_goals
      simp [exec, A64.exec, sized_sf size hs, cpu_get, cpu_set, cpu_get_zero, A64.addSub_add,
        A64.addSub_sub hw, shiftReg_none, A64.logical, A64.dataProc2Op, Opcode.compute,
        Machine.read, Machine.write, Operand.place, Outcome.cpu, setWidth_result]
  · cases opcode <;> simp [emitThreeOperand] at h
    all_goals subst h
    case cmp =>
      simp only [exec, A64.exec, sizedFlags_sf size hs, cpu_getSP, cpu_set_zero, if_true,
        A64.addSub_sub hw, setWidth_field_all value hv, BitVec.setWidth_eq]
      rfl
    case add | sub =>
      simp [exec, A64.exec, sized_sf size hs, cpu_getSP, cpu_setSP, cpu_set, A64.addSub_add,
        A64.addSub_sub hw, setWidth_field_all value hv, Opcode.compute, Machine.read, Machine.write,
        Operand.place, Outcome.cpu]
    all_goals
      have hle : size.width ≤ 64 := by cases size <;> decide
      have hk : value.toNat < size.width := hv
      have hfits : value.toNat % 2 ^ size.width = value.toNat :=
        Nat.mod_eq_of_lt (hk.trans Nat.lt_two_pow_self)
      have hamount : value.toNat % size.width = value.toNat := Nat.mod_eq_of_lt hk
      have hlast : (BitVec.ofNat 6 (size.width - 1)).toNat = size.width - 1 := by
        rw [BitVec.toNat_ofNat, Nat.mod_eq_of_lt (by omega)]
    case lsl =>
      have himmr : (BitVec.ofNat 6 ((size.width - value.toNat) % size.width)).toNat =
          (size.width - value.toNat) % size.width := by
        have := Nat.mod_lt (size.width - value.toNat) hw
        rw [BitVec.toNat_ofNat, Nat.mod_eq_of_lt (a := (size.width - value.toNat) % size.width)
          (by omega)]
      have himms : (BitVec.ofNat 6 (size.width - 1 - value.toNat)).toNat =
          size.width - 1 - value.toNat := by
        rw [BitVec.toNat_ofNat, Nat.mod_eq_of_lt (by omega)]
      simp only [A64.exec, sized_sf size hs, cpu_get, cpu_set, himmr, himms,
        A64.bitfieldMove_shiftLeft _ hk]
      simp [exec, Opcode.compute, Machine.read, Machine.write, Operand.place, Outcome.cpu, hfits,
        hamount]
    case lsr | asr =>
      have himmr : (value.setWidth 6).toNat = value.toNat := by
        rw [BitVec.toNat_setWidth, Nat.mod_eq_of_lt (by omega)]
      simp only [A64.exec, sized_sf size hs, cpu_get, cpu_set, himmr, hlast,
        A64.bitfieldMove_shiftRight _ hk, A64.bitfieldMove_sshiftRight _ hk]
      simp [exec, Opcode.compute, Machine.read, Machine.write, Operand.place, Outcome.cpu, hfits,
        hamount]

theorem exec_emitTwoOperand (size : DataSize) (opcode : Opcode)
    (hs : size = .w ∧ opcode ≠ .sxtw ∨ size = .x) (rd : Fin 31) (src : Operand)
    (hfit : src.Fits opcode size) {i : Instr} (h : emitTwoOperand size rd opcode src = some i)
    (m : Machine) :
    (exec (.twoOperand opcode size (.register (.x rd)) src) m).map Outcome.cpu =
      some (A64.exec i m.cpu) := by
  have hw := width_pos size
  have hsize : size = .w ∨ size = .x := by tauto
  obtain ⟨rm, rfl⟩ | ⟨value, rfl, hv⟩ := hfit
  · cases opcode <;> simp [emitTwoOperand] at h
    all_goals subst h
    case cmp =>
      simp only [exec, A64.exec, sizedFlags_sf size hsize, cpu_get, cpu_set_zero, if_true,
        A64.addSub_sub hw, BitVec.toNat_zero, shiftReg_none]
      rfl
    case ret => simp [exec, A64.exec, cpu_get, Machine.read, Outcome.cpu]
    case mov =>
      simp [exec, A64.exec, sized_sf size hsize, cpu_get, cpu_set, cpu_get_zero, shiftReg_none,
        A64.logical, Opcode.convert, Machine.read, Machine.write, Operand.place, Outcome.cpu]
    case sxtw =>
      obtain rfl : size = .x := by tauto
      have h31 : (31#6).toNat = 31 := rfl
      simp [exec, A64.exec, A64.sized, cpu_get, cpu_set, A64.bitfieldMove_signExtend, Opcode.convert,
        Machine.read, Machine.write, Operand.place, Outcome.cpu, DataSize.result, DataSize.width]
    case sxtb | sxth =>
      simp [exec, A64.exec, sized_sf size hsize, cpu_get, cpu_set, A64.bitfieldMove_signExtend,
        Opcode.convert, Machine.read, Machine.write, Operand.place, Outcome.cpu]
  · cases opcode <;> simp [emitTwoOperand] at h
    all_goals subst h
    case cmp =>
      simp only [exec, A64.exec, sizedFlags_sf size hsize, cpu_getSP, cpu_set_zero, if_true,
        A64.addSub_sub hw, setWidth_field_all value hv, BitVec.setWidth_eq]
      rfl
    case mov | movn =>
      simp [exec, A64.exec, sized_sf size hsize, cpu_set, A64.moveWideOp,
        setWidth_field_all value hv, Opcode.convert, Machine.read, Machine.write, Operand.place,
        Outcome.cpu]

theorem exec_emitMoveWide (size : DataSize) (hs : size = .w ∨ size = .x) (opcode : Opcode)
    (rd : Fin 31) (imm16 : BitVec 16) (shift : BitVec 8)
    (hshift : shift ∈ [0#8, 16#8, 32#8, 48#8]) {i : Instr}
    (h : emitMoveWide size rd imm16 shift opcode = some i) (m : Machine) :
    (exec (.moveWide opcode size (.register (.x rd)) imm16 shift) m).map Outcome.cpu =
      some (A64.exec i m.cpu) := by
  have hpos : 16 * ((shift / 16#8).setWidth 2).toNat = shift.toNat := by
    simp only [List.mem_cons, List.not_mem_nil, or_false] at hshift
    obtain rfl | rfl | rfl | rfl := hshift <;> rfl
  cases opcode <;> simp only [emitMoveWide, Option.some.injEq, reduceCtorEq] at h
  all_goals
    subst h
    simp only [A64.exec, sized_sf size hs, cpu_get, cpu_set, hpos]
    rfl

theorem conditionHolds_code (condition : Condition) (f : A64.Flags) :
    A64.conditionHolds condition.code f = condition.holds f := by
  obtain ⟨n, z, c, v⟩ := f
  cases condition <;> cases n <;> cases z <;> cases c <;> cases v <;> rfl

theorem conditionHolds_inverted (condition : Condition) (hal : condition ≠ .al)
    (hnv : condition ≠ .nv) (f : A64.Flags) :
    A64.conditionHolds (condition.code ^^^ 1#4) f = !condition.holds f := by
  obtain ⟨n, z, c, v⟩ := f
  cases condition <;> first
    | contradiction
    | cases n <;> cases z <;> cases c <;> cases v <;> rfl

theorem exec_emit (inst : Instruction) (hdp : inst.IsDataProcessing) (henc : inst.Encodable)
    {i : Instr} (h : emit inst = some i) (m : Machine) :
    (exec inst m).map Outcome.cpu = some (A64.exec i m.cpu) := by
  cases inst with
  | threeOperand opcode size dest src1 src2 =>
    obtain ⟨hs, ⟨rd, rfl⟩, ⟨rn, rfl⟩, hfit⟩ := hdp
    apply exec_emitThreeOperand size hs opcode rd rn src2 hfit _ _ h
    · rintro rfl
      exact henc
    · rintro rfl ⟨rm, rfl⟩
      exact henc
  | twoOperand opcode size dest src =>
    obtain ⟨hs, ⟨rd, rfl⟩, hfit⟩ := hdp
    exact exec_emitTwoOperand size opcode hs rd src hfit h m
  | moveWide opcode size dest imm16 shift =>
    obtain ⟨hs, ⟨rd, rfl⟩, hshift⟩ := hdp
    exact exec_emitMoveWide size hs opcode rd imm16 shift hshift h m
  | conditional opcode size dest condition =>
    obtain ⟨hs, ⟨rd, rfl⟩, hal, hnv⟩ := hdp
    cases opcode <;> simp only [emit, Option.some.injEq, reduceCtorEq] at h
    subst h
    have hone : size.result 1#(size.width) = 1#64 := by obtain rfl | rfl := hs <;> rfl
    have hzero : size.result 0#(size.width) = 0#64 := by obtain rfl | rfl := hs <;> rfl
    simp only [A64.exec, sized_sf size hs, cpu_get_zero, cpu_set,
      conditionHolds_inverted condition hal hnv]
    cases hc : condition.holds m.flags <;>
      simp [exec, Machine.write, Operand.place, Outcome.cpu, Machine.cpu, hc, A64.otherwise, hone,
        hzero]
  | conditionalSelect opcode size dest src1 src2 condition =>
    obtain ⟨hs, ⟨rd, rfl⟩, ⟨rn, rfl⟩, ⟨rm, rfl⟩⟩ := hdp
    cases opcode <;> simp only [emit, Option.some.injEq, reduceCtorEq] at h
    subst h
    simp only [A64.exec, sized_sf size hs, cpu_get, cpu_set, conditionHolds_code]
    cases hc : condition.holds m.flags <;>
      simp [exec, Machine.read, Machine.write, Operand.place, Outcome.cpu, Machine.cpu, hc,
        A64.otherwise]
  | memory | branch => exact hdp.elim

/-! ### The emitted words -/

theorem emit_allocated (inst : Instruction) (hdp : inst.IsDataProcessing) (henc : inst.Encodable)
    {i : Instr} (h : emit inst = some i) : i.allocated := by
  cases inst with
  | threeOperand opcode size dest src1 src2 =>
    obtain ⟨hs, ⟨rd, rfl⟩, ⟨rn, rfl⟩, hfit⟩ := hdp
    obtain ⟨rm, rfl⟩ | ⟨value, rfl, hv⟩ := hfit
    · cases opcode <;> simp [emit, emitThreeOperand] at h
      case eor | lsr => exact henc.elim
      all_goals
        subst h
        simp [Instr.allocated]
    · cases opcode <;> simp [emit, emitThreeOperand] at h
      all_goals subst h
      case lsl =>
        have hmod := Nat.mod_lt (size.width - value.toNat) (width_pos size)
        obtain rfl | rfl := hs
        · have h32 : (32 - value.toNat) % 32 < 32 := hmod
          simp [Instr.allocated, sf, DataSize.width]
          omega
        · simp [Instr.allocated, sf]
      case lsr | asr =>
        obtain rfl | rfl := hs
        · have hlt : value.toNat < 32 := hv
          simp [Instr.allocated, sf, DataSize.width]
          omega
        · simp [Instr.allocated, sf]
      all_goals simp [Instr.allocated]
  | twoOperand opcode size dest src =>
    obtain ⟨hs, ⟨rd, rfl⟩, hfit⟩ := hdp
    obtain ⟨rm, rfl⟩ | ⟨value, rfl, hv⟩ := hfit <;>
      cases opcode <;> simp [emit, emitTwoOperand] at h <;> subst h <;> simp [Instr.allocated]
  | moveWide opcode size dest imm16 shift =>
    obtain ⟨hs, ⟨rd, rfl⟩, hshift⟩ := hdp
    simp only [List.mem_cons, List.not_mem_nil, or_false] at hshift
    cases opcode <;> simp only [emit, emitMoveWide, Option.some.injEq, reduceCtorEq] at h
    all_goals
      subst h
      obtain rfl | rfl := hs
    all_goals
      obtain rfl | rfl | rfl | rfl := hshift <;>
        simp_all [Instr.allocated, sf, Instruction.Encodable]
  | conditional opcode size dest condition =>
    obtain ⟨hs, ⟨rd, rfl⟩, hal, hnv⟩ := hdp
    cases opcode <;> simp only [emit, Option.some.injEq, reduceCtorEq] at h
    subst h
    rfl
  | conditionalSelect opcode size dest src1 src2 condition =>
    obtain ⟨hs, ⟨rd, rfl⟩, ⟨rn, rfl⟩, ⟨rm, rfl⟩⟩ := hdp
    cases opcode <;> simp only [emit, Option.some.injEq, reduceCtorEq] at h
    subst h
    rfl
  | memory | branch => exact hdp.elim

def fetch : List (BitVec 8) → Option (BitVec 32)
  | [b0, b1, b2, b3] => some (b3 ++ b2 ++ b1 ++ b0)
  | _ => none

/-- The bytes are an allocated word, and the architecture gives it the meaning of the
instruction. -/
def Means (bytes : List (BitVec 8)) (inst : Instruction) : Prop :=
  ∃ word i, fetch bytes = some word ∧ A64.decode word = some i ∧
    ∀ m, (exec inst m).map Outcome.cpu = some (A64.exec i m.cpu)

theorem fetch_bytes (word : BitVec 32) :
    fetch [(word &&& 0xFF#32).setWidth 8, ((word >>> 8) &&& 0xFF#32).setWidth 8,
      ((word >>> 16) &&& 0xFF#32).setWidth 8, ((word >>> 24) &&& 0xFF#32).setWidth 8] =
      some word := by
  have hmask (k : ℕ) : ((word >>> k) &&& 0xFF#32).setWidth 8 = word.extractLsb' k 8 := by
    rw [show (0xFF#32) = BitVec.ofNat 32 (2 ^ 8 - 1) from rfl,
      BitField.shift_and_mask _ _ _ (by omega), BitVec.setWidth_setWidth (by omega),
      BitVec.setWidth_eq]
  have h0 := hmask 0
  rw [BitVec.ushiftRight_zero] at h0
  rw [h0, hmask, hmask, hmask, fetch]
  congr 1
  apply BitVec.eq_of_getLsbD_eq
  intro i hi
  simp only [BitVec.getLsbD_append, BitVec.getLsbD_extractLsb']
  by_cases h1 : i < 8
  · simp [h1]
  by_cases h2 : i < 16
  · simp [h1, show i - 8 < 8 by omega, show 8 + (i - 8) = i by omega]
  by_cases h3 : i < 24
  · simp [h1, show ¬ i - 8 < 8 by omega, show i - 8 - 8 < 8 by omega,
      show 16 + (i - 8 - 8) = i by omega]
  · simp [h1, show ¬ i - 8 < 8 by omega, show ¬ i - 8 - 8 < 8 by omega,
      show i - 8 - 8 - 8 < 8 by omega, show 24 + (i - 8 - 8 - 8) = i by omega]

theorem encodeInstruction_fetch {inst : Instruction} {bytes : List (BitVec 8)}
    (h : encodeInstruction inst = .ok bytes) :
    ∃ word, encodeWord inst = .ok word ∧ fetch bytes = some word := by
  obtain ⟨word, hword, h⟩ := bind_eq_ok.mp h
  cases h
  exact ⟨word, hword, fetch_bytes word⟩

theorem encodeInstruction_emit (inst : Instruction) (hdp : inst.IsDataProcessing)
    {bytes : List (BitVec 8)} (h : encodeInstruction inst = .ok bytes) :
    ∃ i, emit inst = some i ∧ fetch bytes = some i.encode := by
  obtain ⟨word, hword, hfetch⟩ := encodeInstruction_fetch h
  obtain ⟨i, hi, rfl⟩ := encodeWord_emit inst hdp hword
  exact ⟨i, hi, hfetch⟩

theorem means_iff_emit (inst : Instruction) {bytes : List (BitVec 8)} {i : Instr}
    (h : fetch bytes = some i.encode) : Means bytes inst ↔
      i.allocated ∧ ∀ m, (exec inst m).map Outcome.cpu = some (A64.exec i m.cpu) := by
  constructor
  · rintro ⟨word, i', hword, hdecode, hexec⟩
    obtain rfl : i.encode = word := Option.some.inj (h.symm.trans hword)
    rw [A64.decode_encode] at hdecode
    split at hdecode
    · obtain rfl := Option.some.inj hdecode
      exact ⟨‹_›, hexec⟩
    · exact nomatch hdecode
  · rintro ⟨halloc, hexec⟩
    refine ⟨i.encode, i, h, ?_, hexec⟩
    rw [A64.decode_encode, if_pos halloc]

def clear : Machine := ⟨fun _ => 0#64, ⟨false, false, false, false⟩, fun _ => 0#8⟩

theorem emit_not_encodable (inst : Instruction) (hdp : inst.IsDataProcessing)
    (henc : ¬ inst.Encodable) {i : Instr} (h : emit inst = some i) :
    ¬ (i.allocated ∧ ∀ m, (exec inst m).map Outcome.cpu = some (A64.exec i m.cpu)) := by
  rintro ⟨halloc, hexec⟩
  cases inst with
  | threeOperand opcode size dest src1 src2 =>
    obtain ⟨hs, ⟨rd, rfl⟩, ⟨rn, rfl⟩, hfit⟩ := hdp
    obtain ⟨rm, rfl⟩ | ⟨value, rfl, hv⟩ := hfit
    · cases opcode <;> simp [Instruction.Encodable] at henc
      case eor =>
        simp only [emit, emitThreeOperand, Option.some.injEq] at h
        subst h
        -- the flags tell ANDS from the exclusive or
        have hclear := hexec clear
        simp only [exec, Opcode.compute, Machine.write, Operand.place, Option.bind_eq_bind,
          Option.bind_some, Option.map_some, Outcome.cpu, A64.exec, if_true,
          sizedFlags_sf size hs, cpu_get, BitVec.toNat_zero, shiftReg_none] at hclear
        injection hclear with hclear
        injection hclear with hclear
        have hz := congrArg (fun cpu => cpu.flags.z) hclear
        simp [Machine.cpu, clear, A64.logicalFlags, A64.logical] at hz
      case lsr =>
        simp only [emit, emitThreeOperand, Option.some.injEq] at h
        subst h
        simp [Instr.allocated] at halloc
    · cases opcode <;> simp [Instruction.Encodable] at henc
      simp [emit, emitThreeOperand] at h
  | moveWide opcode size dest imm16 shift =>
    obtain ⟨hs, ⟨rd, rfl⟩, hshift⟩ := hdp
    simp only [List.mem_cons, List.not_mem_nil, or_false] at hshift
    cases opcode <;> simp only [emit, emitMoveWide, Option.some.injEq, reduceCtorEq] at h
    all_goals
      subst h
      obtain rfl | rfl := hs
    all_goals
      obtain rfl | rfl | rfl | rfl := hshift <;>
        simp_all [Instr.allocated, sf, Instruction.Encodable]
  | twoOperand | conditional | conditionalSelect => exact henc trivial
  | memory | branch => exact hdp.elim

theorem means_of_encodable {inst : Instruction} {bytes : List (BitVec 8)}
    (hdp : inst.IsDataProcessing)
    (henc : inst.Encodable) (h : encodeInstruction inst = .ok bytes) : Means bytes inst := by
  obtain ⟨i, hi, hfetch⟩ := encodeInstruction_emit inst hdp h
  exact (means_iff_emit inst hfetch).mpr
    ⟨emit_allocated inst hdp henc hi, exec_emit inst hdp henc hi⟩

theorem encodeInstruction_means_iff (inst : Instruction) (hdp : inst.IsDataProcessing)
    {bytes : List (BitVec 8)} (h : encodeInstruction inst = .ok bytes) :
    Means bytes inst ↔ inst.Encodable := by
  constructor
  · intro hmeans
    by_contra henc
    obtain ⟨i, hi, hfetch⟩ := encodeInstruction_emit inst hdp h
    exact emit_not_encodable inst hdp henc hi ((means_iff_emit inst hfetch).mp hmeans)
  · intro henc
    exact means_of_encodable hdp henc h

theorem encodeInstruction_means_iff_add :
    Means [0x20#8, 0x00#8, 0x02#8, 0x8B#8]
        (.threeOperand .add .x (.register (.x 0)) (.register (.x 1)) (.register (.x 2))) ↔
      (Instruction.threeOperand .add .x (.register (.x 0)) (.register (.x 1))
        (.register (.x 2))).Encodable :=
  encodeInstruction_means_iff
    (.threeOperand .add .x (.register (.x 0)) (.register (.x 1)) (.register (.x 2)))
    ⟨.inr rfl, ⟨0, rfl⟩, ⟨1, rfl⟩, .inl ⟨2, rfl⟩⟩ rfl

/-- `EOR X0, X1, X2` is encoded as `ANDS X0, X1, X2`. -/
theorem encodeInstruction_eor :
    let eor := Instruction.threeOperand .eor .x (.register (.x 0)) (.register (.x 1))
      (.register (.x 2))
    eor.IsDataProcessing ∧ encodeInstruction eor = .ok [0x20#8, 0x00#8, 0x02#8, 0xEA#8] ∧
      ¬ Means [0x20#8, 0x00#8, 0x02#8, 0xEA#8] eor := by
  intro eor
  have hdp : eor.IsDataProcessing := ⟨.inr rfl, ⟨0, rfl⟩, ⟨1, rfl⟩, .inl ⟨2, rfl⟩⟩
  refine ⟨hdp, rfl, ?_⟩
  rw [means_iff_emit eor (i := .logicalShifted 1#1 3#2 0#2 0#1 2#5 0#6 1#5 0#5) rfl]
  exact emit_not_encodable eor hdp id rfl

end Encoder

end DinoRisc.Arm64
