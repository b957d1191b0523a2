import DinoRisc.Arm64.Exec

/-! Straight-line code: it reaches one machine from another, whatever comes after it. -/

namespace DinoRisc.Arm64

open ByteMemory

theorem virtual_ne {l r : VirtualRegister} (h : l < r) : Place.virtual l ≠ .virtual r := by
  rintro heq
  cases heq
  exact Nat.lt_irrefl _ h

inductive Reaches : List Instruction → Machine → Machine → Prop
  | nil (m : Machine) : Reaches [] m m
  | cons {inst : Instruction} {code : List Instruction} {m m' m'' : Machine}
    (hstep : exec inst m = some (.next m')) (h : Reaches code m' m'') : Reaches (inst :: code) m m''

/-- The accesses of code to addresses that are not based on `X0`. -/
def Instruction.access (m : Machine) : Instruction → Option (BitVec 64 × ℕ)
  | .memory _ size _ baseReg offset =>
    if baseReg = .register (.x 0) then none else some (m.address baseReg offset, size.bytes)
  | _ => none

def accesses : List Instruction → Machine → List (BitVec 64 × ℕ)
  | [], _ => []
  | inst :: rest, m => (inst.access m).toList ++
    match exec inst m with
    | some (.next m') => accesses rest m'
    | _ => []

/-- The load or store of an instruction. -/
def Instruction.transfer (m : Machine) : Instruction → Option A64.Access
  | .memory opcode size _ baseReg offset =>
    some ⟨opcode = .str, m.address baseReg offset, size.bytes⟩
  | _ => none

def transfers : List Instruction → Machine → List A64.Access
  | [], _ => []
  | inst :: rest, m => (inst.transfer m).toList ++
    match exec inst m with
    | some (.next m') => transfers rest m'
    | _ => []

namespace Reaches

variable {code code' : List Instruction} {inst : Instruction} {m m' m'' : Machine}

theorem single (hstep : exec inst m = some (.next m')) : Reaches [inst] m m' :=
  cons hstep (nil _)

theorem append (h : Reaches code m m') (h' : Reaches code' m' m'') :
    Reaches (code ++ code') m m'' := by
  induction h with
  | nil m => exact h'
  | cons hstep _ ih => exact cons hstep (ih h')

theorem run (h : Reaches code m m') (rest : List Instruction) :
    Arm64.run (code ++ rest) m = Arm64.run rest m' := by
  induction h with
  | nil m => rfl
  | cons hstep _ ih => rw [List.cons_append, Arm64.run, hstep, ← ih]

theorem transfers (h : Reaches code m m') (rest : List Instruction) :
    Arm64.transfers (code ++ rest) m = Arm64.transfers code m ++ Arm64.transfers rest m' := by
  induction h with
  | nil m => rfl
  | cons hstep _ ih =>
    rw [List.cons_append, Arm64.transfers, Arm64.transfers, hstep, List.append_assoc]
    exact congrArg _ ih

theorem accesses (h : Reaches code m m') (rest : List Instruction) :
    Arm64.accesses (code ++ rest) m = Arm64.accesses code m ++ Arm64.accesses rest m' := by
  induction h with
  | nil m => rfl
  | cons hstep _ ih =>
    rw [List.cons_append, Arm64.accesses, Arm64.accesses, hstep, List.append_assoc]
    exact congrArg _ ih

end Reaches

theorem accesses_single (inst : Instruction) (m : Machine) :
    accesses [inst] m = (inst.access m).toList := by
  rw [accesses]
  split <;> simp [accesses]

theorem accesses_eq_nil {code : List Instruction}
    (h : ∀ inst ∈ code, ∀ m, inst.access m = none) (m : Machine) : accesses code m = [] := by
  induction code generalizing m with
  | nil => rfl
  | cons inst rest ih =>
    have hrest := ih fun i hi => h i (List.mem_cons_of_mem inst hi)
    rw [accesses, h inst List.mem_cons_self]
    split
    · exact hrest _
    · rfl

theorem Instruction.transfer_cases {inst : Instruction} {m : Machine} {access : A64.Access}
    (h : inst.transfer m = some access) :
    inst.access m = some (access.address, access.size) ∨ ∃ opcode size reg offset,
      inst = .memory opcode size reg (.register (.x 0)) offset ∧
        access = ⟨opcode = .str, m.address (.register (.x 0)) offset, size.bytes⟩ := by
  cases inst with
  | memory opcode size reg baseReg offset =>
    cases h
    by_cases hbase : baseReg = .register (.x 0)
    · exact .inr ⟨opcode, size, reg, offset, by rw [hbase], by rw [hbase]⟩
    · exact .inl (if_neg hbase)
  | _ => cases h

theorem Instruction.access_eq_none {inst : Instruction} {m : Machine} (h : inst.transfer m = none) :
    inst.access m = none := by
  cases inst with
  | memory => cases h
  | _ => rfl

theorem transfers_eq_nil {code : List Instruction}
    (h : ∀ inst ∈ code, ∀ m, inst.transfer m = none) (m : Machine) : transfers code m = [] := by
  induction code generalizing m with
  | nil => rfl
  | cons inst rest ih =>
    have hrest := ih fun i hi => h i (List.mem_cons_of_mem inst hi)
    rw [transfers, h inst List.mem_cons_self]
    split
    · exact hrest _
    · rfl

namespace Machine

def set (m : Machine) (p : Place) (value : BitVec 64) : Machine :=
  { m with reg := Function.update m.reg p value }

variable (m : Machine) (p : Place) (value : BitVec 64)

@[simp] theorem set_reg_self : (m.set p value).reg p = value := Function.update_self ..

@[simp] theorem set_reg_ne {q : Place} (h : q ≠ p) : (m.set p value).reg q = m.reg q :=
  Function.update_of_ne h ..

@[simp] theorem set_flags : (m.set p value).flags = m.flags := rfl

@[simp] theorem set_mem : (m.set p value).mem = m.mem := rfl

@[simp] theorem set_set (value' : BitVec 64) : (m.set p value).set p value' = m.set p value' := by
  simp [set]

@[simp] theorem set_same : m.set p (m.reg p) = m := by simp [set]

theorem write_eq {dest : Operand} (h : dest.place = some p) :
    m.write dest value = some (m.set p value) := by
  simp [write, h, set]

end Machine

section

variable {m : Machine} {dest src src1 src2 : Operand} {p : Place} {size : DataSize}

theorem exec_convert {opcode : Opcode} {r : BitVec size.width} (hdest : dest.place = some p)
    (hr : opcode.convert ((m.read src).setWidth size.width) = some r) :
    exec (.twoOperand opcode size dest src) m = some (.next (m.set p (size.result r))) := by
  cases opcode <;> simp only [Opcode.convert, reduceCtorEq, Option.some.injEq] at hr
  all_goals
    subst hr
    simp [exec, Opcode.convert, m.write_eq p _ hdest]

theorem exec_compute {opcode : Opcode} {r : BitVec size.width} (hdest : dest.place = some p)
    (hr : opcode.compute ((m.read src1).setWidth size.width) ((m.read src2).setWidth size.width) =
      some r) :
    exec (.threeOperand opcode size dest src1 src2) m = some (.next (m.set p (size.result r))) := by
  cases opcode <;> simp only [Opcode.compute, reduceCtorEq, Option.some.injEq] at hr
  all_goals
    subst hr
    simp [exec, Opcode.compute, m.write_eq p _ hdest]

theorem exec_ldr {offset : BitVec 32} {a : BitVec 64} (hdest : dest.place = some p)
    (ha : m.address src offset = a) :
    exec (.memory .ldr size dest src offset) m =
      some (.next (m.set p (load m.mem a size.bytes))) := by
  simp [exec, ha, m.write_eq p _ hdest]

theorem exec_cset {condition : Condition} (hdest : dest.place = some p) :
    exec (.conditional .cset size dest condition) m =
      some (.next (m.set p (if condition.holds m.flags then 1#64 else 0#64))) := by
  simp [exec, m.write_eq p _ hdest]

theorem exec_csel {condition : Condition} (hdest : dest.place = some p) :
    exec (.conditionalSelect .csel .x dest src1 src2 condition) m =
      some (.next (m.set p (if condition.holds m.flags then m.read src1 else m.read src2))) := by
  simp [exec, DataSize.result, DataSize.width, m.write_eq p _ hdest]

theorem exec_movz {imm16 : BitVec 16} {shift : BitVec 8} (hdest : dest.place = some p) :
    exec (.moveWide .movz .x dest imm16 shift) m =
      some (.next (m.set p (imm16.setWidth 64 <<< shift.toNat))) := by
  simp [exec, DataSize.result, DataSize.width, m.write_eq p _ hdest]
  rfl

theorem exec_movk {imm16 : BitVec 16} {shift : BitVec 8} (hdest : dest.place = some p) :
    exec (.moveWide .movk .x dest imm16 shift) m =
      some (.next (m.set p ((m.read dest &&& ~~~(0xFFFF#64 <<< shift.toNat)) |||
        imm16.setWidth 64 <<< shift.toNat))) := by
  simp [exec, DataSize.result, DataSize.width, m.write_eq p _ hdest]
  rfl

end

end DinoRisc.Arm64
