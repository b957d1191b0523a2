import DinoRisc.Arm64.Emitted
import DinoRisc.Arm64.Run

/-!
What an instruction reads and writes. Its effect depends on what it reads only, so a renaming of
the registers that keeps what is read keeps the effect.
-/

namespace DinoRisc.Arm64

open ByteMemory
open A64 (Flags subFlags)

def Place.rename (ρ : VirtualRegister → Register) : Place → Place
  | .virtual vreg => .physical (ρ vreg)
  | .physical reg => .physical reg

theorem Place.rename_physical (ρ : VirtualRegister → Register) (p : Place) :
    ∃ reg, p.rename ρ = .physical reg := by
  cases p with
  | physical reg => exact ⟨reg, rfl⟩
  | virtual vreg => exact ⟨ρ vreg, rfl⟩

def Place.operand : Place → Operand
  | .virtual vreg => .virtual vreg
  | .physical reg => .register reg

theorem Operand.place_eq_some {operand : Operand} {p : Place} :
    operand.place = some p ↔ operand = p.operand := by
  cases operand <;> cases p <;> simp [Operand.place, Place.operand]

theorem Operand.place_rename (ρ : VirtualRegister → Register) (operand : Operand) :
    (operand.rename ρ).place = operand.place.map (Place.rename ρ) := by
  cases operand <;> rfl

namespace Instruction

def reads : Instruction → List Operand
  | .threeOperand _ _ _ src1 src2 => [src1, src2]
  | .twoOperand .cmp _ dest src => [dest, src]
  | .twoOperand _ _ _ src => [src]
  | .memory .str _ reg baseReg _ => [reg, baseReg]
  | .memory _ _ _ baseReg _ => [baseReg]
  | .moveWide .movk _ dest _ _ => [dest]
  | .moveWide .. | .branch .. | .conditional .. => []
  | .conditionalSelect _ _ _ src1 src2 _ => [src1, src2]

def sources (inst : Instruction) : List Place := inst.reads.filterMap Operand.place

def target : Instruction → Option Place
  | .threeOperand .cmp .. | .twoOperand .cmp .. | .twoOperand .ret .. | .memory .str .. => none
  | .threeOperand _ _ dest _ _ | .twoOperand _ _ dest _ | .moveWide _ _ dest _ _ => dest.place
  | .memory _ _ reg _ _ => reg.place
  | .conditional _ _ dest _ | .conditionalSelect _ _ dest _ _ _ => dest.place
  | .branch .. => none

inductive Effect
  | write (value : BitVec 64)
  | compare (flags : Flags)
  | store (mem : Memory 64)
  | jump (target : BitVec 64)

def Effect.apply (m : Machine) (target : Option Place) : Effect → Option Outcome
  | .write value => target.map fun p => .next (m.set p value)
  | .compare flags => some (.next { m with flags := flags })
  | .store mem => some (.next { m with mem := mem })
  | .jump address => some (.jump m address)

def effect (read : Operand → BitVec 64) (flags : Flags) (mem : Memory 64) :
    Instruction → Option Effect
  | .threeOperand .cmp size _ src1 src2 | .twoOperand .cmp size src1 src2 =>
    some (.compare (subFlags ((read src1).setWidth size.width) ((read src2).setWidth size.width)))
  | .threeOperand opcode size _ src1 src2 =>
    (opcode.compute ((read src1).setWidth size.width) ((read src2).setWidth size.width)).map
      fun value => .write (size.result value)
  | .twoOperand .ret _ _ src => some (.jump (read src))
  | .twoOperand opcode size _ src =>
    (opcode.convert ((read src).setWidth size.width)).map fun value => .write (size.result value)
  | .memory .ldr size _ baseReg offset =>
    some (.write (load mem (read baseReg + offset.signExtend 64) size.bytes))
  | .memory .str size reg baseReg offset =>
    some (.store (store mem (read baseReg + offset.signExtend 64) size.bytes (read reg)))
  | .moveWide .movz size _ imm16 shift =>
    some (.write (size.result (imm16.setWidth size.width <<< shift.toNat)))
  | .moveWide .movk size dest imm16 shift =>
    some (.write (size.result ((((read dest).setWidth size.width) &&&
      ~~~((0xFFFF#16).setWidth size.width <<< shift.toNat)) |||
      imm16.setWidth size.width <<< shift.toNat)))
  | .conditional .cset _ _ condition =>
    some (.write (if condition.holds flags then 1#64 else 0#64))
  | .conditionalSelect .csel size _ src1 src2 condition =>
    some (.write (size.result
      ((if condition.holds flags then read src1 else read src2).setWidth size.width)))
  | _ => none

variable {inst : Instruction} {p : Place} {ρ : VirtualRegister → Register} {read read' : Operand → BitVec 64}

theorem exec_eq_effect (inst : Instruction) (m : Machine) :
    exec inst m = (inst.effect m.read m.flags m.mem).bind (·.apply m inst.target) := by
  have hwrite (dest : Operand) (value : BitVec 64) :
      (m.write dest value).map Outcome.next = dest.place.map fun p => .next (m.set p value) := by
    rw [Machine.write, Option.map_map]
    rfl
  cases inst with
  | threeOperand opcode size dest src1 src2 =>
    cases opcode <;>
      simp [exec, effect, target, Effect.apply, Machine.compare, Opcode.compute, hwrite]
  | twoOperand opcode size dest src =>
    cases opcode <;>
      simp [exec, effect, target, Effect.apply, Machine.compare, Opcode.convert, hwrite]
  | memory opcode size reg baseReg offset =>
    cases opcode <;> simp [exec, effect, target, Effect.apply, Machine.address, hwrite]
  | moveWide opcode size dest imm16 shift =>
    cases opcode <;> simp [exec, effect, target, Effect.apply, hwrite]
  | branch opcode target => rfl
  | conditional opcode size dest condition =>
    cases opcode <;> simp [exec, effect, target, Effect.apply, hwrite]
  | conditionalSelect opcode size dest src1 src2 condition =>
    cases opcode <;> simp [exec, effect, target, Effect.apply, hwrite]

theorem target_of_effect {flags : Flags} {mem : Memory 64} {effect : Effect}
    (h : inst.effect read flags mem = some effect) :
    (∃ value, effect = .write value) ∨ inst.target = none := by
  cases inst with
  | branch opcode target => cases h
  | threeOperand opcode | twoOperand opcode | memory opcode | moveWide opcode
  | conditional opcode | conditionalSelect opcode =>
    cases opcode <;> simp_all [Instruction.effect, target] <;> grind

theorem effect_congr (flags : Flags) (mem : Memory 64)
    (h : ∀ operand ∈ inst.reads, read operand = read' operand) :
    inst.effect read flags mem = inst.effect read' flags mem := by
  cases inst with
  | threeOperand opcode size dest src1 src2 =>
    have h1 := h src1 (by simp [reads])
    have h2 := h src2 (by simp [reads])
    cases opcode <;> simp only [effect, h1, h2]
  | twoOperand opcode size dest src =>
    have hsrc := h src (by cases opcode <;> simp [reads])
    cases opcode
    case cmp => simp only [effect, hsrc, h dest (by simp [reads])]
    all_goals simp only [effect, hsrc]
  | memory opcode size reg baseReg offset =>
    have hbase := h baseReg (by cases opcode <;> simp [reads])
    cases opcode
    case str => simp only [effect, hbase, h reg (by simp [reads])]
    all_goals simp only [effect, hbase]
  | moveWide opcode size dest imm16 shift =>
    cases opcode
    case movk => simp only [effect, h dest (by simp [reads])]
    all_goals simp only [effect]
  | branch opcode target => rfl
  | conditional opcode size dest condition => cases opcode <;> rfl
  | conditionalSelect opcode size dest src1 src2 condition =>
    have h1 := h src1 (by simp [reads])
    have h2 := h src2 (by simp [reads])
    cases opcode <;> simp only [effect, h1, h2]

theorem effect_rename (inst : Instruction) (ρ : VirtualRegister → Register)
    (read : Operand → BitVec 64) (flags : Flags) (mem : Memory 64) :
    (inst.rename ρ).effect read flags mem =
      inst.effect (fun operand => read (operand.rename ρ)) flags mem := by
  cases inst with
  | branch opcode target => rfl
  | threeOperand opcode | twoOperand opcode | memory opcode | moveWide opcode
  | conditional opcode | conditionalSelect opcode => cases opcode <;> rfl

theorem mem_operands_of_target (h : inst.target = some p) : p.operand ∈ inst.operands := by
  cases inst with
  | branch opcode target => cases h
  | threeOperand opcode | twoOperand opcode | memory opcode | moveWide opcode
  | conditional opcode | conditionalSelect opcode =>
    cases opcode <;> first
      | (rw [← Operand.place_eq_some.mp h]; simp [operands])
      | cases h

theorem reads_subset (inst : Instruction) : inst.reads ⊆ inst.operands := by
  cases inst with
  | branch opcode target => exact List.nil_subset _
  | threeOperand opcode | twoOperand opcode | memory opcode | moveWide opcode
  | conditional opcode | conditionalSelect opcode => cases opcode <;> simp [reads, operands]

theorem mem_operands_of_source (h : p ∈ inst.sources) : p.operand ∈ inst.operands := by
  obtain ⟨operand, hread, hplace⟩ := List.mem_filterMap.mp h
  rw [← Operand.place_eq_some.mp hplace]
  exact inst.reads_subset hread

theorem target_rename (inst : Instruction) (ρ : VirtualRegister → Register) :
    (inst.rename ρ).target = inst.target.map (Place.rename ρ) := by
  cases inst with
  | branch opcode target => rfl
  | threeOperand opcode | twoOperand opcode | memory opcode | moveWide opcode
  | conditional opcode | conditionalSelect opcode =>
    cases opcode <;> first
      | rfl
      | exact Operand.place_rename ρ _

theorem reads_rename (inst : Instruction) (ρ : VirtualRegister → Register) :
    (inst.rename ρ).reads = inst.reads.map (Operand.rename ρ) := by
  cases inst with
  | branch opcode target => rfl
  | threeOperand opcode | twoOperand opcode | memory opcode | moveWide opcode
  | conditional opcode | conditionalSelect opcode => cases opcode <;> rfl

theorem sources_rename (inst : Instruction) (ρ : VirtualRegister → Register) :
    (inst.rename ρ).sources = inst.sources.map (Place.rename ρ) := by
  rw [sources, reads_rename, List.filterMap_map, sources, List.map_filterMap]
  congr 1
  funext operand
  exact Operand.place_rename ρ operand

theorem rename_rename (inst : Instruction) (ρ ρ' : VirtualRegister → Register) :
    (inst.rename ρ).rename ρ' = inst.rename ρ := by
  have hoperand (operand : Operand) : (operand.rename ρ).rename ρ' = operand.rename ρ := by
    cases operand <;> rfl
  cases inst <;> simp [rename, hoperand]

end Instruction

theorem exec_frame {inst : Instruction} {m n : Machine} {p : Place}
    (h : exec inst m = some (.next n)) (hp : inst.target ≠ some p) : n.reg p = m.reg p := by
  rw [Instruction.exec_eq_effect] at h
  obtain ⟨effect, -, happly⟩ := Option.bind_eq_some_iff.mp h
  cases effect with
  | write value =>
    obtain ⟨d, hd, heq⟩ := Option.map_eq_some_iff.mp happly
    cases heq
    refine Machine.set_reg_ne _ _ _ ?_
    rintro rfl
    exact hp hd
  | compare flags | store mem =>
    cases happly
    rfl
  | jump address => cases happly

theorem exec_rename {inst : Instruction} {ρ : VirtualRegister → Register} {m m' : Machine}
    (hsources : ∀ p ∈ inst.sources, m'.reg (p.rename ρ) = m.reg p) (hflags : m'.flags = m.flags)
    (hmem : m'.mem = m.mem) :
    (inst.effect m.read m.flags m.mem).bind (·.apply m' (inst.target.map (Place.rename ρ))) =
      exec (inst.rename ρ) m' := by
  have hread : ∀ operand ∈ inst.reads, m.read operand = m'.read (operand.rename ρ) := by
    intro operand hmem
    cases operand with
    | immediate value => rfl
    | register reg =>
      exact (hsources (.physical reg) (List.mem_filterMap.mpr ⟨_, hmem, rfl⟩)).symm
    | virtual vreg =>
      exact (hsources (.virtual vreg) (List.mem_filterMap.mpr ⟨_, hmem, rfl⟩)).symm
  rw [Instruction.exec_eq_effect, Instruction.effect_rename, Instruction.target_rename, hflags,
    hmem, Instruction.effect_congr m.flags m.mem hread]

/-! ### Places that are written before they are read -/

/-- Every instruction reads places of `scope` or places written before it. -/
def Scoped : Set Place → List Instruction → Prop
  | _, [] => True
  | scope, inst :: rest =>
    (∀ p ∈ inst.sources, p ∈ scope) ∧ Scoped (scope ∪ {p | inst.target = some p}) rest

def targets (code : List Instruction) : Set Place := {p | ∃ inst ∈ code, inst.target = some p}

theorem targets_cons (inst : Instruction) (code : List Instruction) :
    targets (inst :: code) = {p | inst.target = some p} ∪ targets code := by
  ext p
  simp [targets]

theorem targets_append (code code' : List Instruction) :
    targets (code ++ code') = targets code ∪ targets code' := by
  ext p
  simp [targets, or_and_right, exists_or]

namespace Scoped

variable {scope scope' : Set Place} {code code' before after : List Instruction}
  {inst : Instruction}

theorem mono (h : Scoped scope code) (hsub : scope ⊆ scope') : Scoped scope' code := by
  induction code generalizing scope scope' with
  | nil => trivial
  | cons inst rest ih =>
    exact ⟨fun p hp => hsub (h.1 p hp), ih h.2 (Set.union_subset_union_left _ hsub)⟩

theorem append (h : Scoped scope code) (h' : Scoped (scope ∪ targets code) code') :
    Scoped scope (code ++ code') := by
  induction code generalizing scope with
  | nil => exact h'.mono (by simp [targets])
  | cons inst rest ih =>
    refine ⟨h.1, ih h.2 ?_⟩
    rwa [targets_cons, ← Set.union_assoc] at h'

theorem split (h : Scoped scope (before ++ inst :: after)) :
    ∀ p ∈ inst.sources, p ∈ scope ∪ targets before := by
  induction before generalizing scope with
  | nil => exact fun p hp => .inl (h.1 p hp)
  | cons first rest ih =>
    intro p hp
    have hrest := ih h.2 p hp
    rwa [Set.union_assoc, ← targets_cons] at hrest

theorem rename (h : Scoped scope code) (ρ : VirtualRegister → Register) :
    Scoped (Place.rename ρ '' scope) (code.map (Instruction.rename ρ)) := by
  induction code generalizing scope with
  | nil => trivial
  | cons inst rest ih =>
    constructor
    · intro p hp
      rw [Instruction.sources_rename] at hp
      obtain ⟨q, hq, rfl⟩ := List.mem_map.mp hp
      exact Set.mem_image_of_mem _ (h.1 q hq)
    · refine (ih h.2).mono ?_
      rw [Set.image_union]
      apply Set.union_subset_union_right
      rintro _ ⟨q, hq, rfl⟩
      rw [Set.mem_ofPred_eq, Instruction.target_rename, hq]
      rfl

end Scoped

theorem reaches_of_emitted {code : List Instruction} (h : ∀ inst ∈ code, inst.Emitted)
    (m : Machine) : ∃ n, Reaches code m n ∧ ∀ p, p ∉ targets code → n.reg p = m.reg p := by
  induction code generalizing m with
  | nil => exact ⟨m, .nil m, fun _ _ => rfl⟩
  | cons inst rest ih =>
    obtain ⟨hinst, hrest⟩ := List.forall_mem_cons.mp h
    obtain ⟨m', hstep⟩ := hinst.exec_next m
    obtain ⟨n, hreach, hframe⟩ := ih hrest m'
    refine ⟨n, .cons hstep hreach, fun p hp => ?_⟩
    rw [targets_cons] at hp
    rw [hframe p fun hmem => hp (.inr hmem), exec_frame hstep fun heq => hp (.inl heq)]

end DinoRisc.Arm64
