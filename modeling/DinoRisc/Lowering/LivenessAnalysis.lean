import DinoRisc.Arm64.Instruction

namespace DinoRisc

open Arm64

/-- From `start` to the last use, `stop`; both are positions in the instruction list. -/
structure LiveInterval where
  virtualRegister : VirtualRegister
  start : ℕ
  stop : ℕ
  deriving DecidableEq, Repr

def LiveInterval.overlaps (interval other : LiveInterval) : Bool :=
  !(interval.stop < other.start || interval.start > other.stop)

namespace LivenessAnalysis

def getVirtualRegisterFromOperand : Operand → Option VirtualRegister
  | .virtual vreg => some vreg
  | _ => none

def getUsedVirtualRegisters : Instruction → List VirtualRegister
  | .threeOperand _ _ _ src1 src2 => [src1, src2].filterMap getVirtualRegisterFromOperand
  | .twoOperand opcode _ dest src =>
    (if opcode = .cmp then [src, dest] else [src]).filterMap getVirtualRegisterFromOperand
  | .memory opcode _ reg baseReg _ =>
    (if opcode = .str then [baseReg, reg] else [baseReg]).filterMap getVirtualRegisterFromOperand
  | .conditionalSelect _ _ _ src1 src2 _ => [src1, src2].filterMap getVirtualRegisterFromOperand
  | .moveWide .. | .branch .. | .conditional .. => []

def getDefinedVirtualRegisters : Instruction → Option VirtualRegister
  | .threeOperand _ _ dest _ _ => getVirtualRegisterFromOperand dest
  | .twoOperand opcode _ dest _ =>
    if opcode ≠ .cmp then getVirtualRegisterFromOperand dest else none
  | .memory opcode _ reg _ _ => if opcode = .ldr then getVirtualRegisterFromOperand reg else none
  | .moveWide _ _ dest _ _ => getVirtualRegisterFromOperand dest
  | .conditional _ _ dest _ => getVirtualRegisterFromOperand dest
  | .conditionalSelect _ _ dest _ _ _ => getVirtualRegisterFromOperand dest
  | .branch .. => none

structure UseDef where
  defined : List VirtualRegister
  defSites : VirtualRegister → ℕ
  useSites : VirtualRegister → List ℕ

def UseDef.visit (s : UseDef) (inst : Instruction) (i : ℕ) : UseDef where
  defined := match getDefinedVirtualRegisters inst with
    | some vreg => s.defined.insert vreg
    | none => s.defined
  defSites := match getDefinedVirtualRegisters inst with
    | some vreg => Function.update s.defSites vreg i
    | none => s.defSites
  useSites := fun vreg =>
    if vreg ∈ getUsedVirtualRegisters inst then s.useSites vreg ++ [i] else s.useSites vreg

def computeUseDef (instructions : List Instruction) : UseDef :=
  instructions.zipIdx.foldl (fun s (inst, i) => s.visit inst i) ⟨[], fun _ => 0, fun _ => []⟩

def UseDef.interval (s : UseDef) (vreg : VirtualRegister) : LiveInterval where
  virtualRegister := vreg
  start := s.defSites vreg
  stop := match s.useSites vreg with
    | [] => s.defSites vreg
    | site :: sites => sites.foldl max site

/-- The starts are distinct, so the order in which the map is iterated does not matter. -/
def computeLiveIntervals (instructions : List Instruction) : List LiveInterval :=
  let s := computeUseDef instructions
  (s.defined.map s.interval).insertionSort fun a b => a.start ≤ b.start

end LivenessAnalysis

end DinoRisc
