import DinoRisc.Lowering.LivenessAnalysis

namespace DinoRisc

open Arm64

def availableRegisters : List Register := (List.finRange 28).map fun n => .x (n.castLE (by omega)).succ

structure ActiveInterval where
  interval : LiveInterval
  physicalReg : Register

structure RegisterAllocator where
  allocation : VirtualRegister → Option Register
  activeIntervals : List ActiveInterval

namespace RegisterAllocator

def init : RegisterAllocator := ⟨fun _ => none, []⟩

def getNextAvailableRegister (s : RegisterAllocator) : Option Register :=
  availableRegisters.find? fun reg => s.activeIntervals.all fun active => active.physicalReg ≠ reg

def expireOldIntervals (currentPoint : ℕ) (s : RegisterAllocator) : RegisterAllocator :=
  { s with activeIntervals :=
      s.activeIntervals.filter fun active => ¬ active.interval.stop < currentPoint }

def allocateInterval (interval : LiveInterval) (s : RegisterAllocator) : Option RegisterAllocator :=
  let s := s.expireOldIntervals interval.start
  s.getNextAvailableRegister.map fun physReg =>
    { allocation := Function.update s.allocation interval.virtualRegister (some physReg)
      activeIntervals := s.activeIntervals ++ [⟨interval, physReg⟩] }

def allocateIntervals : List LiveInterval → RegisterAllocator → Option RegisterAllocator
  | [], s => some s
  | interval :: rest, s => (s.allocateInterval interval).bind (allocateIntervals rest)

def getPhysicalRegisterOrThrow (s : RegisterAllocator) (vreg : VirtualRegister) :
    Except Error Register :=
  match s.allocation vreg with
  | some reg => .ok reg
  | none =>
    .error (.lowering ("No physical register assigned to virtual register " ++ toString vreg))

def replaceOperandRegister (s : RegisterAllocator) : Operand → Except Error Operand
  | .virtual vreg => do return .register (← s.getPhysicalRegisterOrThrow vreg)
  | operand => .ok operand

def replaceVirtualRegisters (s : RegisterAllocator) : Instruction → Except Error Instruction
  | .threeOperand opcode size dest src1 src2 => do
    return .threeOperand opcode size (← s.replaceOperandRegister dest)
      (← s.replaceOperandRegister src1) (← s.replaceOperandRegister src2)
  | .twoOperand opcode size dest src => do
    return .twoOperand opcode size (← s.replaceOperandRegister dest) (← s.replaceOperandRegister src)
  | .memory opcode size reg baseReg offset => do
    return .memory opcode size (← s.replaceOperandRegister reg) (← s.replaceOperandRegister baseReg)
      offset
  | .moveWide opcode size dest imm16 shift => do
    return .moveWide opcode size (← s.replaceOperandRegister dest) imm16 shift
  | .branch opcode target => .ok (.branch opcode target)
  | .conditional opcode size dest condition => do
    return .conditional opcode size (← s.replaceOperandRegister dest) condition
  | .conditionalSelect opcode size dest src1 src2 condition => do
    return .conditionalSelect opcode size (← s.replaceOperandRegister dest)
      (← s.replaceOperandRegister src1) (← s.replaceOperandRegister src2) condition

/-- The result and the instructions afterwards; on failure they are as before. -/
def allocateRegisters (instructions : List Instruction) (liveIntervals : List LiveInterval) :
    Except Error (Bool × List Instruction) :=
  match allocateIntervals liveIntervals init with
  | none => .ok (false, instructions)
  | some s => do return (true, ← instructions.mapM s.replaceVirtualRegisters)

end RegisterAllocator

end DinoRisc
