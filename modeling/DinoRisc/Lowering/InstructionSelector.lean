import DinoRisc.Arm64.Instruction
import DinoRisc.IR.IR

namespace DinoRisc

open IR Arm64

def comparisonCondition : BinaryOpcode → Option Condition
  | .eq => some .eq
  | .ne => some .ne
  | .lt => some .lt
  | .le => some .le
  | .gt => some .gt
  | .ge => some .ge
  | .ltU => some .cc
  | .leU => some .ls
  | .gtU => some .hi
  | .geU => some .cs
  | _ => none

def REGISTER_SIZE_BYTES : ℕ := 8

/-- `offsetof(GuestState, shadowMemory)` -/
def SHADOW_MEMORY_OFFSET : ℕ := 264

/-- `offsetof(GuestState, guestMemoryBase)` -/
def GUEST_MEMORY_BASE_OFFSET : ℕ := 280

/-- The state of an `InstructionSelector`, with its two maps as functions. -/
structure InstructionSelector where
  nextVirtualReg : VirtualRegister
  irToVReg : ValueId → Option VirtualRegister
  valueTypes : ValueId → Option Ty

namespace InstructionSelector

abbrev Code := List Arm64.Instruction

def init : InstructionSelector where
  nextVirtualReg := 0
  irToVReg := fun _ => none
  valueTypes := fun _ => none

def getVirtualRegisterOrThrow (valueId : ValueId) (s : InstructionSelector) :
    Except Error VirtualRegister :=
  match s.irToVReg valueId with
  | some vreg => .ok vreg
  | none => .error (.lowering ("No virtual register assigned to IR value " ++ toString valueId))

def takeVirtualReg (s : InstructionSelector) : VirtualRegister × InstructionSelector :=
  (s.nextVirtualReg, { s with nextVirtualReg := s.nextVirtualReg + 1 })

def assignVirtualRegister (valueId : ValueId) (s : InstructionSelector) :
    VirtualRegister × InstructionSelector :=
  match s.irToVReg valueId with
  | some vreg => (vreg, s)
  | none =>
    let (vreg, s) := s.takeVirtualReg
    (vreg, { s with irToVReg := Function.update s.irToVReg valueId (some vreg) })

def recordValueType (valueId : ValueId) (type : Ty) (s : InstructionSelector) :
    InstructionSelector :=
  { s with valueTypes := Function.update s.valueTypes valueId (some type) }

def getValueType (valueId : ValueId) (s : InstructionSelector) : Ty :=
  (s.valueTypes valueId).getD .i64

def irTypeToDataSize : Ty → DataSize
  | .i1 | .i8 => .b
  | .i16 => .h
  | .i32 => .w
  | .i64 => .x

def irBinaryOpToARM64 : BinaryOpcode → Except Error Opcode
  | .add => .ok .add
  | .sub => .ok .sub
  | .mul => .ok .mul
  | .divU => .ok .udiv
  | .div => .ok .sdiv
  | .and => .ok .and
  | .or => .ok .orr
  | .xor => .ok .eor
  | .shl => .ok .lsl
  | .shr => .ok .lsr
  | .sar => .ok .asr
  | _ => .error (.lowering "Unexpected opcode in irBinaryOpToARM64")

/-- The loop over the 16-bit chunks of a constant; a zero chunk is left out. -/
def selectChunks (dataSize : DataSize) (targetOperand : Operand) (value : BitVec 64)
    (firstChunk : Bool) : List ℕ → Code
  | [] => if firstChunk then [.moveWide .movz dataSize targetOperand 0#16 0#8] else []
  | shift :: shifts =>
    let chunk := (value >>> shift).setWidth 16
    if chunk = 0#16 then selectChunks dataSize targetOperand value firstChunk shifts
    else
      .moveWide (if firstChunk then .movz else .movk) dataSize targetOperand chunk
        (BitVec.ofNat 8 shift) :: selectChunks dataSize targetOperand value false shifts

def selectConstIntoRegister (type : Ty) (value : BitVec 64) (targetOperand : Operand) : Code :=
  let dataSize := irTypeToDataSize type
  if value.toInt < 0 ∧ -65536 ≤ value.toInt then
    [.twoOperand .movn dataSize targetOperand (.immediate (~~~value))]
  else if 0 ≤ value.toInt ∧ value.toInt ≤ 0xFFFF then
    [.twoOperand .mov dataSize targetOperand (.immediate value)]
  else selectChunks dataSize targetOperand value true [0, 16, 32, 48]

def selectConst (type : Ty) (value : BitVec 64) (resultId : ValueId) (s : InstructionSelector) :
    Code × InstructionSelector :=
  let (destReg, s) := s.assignVirtualRegister resultId
  (selectConstIntoRegister type value (.virtual destReg), s)

def selectBinaryOp (opcode : BinaryOpcode) (type : Ty) (lhs rhs resultId : ValueId)
    (s : InstructionSelector) : Except Error (Code × InstructionSelector) := do
  let (destReg, s) := s.assignVirtualRegister resultId
  let lhsReg ← s.getVirtualRegisterOrThrow lhs
  let rhsReg ← s.getVirtualRegisterOrThrow rhs
  match comparisonCondition opcode with
  | some condition =>
    return ([.twoOperand .cmp .x (.virtual lhsReg) (.virtual rhsReg),
      .conditional .cset .x (.virtual destReg) condition], s)
  | none =>
    let op ← irBinaryOpToARM64 opcode
    return ([.threeOperand op (irTypeToDataSize type) (.virtual destReg) (.virtual lhsReg)
      (.virtual rhsReg)], s)

def generateAddressTranslation (guestAddrReg : VirtualRegister) (s : InstructionSelector) :
    Code × VirtualRegister × InstructionSelector :=
  let (hostAddrReg, s) := s.takeVirtualReg
  let (guestBaseReg, s) := s.takeVirtualReg
  let (shadowBaseReg, s) := s.takeVirtualReg
  ([.memory .ldr .x (.virtual guestBaseReg) X0 (BitVec.ofNat 32 GUEST_MEMORY_BASE_OFFSET),
    .memory .ldr .x (.virtual shadowBaseReg) X0 (BitVec.ofNat 32 SHADOW_MEMORY_OFFSET),
    .threeOperand .sub .x (.virtual hostAddrReg) (.virtual guestAddrReg) (.virtual guestBaseReg),
    .threeOperand .add .x (.virtual hostAddrReg) (.virtual hostAddrReg) (.virtual shadowBaseReg)],
    hostAddrReg, s)

def selectLoad (type : Ty) (address resultId : ValueId) (s : InstructionSelector) :
    Except Error (Code × InstructionSelector) := do
  let (destReg, s) := s.assignVirtualRegister resultId
  let guestAddrReg ← s.getVirtualRegisterOrThrow address
  let (addrTranslation, hostAddrReg, s) := s.generateAddressTranslation guestAddrReg
  return (addrTranslation ++
    [.memory .ldr (irTypeToDataSize type) (.virtual destReg) (.virtual hostAddrReg) 0#32], s)

def selectStore (value address : ValueId) (s : InstructionSelector) :
    Except Error (Code × InstructionSelector) := do
  let valueReg ← s.getVirtualRegisterOrThrow value
  let guestAddrReg ← s.getVirtualRegisterOrThrow address
  let valueType := s.getValueType value
  let (addrTranslation, hostAddrReg, s) := s.generateAddressTranslation guestAddrReg
  return (addrTranslation ++
    [.memory .str (irTypeToDataSize valueType) (.virtual valueReg) (.virtual hostAddrReg) 0#32], s)

def selectSext (toType : Ty) (operand resultId : ValueId) (s : InstructionSelector) :
    Except Error (Code × InstructionSelector) := do
  let (destReg, s) := s.assignVirtualRegister resultId
  let srcReg ← s.getVirtualRegisterOrThrow operand
  let opcode : Opcode := match s.getValueType operand with
    | .i8 => .sxtb
    | .i16 => .sxth
    | .i32 => .sxtw
    | _ => .mov
  return ([.twoOperand opcode (irTypeToDataSize toType) (.virtual destReg) (.virtual srcReg)], s)

def selectZext (toType : Ty) (operand resultId : ValueId) (s : InstructionSelector) :
    Except Error (Code × InstructionSelector) := do
  let (destReg, s) := s.assignVirtualRegister resultId
  let srcReg ← s.getVirtualRegisterOrThrow operand
  let opcode : Opcode := match s.getValueType operand with
    | .i8 => .uxtb
    | .i16 => .uxth
    | _ => .mov
  return ([.twoOperand opcode (irTypeToDataSize toType) (.virtual destReg) (.virtual srcReg)], s)

def selectTrunc (toType : Ty) (operand resultId : ValueId) (s : InstructionSelector) :
    Except Error (Code × InstructionSelector) := do
  let (destReg, s) := s.assignVirtualRegister resultId
  let srcReg ← s.getVirtualRegisterOrThrow operand
  return ([.twoOperand .mov (irTypeToDataSize toType) (.virtual destReg) (.virtual srcReg)], s)

def selectRegRead (regNumber : ℕ) (resultId : ValueId) (s : InstructionSelector) :
    Code × InstructionSelector :=
  let (destReg, s) := s.assignVirtualRegister resultId
  let offset := BitVec.ofNat 32 (regNumber * REGISTER_SIZE_BYTES)
  ([.memory .ldr .x (.virtual destReg) X0 offset], s)

def selectRegWrite (regNumber : ℕ) (value : ValueId) (s : InstructionSelector) :
    Except Error (Code × InstructionSelector) := do
  let valueReg ← s.getVirtualRegisterOrThrow value
  let offset := BitVec.ofNat 32 (regNumber * REGISTER_SIZE_BYTES)
  return ([.memory .str .x (.virtual valueReg) X0 offset], s)

def selectInstruction (inst : IR.Instruction) (s : InstructionSelector) :
    Except Error (Code × InstructionSelector) :=
  match inst.kind with
  | .binaryOp opcode type lhs rhs =>
    (s.recordValueType inst.valueId type).selectBinaryOp opcode type lhs rhs inst.valueId
  | .load type address =>
    (s.recordValueType inst.valueId type).selectLoad type address inst.valueId
  | .store value address => s.selectStore value address
  | .const type value => .ok ((s.recordValueType inst.valueId type).selectConst type value inst.valueId)
  | .sext toType operand =>
    (s.recordValueType inst.valueId toType).selectSext toType operand inst.valueId
  | .zext toType operand =>
    (s.recordValueType inst.valueId toType).selectZext toType operand inst.valueId
  | .trunc toType operand =>
    (s.recordValueType inst.valueId toType).selectTrunc toType operand inst.valueId
  | .regRead regNumber =>
    .ok ((s.recordValueType inst.valueId .i64).selectRegRead regNumber inst.valueId)
  | .regWrite regNumber value => s.selectRegWrite regNumber value

def selectRet : Code := [.twoOperand .ret .x X30 X30]

def selectCondBranch (condition : ValueId) (trueBlock falseBlock : BitVec 64)
    (s : InstructionSelector) : Except Error (Code × InstructionSelector) := do
  let condReg ← s.getVirtualRegisterOrThrow condition
  let cmp := .twoOperand .cmp .x (.virtual condReg) (.immediate 0#64)
  -- the ids of the two constants are taken from the counter of the virtual registers
  let (trueValueId, s) := s.takeVirtualReg
  let (trueTempReg, s) := s.assignVirtualRegister trueValueId
  let (trueInsts, s) := s.selectConst .i64 trueBlock trueValueId
  let (falseValueId, s) := s.takeVirtualReg
  let (falseTempReg, s) := s.assignVirtualRegister falseValueId
  let (falseInsts, s) := s.selectConst .i64 falseBlock falseValueId
  let (targetReg, s) := s.takeVirtualReg
  return (cmp :: trueInsts ++ falseInsts ++
    [.conditionalSelect .csel .x (.virtual targetReg) (.virtual trueTempReg)
      (.virtual falseTempReg) .ne, .twoOperand .mov .x X0 (.virtual targetReg)] ++ selectRet, s)

def selectTerminator (term : Terminator) (s : InstructionSelector) :
    Except Error (Code × InstructionSelector) :=
  match term with
  | .branch targetBlock => .ok (selectConstIntoRegister .i64 targetBlock X0 ++ selectRet, s)
  | .condBranch condition trueBlock falseBlock =>
    s.selectCondBranch condition trueBlock falseBlock
  | .ret (some value) => do
    let srcReg ← s.getVirtualRegisterOrThrow value
    return (.twoOperand .mov .x X0 (.virtual srcReg) :: selectRet, s)
  -- next-PC = 0 so the dispatcher stops
  | .ret none => .ok (selectConstIntoRegister .i64 0#64 X0 ++ selectRet, s)

def selectAll : List IR.Instruction → InstructionSelector → Except Error (Code × InstructionSelector)
  | [], s => .ok ([], s)
  | inst :: rest, s => do
    let (selected, s) ← s.selectInstruction inst
    let (result, s) ← selectAll rest s
    return (selected ++ result, s)

def selectInstructions (block : BasicBlock) (s : InstructionSelector) :
    Except Error (Code × InstructionSelector) := do
  let (result, s) ← s.selectAll block.instructions
  let (termSelected, s) ← s.selectTerminator block.terminator
  return (result ++ termSelected, s)

end InstructionSelector

end DinoRisc
