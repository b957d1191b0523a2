import DinoRisc.IR.IR
import DinoRisc.RiscV.Instruction

namespace DinoRisc

open RiscV IR

def REG_ZERO : ℕ := 0
def REG_RA : ℕ := 1
def JALR_ALIGN_MASK : BitVec 64 := ~~~1#64

/-- The state of a `Lifter`. The map from registers to values is a function, and the set of
modified registers a list without repetitions in the order of insertion. -/
structure Lifter where
  nextValueId : ValueId
  cachedRegisterValues : ℕ → Option ValueId
  modifiedRegisters : List ℕ
  currentInstructions : List IR.Instruction

namespace Lifter

def init : Lifter where
  nextValueId := 1
  cachedRegisterValues := fun _ => none
  modifiedRegisters := []
  currentInstructions := []

def addInstruction (kind : InstructionKind) (l : Lifter) : ValueId × Lifter :=
  let valueId := l.nextValueId
  (valueId,
    { l with
      nextValueId := valueId + 1
      currentInstructions := l.currentInstructions ++ [⟨valueId, kind⟩] })

def createConstant (type : Ty) (value : BitVec 64) (l : Lifter) : ValueId × Lifter :=
  l.addInstruction (.const type value)

def createBinaryOp (opcode : BinaryOpcode) (type : Ty) (lhs rhs : ValueId) (l : Lifter) :
    ValueId × Lifter :=
  l.addInstruction (.binaryOp opcode type lhs rhs)

def createLoad (type : Ty) (address : ValueId) (l : Lifter) : ValueId × Lifter :=
  l.addInstruction (.load type address)

def createStore (value address : ValueId) (l : Lifter) : ValueId × Lifter :=
  l.addInstruction (.store value address)

def createSext (toType : Ty) (operand : ValueId) (l : Lifter) : ValueId × Lifter :=
  l.addInstruction (.sext toType operand)

def createZext (toType : Ty) (operand : ValueId) (l : Lifter) : ValueId × Lifter :=
  l.addInstruction (.zext toType operand)

def createTrunc (toType : Ty) (operand : ValueId) (l : Lifter) : ValueId × Lifter :=
  l.addInstruction (.trunc toType operand)

def getRegisterValue (regNum : ℕ) (l : Lifter) : ValueId × Lifter :=
  if regNum = REG_ZERO then l.createConstant .i64 0#64
  else
    match l.cachedRegisterValues regNum with
    | some valueId => (valueId, l)
    | none =>
      let (valueId, l) := l.addInstruction (.regRead regNum)
      (valueId,
        { l with
          cachedRegisterValues := Function.update l.cachedRegisterValues regNum (some valueId) })

def setRegisterValue (regNum : ℕ) (valueId : ValueId) (l : Lifter) : Lifter :=
  if regNum ≠ REG_ZERO then
    { l with
      cachedRegisterValues := Function.update l.cachedRegisterValues regNum (some valueId)
      modifiedRegisters := l.modifiedRegisters.insert regNum }
  else l

def liftRTypeBinaryOp (inst : RiscV.Instruction) (opcode : BinaryOpcode) (type : Ty)
    (l : Lifter) : Except Error Lifter := do
  let (rs1, l) := l.getRegisterValue (← inst.getRegister 1)
  let (rs2, l) := l.getRegisterValue (← inst.getRegister 2)
  let (result, l) := l.createBinaryOp opcode type rs1 rs2
  return l.setRegisterValue (← inst.getRegister 0) result

def liftITypeBinaryOp (inst : RiscV.Instruction) (opcode : BinaryOpcode) (type : Ty)
    (l : Lifter) : Except Error Lifter := do
  let (rs1, l) := l.getRegisterValue (← inst.getRegister 1)
  let (imm, l) := l.createConstant type (← inst.getImmediate 2)
  let (result, l) := l.createBinaryOp opcode type rs1 imm
  return l.setRegisterValue (← inst.getRegister 0) result

def liftWTypeBinaryOp (inst : RiscV.Instruction) (opcode : BinaryOpcode) (l : Lifter) :
    Except Error Lifter := do
  let (rs1, l) := l.getRegisterValue (← inst.getRegister 1)
  let (rs2, l) := l.getRegisterValue (← inst.getRegister 2)
  let (rs1_trunc, l) := l.createTrunc .i32 rs1
  let (rs2_trunc, l) := l.createTrunc .i32 rs2
  let (result_32, l) := l.createBinaryOp opcode .i32 rs1_trunc rs2_trunc
  let (result, l) := l.createSext .i64 result_32
  return l.setRegisterValue (← inst.getRegister 0) result

def liftWTypeImmOp (inst : RiscV.Instruction) (opcode : BinaryOpcode) (l : Lifter) :
    Except Error Lifter := do
  let (rs1, l) := l.getRegisterValue (← inst.getRegister 1)
  let (imm, l) := l.createConstant .i32 (← inst.getImmediate 2)
  let (rs1_trunc, l) := l.createTrunc .i32 rs1
  let (result_32, l) := l.createBinaryOp opcode .i32 rs1_trunc imm
  let (result, l) := l.createSext .i64 result_32
  return l.setRegisterValue (← inst.getRegister 0) result

def liftLoadInstruction (inst : RiscV.Instruction) (loadType : Ty) (signExtend : Bool)
    (l : Lifter) : Except Error Lifter := do
  let (rs1, l) := l.getRegisterValue (← inst.getRegister 1)
  let (imm, l) := l.createConstant .i64 (← inst.getImmediate 2)
  let (addr, l) := l.createBinaryOp .add .i64 rs1 imm
  let (loaded, l) := l.createLoad loadType addr
  let (result, l) :=
    if loadType ≠ .i64 then
      if signExtend then l.createSext .i64 loaded else l.createZext .i64 loaded
    else (loaded, l)
  return l.setRegisterValue (← inst.getRegister 0) result

def liftStoreInstruction (inst : RiscV.Instruction) (storeType : Ty) (l : Lifter) :
    Except Error Lifter := do
  let (rs1, l) := l.getRegisterValue (← inst.getRegister 0)
  let (rs2, l) := l.getRegisterValue (← inst.getRegister 1)
  let (imm, l) := l.createConstant .i64 (← inst.getImmediate 2)
  let (addr, l) := l.createBinaryOp .add .i64 rs1 imm
  let (val, l) := if storeType ≠ .i64 then l.createTrunc storeType rs2 else (rs2, l)
  let (_, l) := l.createStore val addr
  return l

def unsupported (inst : RiscV.Instruction) : Error :=
  .unsupportedInstruction ("Unsupported RISC-V instruction: " ++ inst.toString)

def liftSingleInstruction (inst : RiscV.Instruction) (l : Lifter) : Except Error Lifter :=
  match inst.opcode with
  | .add => l.liftRTypeBinaryOp inst .add .i64
  | .addi => l.liftITypeBinaryOp inst .add .i64
  | .sub => l.liftRTypeBinaryOp inst .sub .i64
  | .addw => l.liftWTypeBinaryOp inst .add
  | .addiw => l.liftWTypeImmOp inst .add
  | .and => l.liftRTypeBinaryOp inst .and .i64
  | .andi => l.liftITypeBinaryOp inst .and .i64
  | .or => l.liftRTypeBinaryOp inst .or .i64
  | .ori => l.liftITypeBinaryOp inst .or .i64
  | .xor => l.liftRTypeBinaryOp inst .xor .i64
  | .xori => l.liftITypeBinaryOp inst .xor .i64
  | .sll => l.liftRTypeBinaryOp inst .shl .i64
  | .slli => l.liftITypeBinaryOp inst .shl .i64
  | .srl => l.liftRTypeBinaryOp inst .shr .i64
  | .srli => l.liftITypeBinaryOp inst .shr .i64
  | .sra => l.liftRTypeBinaryOp inst .sar .i64
  | .srai => l.liftITypeBinaryOp inst .sar .i64
  | .slliw => l.liftWTypeImmOp inst .shl
  | .slt => l.liftRTypeBinaryOp inst .lt .i64
  | .sltu => l.liftRTypeBinaryOp inst .ltU .i64
  | .slti => l.liftITypeBinaryOp inst .lt .i64
  | .sltiu => l.liftITypeBinaryOp inst .ltU .i64
  | .lb => l.liftLoadInstruction inst .i8 true
  | .lh => l.liftLoadInstruction inst .i16 true
  | .ld => l.liftLoadInstruction inst .i64 false
  | .lw => l.liftLoadInstruction inst .i32 true
  | .lwu => l.liftLoadInstruction inst .i32 false
  | .sd => l.liftStoreInstruction inst .i64
  | .sw => l.liftStoreInstruction inst .i32
  | .lui => do
    let (imm, l) := l.createConstant .i64 ((← inst.getImmediate 1) <<< 12)
    return l.setRegisterValue (← inst.getRegister 0) imm
  | .auipc => do
    let (pc, l) := l.createConstant .i64 inst.address
    let (imm, l) := l.createConstant .i64 ((← inst.getImmediate 1) <<< 12)
    let (result, l) := l.createBinaryOp .add .i64 pc imm
    return l.setRegisterValue (← inst.getRegister 0) result
  | _ => .error (unsupported inst)

def isTerminator (inst : RiscV.Instruction) : Bool :=
  match inst.opcode with
  | .beq | .bne | .blt | .bge | .bltu | .bgeu | .jal | .jalr => true
  | _ => false

def createConditionalBranch (compareOp : BinaryOpcode) (inst : RiscV.Instruction)
    (fallThroughAddress : BitVec 64) (l : Lifter) : Except Error (Terminator × Lifter) := do
  let (rs1, l) := l.getRegisterValue (← inst.getRegister 0)
  let (rs2, l) := l.getRegisterValue (← inst.getRegister 1)
  let (condition, l) := l.createBinaryOp compareOp .i1 rs1 rs2
  let target := inst.address + (← inst.getImmediate 2)
  return (.condBranch condition target fallThroughAddress, l)

def liftTerminator (inst : RiscV.Instruction) (fallThroughAddress : BitVec 64) (l : Lifter) :
    Except Error (Terminator × Lifter) :=
  match inst.opcode with
  | .beq => l.createConditionalBranch .eq inst fallThroughAddress
  | .bne => l.createConditionalBranch .ne inst fallThroughAddress
  | .blt => l.createConditionalBranch .lt inst fallThroughAddress
  | .bge => l.createConditionalBranch .ge inst fallThroughAddress
  | .bltu => l.createConditionalBranch .ltU inst fallThroughAddress
  | .bgeu => l.createConditionalBranch .geU inst fallThroughAddress
  | .jal => do
    let (returnAddr, l) := l.createConstant .i64 (inst.address + 4#64)
    let l := l.setRegisterValue (← inst.getRegister 0) returnAddr
    let target := inst.address + (← inst.getImmediate 1)
    return (.branch target, l)
  | .jalr => do
    let rd ← inst.getRegister 0
    let rs1 ← inst.getRegister 1
    let imm ← inst.getImmediate 2
    -- the RET idiom, jalr x0, x1, 0
    if rd = REG_ZERO ∧ rs1 = REG_RA ∧ imm = 0#64 then
      return (.ret none, l)
    let (rs1Value, l) := l.getRegisterValue rs1
    let (immValue, l) := l.createConstant .i64 imm
    let (targetAddr, l) := l.createBinaryOp .add .i64 rs1Value immValue
    let (mask, l) := l.createConstant .i64 JALR_ALIGN_MASK
    let (alignedTarget, l) := l.createBinaryOp .and .i64 targetAddr mask
    let l :=
      if rd ≠ REG_ZERO then
        let (returnAddr, l) := l.createConstant .i64 (inst.address + 4#64)
        l.setRegisterValue rd returnAddr
      else l
    return (.ret (some alignedTarget), l)
  | _ => .error (unsupported inst)

/-- `order` is the order in which the unordered set is iterated. -/
def finalizeRegisterWrites (order : List ℕ → List ℕ) (l : Lifter) : Lifter :=
  (order l.modifiedRegisters).foldl (fun l regNum =>
    let finalValue := (l.cachedRegisterValues regNum).getD 0
    (l.addInstruction (.regWrite regNum finalValue)).2) l

def liftInstructions (order : List ℕ → List ℕ) :
    List RiscV.Instruction → Terminator → Lifter → Except Error (Terminator × Lifter)
  | [], terminator, l => .ok (terminator, l)
  | inst :: rest, terminator, l =>
    if isTerminator inst then
      let l := l.finalizeRegisterWrites order
      let fallThroughAddress :=
        match rest with
        | next :: _ => next.address
        | [] => inst.address + 4#64
      l.liftTerminator inst fallThroughAddress
    else do
      let l ← l.liftSingleInstruction inst
      liftInstructions order rest terminator l

def liftBasicBlock (order : List ℕ → List ℕ) (instructions : List RiscV.Instruction)
    (l : Lifter) : Except Error (BasicBlock × Lifter) := do
  let l := { l with
    currentInstructions := []
    cachedRegisterValues := fun _ => none
    modifiedRegisters := [] }
  let (terminator, l) ← liftInstructions order instructions (.branch 0#64) l
  match instructions.getLast? with
  | none =>
    let l := l.finalizeRegisterWrites order
    return (⟨l.currentInstructions, .branch 0#64⟩, l)
  | some last =>
    if !isTerminator last then
      let l := l.finalizeRegisterWrites order
      return (⟨l.currentInstructions, .branch (last.address + 4#64)⟩, l)
    else return (⟨l.currentInstructions, terminator⟩, l)

end Lifter

end DinoRisc
