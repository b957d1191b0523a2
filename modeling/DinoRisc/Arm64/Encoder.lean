import DinoRisc.Arm64.Instruction

namespace DinoRisc.Arm64.Encoder

def isImmediate : Operand → Bool
  | .immediate _ => true
  | _ => false

def getImmediate : Operand → Except Error (BitVec 64)
  | .immediate value => .ok value
  | _ => .error .badVariantAccess

def encodeRegister : Operand → Except Error (BitVec 32)
  | .register .xsp => .ok 31#32
  | .register (.x n) => .ok (BitVec.ofNat 32 n)
  | .virtual _ =>
    .error (.encoding "Cannot encode virtual register - register allocation required")
  | .immediate _ => .error (.encoding "Invalid operand type for register encoding")

def getSfBit (size : DataSize) : BitVec 32 := if size = .x then 1#32 else 0#32

def getConditionCode : Opcode → Except Error (BitVec 32)
  | .b_eq => .ok 0b0000#32
  | .b_ne => .ok 0b0001#32
  | .b_lt => .ok 0b1011#32
  | .b_le => .ok 0b1101#32
  | .b_gt => .ok 0b1100#32
  | .b_ge => .ok 0b1010#32
  | _ => .error (.encoding "Unsupported condition code opcode")

/-- The 12-bit immediate of ADD, SUB and CMP, from the low 32 bits of the operand. -/
def getImm12 (name : String) (operand : Operand) : Except Error (BitVec 32) := do
  let imm := (← getImmediate operand).setWidth 32
  if imm > 0xFFF#32 then
    throw (.encoding (name ++ " immediate value too large (>12 bits)"))
  return imm

def getShiftAmount (name : String) (sf : BitVec 32) (operand : Operand) :
    Except Error (BitVec 64 × BitVec 32) := do
  let shiftAmount ← getImmediate operand
  let datasize : BitVec 32 := if sf = 1#32 then 64#32 else 32#32
  if shiftAmount ≥ datasize.setWidth 64 then
    throw (.encoding (name ++ " shift amount out of range"))
  return (shiftAmount, datasize)

def encodeThreeOperandInst (opcode : Opcode) (size : DataSize) (dest src1 src2 : Operand) :
    Except Error (BitVec 32) := do
  let sf := getSfBit size
  let rd ← encodeRegister dest
  let rn ← encodeRegister src1
  match opcode with
  | .add =>
    if isImmediate src2 then
      let imm ← getImm12 "ADD" src2
      let sh := 0#32
      return (sf <<< 31) ||| (0b00100010#32 <<< 23) ||| (sh <<< 22) ||| (imm <<< 10) |||
        (rn <<< 5) ||| rd
    else
      let rm ← encodeRegister src2
      let shift := 0#32
      let imm6 := 0#32
      return (sf <<< 31) ||| (0b0001011#32 <<< 24) ||| (shift <<< 22) ||| (rm <<< 16) |||
        (imm6 <<< 10) ||| (rn <<< 5) ||| rd
  | .sub =>
    if isImmediate src2 then
      let imm ← getImm12 "SUB" src2
      let sh := 0#32
      return (sf <<< 31) ||| (0b10100010#32 <<< 23) ||| (sh <<< 22) ||| (imm <<< 10) |||
        (rn <<< 5) ||| rd
    else
      let rm ← encodeRegister src2
      let shift := 0#32
      let imm6 := 0#32
      return (sf <<< 31) ||| (0b1001011#32 <<< 24) ||| (shift <<< 22) ||| (rm <<< 16) |||
        (imm6 <<< 10) ||| (rn <<< 5) ||| rd
  | .and =>
    if isImmediate src2 then throw (.encoding "AND with immediate not supported")
    let rm ← encodeRegister src2
    let shift := 0#32
    let imm6 := 0#32
    return (sf <<< 31) ||| (0b000101#32 <<< 25) ||| (shift <<< 23) ||| (rm <<< 16) |||
      (imm6 <<< 10) ||| (rn <<< 5) ||| rd
  | .orr =>
    if isImmediate src2 then throw (.encoding "ORR with immediate not supported")
    let rm ← encodeRegister src2
    let shift := 0#32
    let imm6 := 0#32
    return (sf <<< 31) ||| (0b010101#32 <<< 25) ||| (shift <<< 23) ||| (rm <<< 16) |||
      (imm6 <<< 10) ||| (rn <<< 5) ||| rd
  | .eor =>
    if isImmediate src2 then throw (.encoding "EOR with immediate not supported")
    let rm ← encodeRegister src2
    let shift := 0#32
    let imm6 := 0#32
    return (sf <<< 31) ||| (0b110101#32 <<< 25) ||| (shift <<< 23) ||| (rm <<< 16) |||
      (imm6 <<< 10) ||| (rn <<< 5) ||| rd
  | .mul =>
    if isImmediate src2 then throw (.encoding "MUL with immediate not supported")
    let rm ← encodeRegister src2
    let ra := 31#32
    return (sf <<< 31) ||| (0b0011011000#32 <<< 21) ||| (rm <<< 16) ||| (ra <<< 10) |||
      (rn <<< 5) ||| rd
  | .cmp =>
    if isImmediate src2 then
      let imm ← getImm12 "CMP" src2
      let sh := 0#32
      let xzr := 31#32
      return (sf <<< 31) ||| (0b11100010#32 <<< 23) ||| (sh <<< 22) ||| (imm <<< 10) |||
        (rn <<< 5) ||| xzr
    else
      let rm ← encodeRegister src2
      let shift := 0#32
      let imm6 := 0#32
      let xzr := 31#32
      return (sf <<< 31) ||| (0b1101011#32 <<< 24) ||| (shift <<< 22) ||| (rm <<< 16) |||
        (imm6 <<< 10) ||| (rn <<< 5) ||| xzr
  | .lsl =>
    if isImmediate src2 then
      let (shiftAmount, datasize) ← getShiftAmount "LSL" sf src2
      let N := sf
      let immr := ((datasize.setWidth 64 - shiftAmount) % datasize.setWidth 64).setWidth 32
      let imms := (datasize.setWidth 64 - 1#64 - shiftAmount).setWidth 32
      return (sf <<< 31) ||| (0b10100110#32 <<< 23) ||| (N <<< 22) ||| (immr <<< 16) |||
        (imms <<< 10) ||| (rn <<< 5) ||| rd
    else
      let rm ← encodeRegister src2
      return (sf <<< 31) ||| (0b0011010110#32 <<< 21) ||| (rm <<< 16) ||| (0b001000#32 <<< 10) |||
        (rn <<< 5) ||| rd
  | .lsr =>
    if isImmediate src2 then
      let (shiftAmount, datasize) ← getShiftAmount "LSR" sf src2
      let N := sf
      let immr := shiftAmount.setWidth 32
      let imms := datasize - 1#32
      return (sf <<< 31) ||| (0b10100110#32 <<< 23) ||| (N <<< 22) ||| (immr <<< 16) |||
        (imms <<< 10) ||| (rn <<< 5) ||| rd
    else
      let rm ← encodeRegister src2
      return (sf <<< 31) ||| (0b00110101100#32 <<< 20) ||| (rm <<< 16) ||| (0b0110#32 <<< 10) |||
        (rn <<< 5) ||| rd
  | .asr =>
    if isImmediate src2 then
      let (shiftAmount, datasize) ← getShiftAmount "ASR" sf src2
      let N := sf
      let immr := shiftAmount.setWidth 32
      let imms := datasize - 1#32
      return (sf <<< 31) ||| (0b00100110#32 <<< 23) ||| (N <<< 22) ||| (immr <<< 16) |||
        (imms <<< 10) ||| (rn <<< 5) ||| rd
    else
      let rm ← encodeRegister src2
      return (sf <<< 31) ||| (0b00110101100#32 <<< 20) ||| (rm <<< 16) ||| (0b1010#32 <<< 10) |||
        (rn <<< 5) ||| rd
  | _ => throw (.encoding "Unsupported three-operand instruction opcode")

def getImm16 (name : String) (operand : Operand) : Except Error (BitVec 32) := do
  let imm ← getImmediate operand
  if imm > 0xFFFF#64 then
    throw (.encoding (name ++ " immediate value too large (>16 bits)"))
  return (imm &&& 0xFFFF#64).setWidth 32

def encodeTwoOperandInst (opcode : Opcode) (size : DataSize) (dest src : Operand) :
    Except Error (BitVec 32) := do
  let sf := getSfBit size
  let rd ← encodeRegister dest
  match opcode with
  | .mov =>
    if isImmediate src then
      let imm ← getImm16 "MOV" src
      let hw := 0#32
      return (sf <<< 31) ||| (0b10100101#32 <<< 23) ||| (hw <<< 21) ||| (imm <<< 5) ||| rd
    else
      let rm ← encodeRegister src
      let shift := 0#32
      let imm6 := 0#32
      let rn_xzr := 31#32
      return (sf <<< 31) ||| (0b010101#32 <<< 25) ||| (shift <<< 23) ||| (rm <<< 16) |||
        (imm6 <<< 10) ||| (rn_xzr <<< 5) ||| rd
  | .sxtb =>
    let rn ← encodeRegister src
    let N := sf
    let immr := 0#32
    let imms := 7#32
    return (sf <<< 31) ||| (0b00100110#32 <<< 23) ||| (N <<< 22) ||| (immr <<< 16) |||
      (imms <<< 10) ||| (rn <<< 5) ||| rd
  | .sxth =>
    let rn ← encodeRegister src
    let N := sf
    let immr := 0#32
    let imms := 15#32
    return (sf <<< 31) ||| (0b00100110#32 <<< 23) ||| (N <<< 22) ||| (immr <<< 16) |||
      (imms <<< 10) ||| (rn <<< 5) ||| rd
  | .sxtw =>
    let rn ← encodeRegister src
    let N := 1#32
    let immr := 0#32
    let imms := 31#32
    return (1#32 <<< 31) ||| (0b00100110#32 <<< 23) ||| (N <<< 22) ||| (immr <<< 16) |||
      (imms <<< 10) ||| (rn <<< 5) ||| rd
  | .ret =>
    let rn ← encodeRegister src
    return 0xD65F0000#32 ||| (rn <<< 5)
  | .movn =>
    if !isImmediate src then throw (.encoding "MOVN only supports immediate operands")
    let imm ← getImm16 "MOVN" src
    let hw := 0#32
    return (sf <<< 31) ||| (0b00100101#32 <<< 23) ||| (hw <<< 21) ||| (imm <<< 5) ||| rd
  | .cmp =>
    let rn ← encodeRegister dest
    if isImmediate src then
      let imm ← getImm12 "CMP" src
      let sh := 0#32
      let xzr := 31#32
      return (sf <<< 31) ||| (0b11100010#32 <<< 23) ||| (sh <<< 22) ||| (imm <<< 10) |||
        (rn <<< 5) ||| xzr
    else
      let rm ← encodeRegister src
      let shift := 0#32
      let imm6 := 0#32
      let xzr := 31#32
      return (sf <<< 31) ||| (0b1101011#32 <<< 24) ||| (shift <<< 22) ||| (rm <<< 16) |||
        (imm6 <<< 10) ||| (rn <<< 5) ||| xzr
  | _ => throw (.encoding "Unsupported two-operand instruction opcode")

/-- The `size` field of a load or a store, which is also the scale of its offset. -/
def sizeField : DataSize → BitVec 32
  | .b => 0b00#32
  | .h => 0b01#32
  | .w => 0b10#32
  | .x => 0b11#32

/-- LDR and STR: `unsignedOffset` and `postIndex` are the bits of the two forms. -/
def encodeOffset (name : String) (size rn rt offset unsignedOffset postIndex : BitVec 32) :
    Except Error (BitVec 32) :=
  if 0 ≤ offset.toInt ∧ offset.toInt % 2 ^ size.toNat = 0 then
    let scaledOffset := offset.sshiftRight size.toNat
    if scaledOffset ≤ 0xFFF#32 then
      .ok ((size <<< 30) ||| (unsignedOffset <<< 22) ||| (scaledOffset <<< 10) ||| (rn <<< 5) ||| rt)
    else .error (.encoding (name ++ " scaled offset too large (>4095)"))
  else if -256 ≤ offset.toInt ∧ offset.toInt ≤ 255 then
    .ok ((size <<< 30) ||| (0b11100000#32 <<< 22) ||| ((offset &&& 0x1FF#32) <<< 12) |||
      (postIndex <<< 10) ||| (rn <<< 5) ||| rt)
  else .error (.encoding (name ++ " offset out of range"))

def encodeMemoryInst (opcode : Opcode) (size : DataSize) (reg baseReg : Operand)
    (offset : BitVec 32) : Except Error (BitVec 32) := do
  let rt ← encodeRegister reg
  let rn ← encodeRegister baseReg
  match opcode with
  | .ldr => encodeOffset "LDR" (sizeField size) rn rt offset 0b11100101#32 0b11#32
  | .str => encodeOffset "STR" (sizeField size) rn rt offset 0b11100100#32 0b01#32
  | _ => throw (.encoding "Unsupported memory instruction opcode")

def encodeBranchInst (opcode : Opcode) (target : BitVec 64) : Except Error (BitVec 32) := do
  let offset := target
  if offset.toInt < -0x2000000 ∨ 0x1FFFFFF < offset.toInt then
    throw (.encoding "Branch target out of range")
  let imm26 := ((offset.sshiftRight 2) &&& 0x3FFFFFF#64).setWidth 32
  match opcode with
  | .b => return (0b000101#32 <<< 26) ||| imm26
  | .b_eq | .b_ne | .b_lt | .b_le | .b_gt | .b_ge =>
    if offset.toInt < -0x40000 ∨ 0x3FFFF < offset.toInt then
      throw (.encoding "Conditional branch target out of range")
    let imm19 := ((offset.sshiftRight 2) &&& 0x7FFFF#64).setWidth 32
    let cond ← getConditionCode opcode
    return (0b0101010#32 <<< 25) ||| (imm19 <<< 5) ||| cond
  | _ => throw (.encoding "Unsupported branch instruction opcode")

def encodeMoveWideInst (opcode : Opcode) (size : DataSize) (dest : Operand) (imm16 : BitVec 16)
    (shift : BitVec 8) : Except Error (BitVec 32) := do
  let sf := getSfBit size
  let rd ← encodeRegister dest
  let hw := (shift / 16#8).setWidth 32
  if hw > 3#32 then throw (.encoding "Invalid shift amount for move wide instruction")
  match opcode with
  | .movz =>
    return (sf <<< 31) ||| (0b10100101#32 <<< 23) ||| (hw <<< 21) ||| (imm16.setWidth 32 <<< 5) ||| rd
  | .movk =>
    return (sf <<< 31) ||| (0b11100101#32 <<< 23) ||| (hw <<< 21) ||| (imm16.setWidth 32 <<< 5) ||| rd
  | _ => throw (.encoding "Unsupported move wide instruction opcode")

def encodeConditionalInst (opcode : Opcode) (size : DataSize) (dest : Operand)
    (condition : Condition) : Except Error (BitVec 32) := do
  let sf := getSfBit size
  let rd ← encodeRegister dest
  match opcode with
  | .cset =>
    let cond := condition.code.setWidth 32 ^^^ 1#32
    return (sf <<< 31) ||| (0b0011010100#32 <<< 21) ||| (0b11111#32 <<< 16) ||| (cond <<< 12) |||
      (0b01#32 <<< 10) ||| (0b11111#32 <<< 5) ||| rd
  | _ => throw (.encoding "Unsupported conditional instruction")

def encodeConditionalSelectInst (opcode : Opcode) (size : DataSize) (dest src1 src2 : Operand)
    (condition : Condition) : Except Error (BitVec 32) := do
  let sf := getSfBit size
  let rd ← encodeRegister dest
  let rn ← encodeRegister src1
  match opcode with
  | .csel =>
    if isImmediate src1 || isImmediate src2 then
      throw (.encoding "CSEL with immediate operands not supported")
    let rm ← encodeRegister src2
    let cond := condition.code.setWidth 32
    return (sf <<< 31) ||| (0b0011010100#32 <<< 21) ||| (rm <<< 16) ||| (cond <<< 12) |||
      (rn <<< 5) ||| rd
  | _ => throw (.encoding "Unsupported conditional select instruction")

def encodeWord : Instruction → Except Error (BitVec 32)
  | .threeOperand opcode size dest src1 src2 => encodeThreeOperandInst opcode size dest src1 src2
  | .twoOperand opcode size dest src => encodeTwoOperandInst opcode size dest src
  | .memory opcode size reg baseReg offset => encodeMemoryInst opcode size reg baseReg offset
  | .moveWide opcode size dest imm16 shift => encodeMoveWideInst opcode size dest imm16 shift
  | .branch opcode target => encodeBranchInst opcode target
  | .conditional opcode size dest condition => encodeConditionalInst opcode size dest condition
  | .conditionalSelect opcode size dest src1 src2 condition =>
    encodeConditionalSelectInst opcode size dest src1 src2 condition

def encodeInstruction (inst : Instruction) : Except Error (List (BitVec 8)) := do
  let encoded ← encodeWord inst
  return [(encoded &&& 0xFF#32).setWidth 8, ((encoded >>> 8) &&& 0xFF#32).setWidth 8,
    ((encoded >>> 16) &&& 0xFF#32).setWidth 8, ((encoded >>> 24) &&& 0xFF#32).setWidth 8]

end DinoRisc.Arm64.Encoder
