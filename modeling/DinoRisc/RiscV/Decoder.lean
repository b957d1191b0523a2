import DinoRisc.RiscV.Instruction

namespace DinoRisc.RiscV.Decoder

/-- One byte of a buffer; `data[i]` past its end is outside the defined behaviour. -/
def byteAt (data : List (BitVec 8)) (i : ℕ) : Except Error (BitVec 8) :=
  match data[i]? with
  | some b => .ok b
  | none => .error .outOfBounds

def readInstructionFromMemory (data : List (BitVec 8)) (offset : ℕ) : Except Error (BitVec 32) := do
  let b0 ← byteAt data offset
  let b1 ← byteAt data (offset + 1)
  let b2 ← byteAt data (offset + 2)
  let b3 ← byteAt data (offset + 3)
  return b0.setWidth 32 ||| (b1.setWidth 32 <<< 8) ||| (b2.setWidth 32 <<< 16) |||
    (b3.setWidth 32 <<< 24)

structure DecodedFields where
  opcode : BitVec 32
  rd : BitVec 32
  rs1 : BitVec 32
  rs2 : BitVec 32
  funct3 : BitVec 32
  funct7 : BitVec 32
  deriving DecidableEq, Repr

def extractFields (raw : BitVec 32) : DecodedFields where
  opcode := raw &&& 0x7F#32
  rd := (raw >>> 7) &&& 0x1F#32
  funct3 := (raw >>> 12) &&& 0x7#32
  rs1 := (raw >>> 15) &&& 0x1F#32
  rs2 := (raw >>> 20) &&& 0x1F#32
  funct7 := (raw >>> 25) &&& 0x7F#32

/-- The `int32_t` result is kept as its 32 bits. -/
def signExtend (value : BitVec 32) (bits : ℕ) : BitVec 32 :=
  let signBit := 1#32 <<< (bits - 1)
  if value &&& signBit ≠ 0#32 then value ||| (BitVec.allOnes 32 <<< bits) else value

def unrecognized (fields : DecodedFields) : Error :=
  .decoding ("Unrecognized RISC-V instruction: opcode=0x" ++ hex fields.opcode.toNat ++
    " funct3=0x" ++ hex fields.funct3.toNat ++ " funct7=0x" ++ hex fields.funct7.toNat)

def determineOpcode (fields : DecodedFields) : Except Error Opcode :=
  match fields.opcode.toNat with
  | 0x33 => -- OP
    match fields.funct3.toNat with
    | 0x0 => .ok (if fields.funct7 = 0x20#32 then .sub else .add)
    | 0x1 => .ok .sll
    | 0x2 => .ok .slt
    | 0x3 => .ok .sltu
    | 0x4 => .ok .xor
    | 0x5 => .ok (if fields.funct7 = 0x20#32 then .sra else .srl)
    | 0x6 => .ok .or
    | 0x7 => .ok .and
    | _ => .error (unrecognized fields)
  | 0x3B => -- OP_32
    match fields.funct3.toNat with
    | 0x0 => .ok (if fields.funct7 = 0x20#32 then .subw else .addw)
    | 0x1 => .ok .sllw
    | 0x5 => .ok (if fields.funct7 = 0x20#32 then .sraw else .srlw)
    | _ => .error (unrecognized fields)
  | 0x13 => -- OP_IMM
    match fields.funct3.toNat with
    | 0x0 => .ok .addi
    | 0x1 => .ok .slli
    | 0x2 => .ok .slti
    | 0x3 => .ok .sltiu
    | 0x4 => .ok .xori
    | 0x5 => .ok (if fields.funct7 = 0x20#32 then .srai else .srli)
    | 0x6 => .ok .ori
    | 0x7 => .ok .andi
    | _ => .error (unrecognized fields)
  | 0x1B => -- OP_IMM_32
    match fields.funct3.toNat with
    | 0x0 => .ok .addiw
    | 0x1 => .ok .slliw
    | 0x5 => .ok (if fields.funct7 = 0x20#32 then .sraiw else .srliw)
    | _ => .error (unrecognized fields)
  | 0x03 => -- LOAD
    match fields.funct3.toNat with
    | 0x0 => .ok .lb
    | 0x1 => .ok .lh
    | 0x2 => .ok .lw
    | 0x3 => .ok .ld
    | 0x4 => .ok .lbu
    | 0x5 => .ok .lhu
    | 0x6 => .ok .lwu
    | _ => .error (unrecognized fields)
  | 0x23 => -- STORE
    match fields.funct3.toNat with
    | 0x0 => .ok .sb
    | 0x1 => .ok .sh
    | 0x2 => .ok .sw
    | 0x3 => .ok .sd
    | _ => .error (unrecognized fields)
  | 0x63 => -- BRANCH
    match fields.funct3.toNat with
    | 0x0 => .ok .beq
    | 0x1 => .ok .bne
    | 0x4 => .ok .blt
    | 0x5 => .ok .bge
    | 0x6 => .ok .bltu
    | 0x7 => .ok .bgeu
    | _ => .error (unrecognized fields)
  | 0x67 => -- JALR
    if fields.funct3 = 0x0#32 then .ok .jalr else .error (unrecognized fields)
  | 0x6F => .ok .jal
  | 0x37 => .ok .lui
  | 0x17 => .ok .auipc
  | 0x73 => -- SYSTEM
    if fields.funct3 = 0x0#32 ∧ fields.rd = 0x0#32 ∧ fields.rs1 = 0x0#32 then
      let imm := fields.rs2 ||| (fields.funct7 <<< 5)
      if imm = 0x0#32 then .ok .ecall
      else if imm = 0x1#32 then .ok .ebreak
      else .error (unrecognized fields)
    else .error (unrecognized fields)
  | _ => .error (unrecognized fields)

def extractITypeImmediate (raw : BitVec 32) : BitVec 32 :=
  let imm := (raw >>> 20) &&& 0xFFF#32
  signExtend imm 12

def extractSTypeImmediate (raw : BitVec 32) : BitVec 32 :=
  let imm := ((raw >>> 25) &&& 0x7F#32) <<< 5
  let imm := imm ||| ((raw >>> 7) &&& 0x1F#32)
  signExtend imm 12

def extractBTypeImmediate (raw : BitVec 32) : BitVec 32 :=
  let imm := ((raw >>> 31) &&& 0x1#32) <<< 12
  let imm := imm ||| (((raw >>> 7) &&& 0x1#32) <<< 11)
  let imm := imm ||| (((raw >>> 25) &&& 0x3F#32) <<< 5)
  let imm := imm ||| (((raw >>> 8) &&& 0xF#32) <<< 1)
  signExtend imm 13

def extractUTypeImmediate (raw : BitVec 32) : BitVec 32 := raw &&& 0xFFFFF000#32

def extractJTypeImmediate (raw : BitVec 32) : BitVec 32 :=
  let imm := ((raw >>> 31) &&& 0x1#32) <<< 20
  let imm := imm ||| (((raw >>> 12) &&& 0xFF#32) <<< 12)
  let imm := imm ||| (((raw >>> 20) &&& 0x1#32) <<< 11)
  let imm := imm ||| (((raw >>> 21) &&& 0x3FF#32) <<< 1)
  signExtend imm 21

def widen (imm : BitVec 32) : BitVec 64 := imm.signExtend 64

def extractOperands (fields : DecodedFields) (opcode : Opcode) (raw : BitVec 32) :
    Except Error (List Operand) :=
  match opcode with
  | .add | .sub | .sll | .slt | .sltu | .xor | .srl | .sra | .or | .and
  | .addw | .subw | .sllw | .srlw | .sraw =>
    .ok [.register fields.rd.toNat, .register fields.rs1.toNat, .register fields.rs2.toNat]
  | .addi | .slti | .sltiu | .xori | .ori | .andi | .slli | .srli | .srai
  | .addiw | .slliw | .srliw | .sraiw | .jalr
  | .lb | .lh | .lw | .ld | .lbu | .lhu | .lwu =>
    .ok [.register fields.rd.toNat, .register fields.rs1.toNat,
      .immediate (widen (extractITypeImmediate raw))]
  | .sb | .sh | .sw | .sd =>
    .ok [.register fields.rs1.toNat, .register fields.rs2.toNat,
      .immediate (widen (extractSTypeImmediate raw))]
  | .beq | .bne | .blt | .bge | .bltu | .bgeu =>
    .ok [.register fields.rs1.toNat, .register fields.rs2.toNat,
      .immediate (widen (extractBTypeImmediate raw))]
  | .lui | .auipc =>
    .ok [.register fields.rd.toNat, .immediate (widen (extractUTypeImmediate raw))]
  | .jal => .ok [.register fields.rd.toNat, .immediate (widen (extractJTypeImmediate raw))]
  | .ecall | .ebreak => .ok []
  | .invalid => .error (.decoding "Cannot extract operands for invalid instruction")

def decode (data : List (BitVec 8)) (offset : ℕ) (pc : BitVec 64) : Except Error Instruction := do
  let rawInstruction ← readInstructionFromMemory data offset
  let fields := extractFields rawInstruction
  let opcode ← determineOpcode fields
  let operands ← extractOperands fields opcode rawInstruction
  return ⟨opcode, operands, rawInstruction, pc⟩

end DinoRisc.RiscV.Decoder
