import DinoRisc.Arm64.Encoder
import DinoRisc.GuestState
import DinoRisc.Library.A64
import DinoRisc.Lifter
import DinoRisc.Lowering.InstructionSelector
import DinoRisc.Lowering.RegisterAllocator
import DinoRisc.RiscV.Decoder

namespace DinoRisc

open ByteMemory

def SHADOW_MEMORY_SIZE : ℕ := 8 * 1024 * 1024
def STACK_RESERVE : ℕ := 1024
def MAX_EXECUTION_BLOCKS : ℕ := 10000

/-- `offsetof(GuestState, pc)` -/
def PC_OFFSET : ℕ := 256

/-- `offsetof(GuestState, shadowMemorySize)` -/
def SHADOW_MEMORY_SIZE_OFFSET : ℕ := 272

namespace ExecutionEngine

/-- What the system does for the memory of the code: `mmap` fails, `mprotect` fails, or neither. -/
inductive Mapping
  | mmapFailed
  | mprotectFailed
  | executable
  deriving DecidableEq, Repr

/-- Where generated code may access the memory: it loads from the `GuestState`, stores to the
registers in it, and does both in the shadow memory. -/
def permitted (guestState : BitVec 64) (mem : Memory 64) (access : A64.Access) : Bool :=
  let shadowMemory := load mem (guestState + BitVec.ofNat 64 SHADOW_MEMORY_OFFSET) 8
  let shadowMemorySize := load mem (guestState + BitVec.ofNat 64 SHADOW_MEMORY_SIZE_OFFSET) 8
  let stateSize := if access.isStore then 32 * REGISTER_SIZE_BYTES else GUEST_STATE_SIZE
  Within guestState stateSize access.address access.size ||
    Within shadowMemory shadowMemorySize.toNat access.address access.size

/-- Runs machine code up to a jump; the result is where it jumps to. -/
def run (permitted : A64.Access → Bool) :
    List (BitVec 8) → A64.Cpu → Except Error (A64.Cpu × BitVec 64)
  | b0 :: b1 :: b2 :: b3 :: rest, cpu =>
    match A64.decode (b3 ++ b2 ++ b1 ++ b0) with
    | none => .error .hostFault
    | some i =>
      if (i.access cpu).all permitted then
        match A64.exec i cpu with
        | .next cpu => run permitted rest cpu
        | .jump cpu target => .ok (cpu, target)
      else .error .hostFault
  | _, _ => .error .hostFault

/-- What a function gives back to its caller: the stack pointer and `X19` to `X29`. -/
def Restored (host cpu : A64.Cpu) : Prop :=
  cpu.sp = host.sp ∧ ∀ n : Fin 31, 19 ≤ n.val → n.val ≤ 29 → cpu.x n = host.x n

instance (host cpu : A64.Cpu) : Decidable (Restored host cpu) :=
  inferInstanceAs (Decidable (_ ∧ _))

/-- `host` is the processor before the call of the code, with the return address in `X30`. -/
def executeBlock (machineCode : List (BitVec 8)) (guestState : BitVec 64) (mapping : Mapping)
    (host : A64.Cpu) : Except Error (BitVec 64 × A64.Cpu) := do
  -- a mapping of no bytes fails
  if machineCode.isEmpty ∨ mapping = .mmapFailed then
    throw (.runtime "ExecutionEngine: mmap failed")
  if mapping = .mprotectFailed then
    throw (.runtime "ExecutionEngine: Failed to set execute permissions")
  let (cpu, target) ← run (permitted guestState host.mem) machineCode
    { host with x := Function.update host.x 0 guestState }
  if ¬ (target = host.x 30 ∧ Restored host cpu) then throw .hostFault
  return (cpu.x 0, cpu)

end ExecutionEngine

/-- The text section, the address of `guestState`, the processor with the memory in which
`guestState` and the shadow memory are, and what the system will do for the code of each block. -/
structure BinaryTranslator where
  textSectionData : List (BitVec 8)
  textBaseAddress : BitVec 64
  guestState : BitVec 64
  host : A64.Cpu
  mappings : ℕ → ExecutionEngine.Mapping

namespace BinaryTranslator

def getField (offset : ℕ) (t : BinaryTranslator) : BitVec 64 :=
  load t.host.mem (t.guestState + BitVec.ofNat 64 offset) 8

def setField (offset : ℕ) (value : BitVec 64) (t : BinaryTranslator) : BinaryTranslator :=
  { t with host :=
    { t.host with mem := store t.host.mem (t.guestState + BitVec.ofNat 64 offset) 8 value } }

def setRegister (reg : ℕ) (value : BitVec 64) (t : BinaryTranslator) : BinaryTranslator :=
  t.setField (reg * REGISTER_SIZE_BYTES) value

/-- The `GuestState` that the constructor leaves, over memory that `mmap` has cleared. -/
def initializeTranslator (shadowMem : BitVec 64) (t : BinaryTranslator) : BinaryTranslator :=
  let t := (List.range 32).foldl (fun t reg => t.setRegister reg 0#64) t
  let t := t.setField PC_OFFSET 0#64
  let t := t.setField SHADOW_MEMORY_OFFSET shadowMem
  let t := t.setField SHADOW_MEMORY_SIZE_OFFSET (BitVec.ofNat 64 SHADOW_MEMORY_SIZE)
  let t := t.setField GUEST_MEMORY_BASE_OFFSET 0#64
  let stackTop := BitVec.ofNat 64 (SHADOW_MEMORY_SIZE - STACK_RESERVE)
  t.setRegister 2 stackTop

def setArgumentRegisters (args : List (BitVec 64)) (t : BinaryTranslator) : BinaryTranslator :=
  (args.take 8).zipIdx.foldl (fun t (arg, i) => t.setRegister (10 + i) arg) t

def isValidPC (pc : BitVec 64) (t : BinaryTranslator) : Bool :=
  pc ≥ t.textBaseAddress && pc < t.textBaseAddress + BitVec.ofNat 64 t.textSectionData.length

def getReturnValue (t : BinaryTranslator) : BitVec 32 :=
  (t.getField (10 * REGISTER_SIZE_BYTES)).setWidth 32

def translateToARM64 (irBlock : IR.BasicBlock) : Except Error (List Arm64.Instruction) := do
  let (arm64Instructions, _) ← InstructionSelector.init.selectInstructions irBlock
  let liveIntervals := LivenessAnalysis.computeLiveIntervals arm64Instructions
  -- a failed allocation is only reported
  let (_, arm64Instructions) ← RegisterAllocator.allocateRegisters arm64Instructions liveIntervals
  return arm64Instructions

/-- The values of `offset` in the loop of `executeBlock`, if nothing ends it early. -/
def offsets (offset size : ℕ) : List ℕ := List.range' offset ((size - offset + 3) / 4) 4

def decodeBlock (data : List (BitVec 8)) :
    List ℕ → BitVec 64 → Except Error (List RiscV.Instruction)
  | [], _ => .ok []
  | offset :: rest, currentPC => do
    let inst ← RiscV.Decoder.decode data offset currentPC
    if !inst.isValid then
      throw (.decoding ("Invalid instruction at PC=0x" ++ hex currentPC.toNat))
    if Lifter.isTerminator inst then return [inst]
    let blockInstructions ← decodeBlock data rest (currentPC + 4#64)
    return inst :: blockInstructions

/-- The part of `executeBlock` before the call of the execution engine. -/
def translateBlock (order : List ℕ → List ℕ) (pc : BitVec 64) (t : BinaryTranslator) :
    Except Error (List (BitVec 8)) := do
  if !t.isValidPC pc then
    throw (.runtime ("PC out of bounds: 0x" ++ hex pc.toNat))
  let offset := (pc - t.textBaseAddress).toNat
  let blockInstructions ←
    decodeBlock t.textSectionData (offsets offset t.textSectionData.length) pc
  if blockInstructions.isEmpty then
    throw (.runtime ("No instructions decoded for block at PC=0x" ++ hex pc.toNat))
  let (irBlock, _) ← Lifter.init.liftBasicBlock order blockInstructions
  let arm64Instructions ← translateToARM64 irBlock
  let encoded ← arm64Instructions.mapM Arm64.Encoder.encodeInstruction
  let machineCode := encoded.flatten
  if machineCode.isEmpty then throw (.encoding "Failed to encode machine code")
  return machineCode

/-- The next program counter. -/
def executeBlock (order : List ℕ → List ℕ) (pc : BitVec 64) (t : BinaryTranslator) :
    Except Error (BitVec 64 × BinaryTranslator) := do
  let machineCode ← t.translateBlock order pc
  let (nextPC, host) ← ExecutionEngine.executeBlock machineCode t.guestState (t.mappings 0) t.host
  return (nextPC, { t with host := host, mappings := fun n => t.mappings (n + 1) })

/-- The loop of `executeFunction`, for at most the given number of blocks. `last` is the next
program counter of the block executed last. -/
def dispatch (order : List ℕ → List ℕ) : ℕ → BitVec 64 → Option (BitVec 64) → BinaryTranslator →
    Except Error (Option (BitVec 64) × BinaryTranslator)
  | 0, _, last, t => .ok (last, t)
  | maxBlocks + 1, currentPC, last, t =>
    if currentPC = 0#64 then .ok (last, t)
    else do
      let t := t.setField PC_OFFSET currentPC
      let (nextPC, t) ← t.executeBlock order currentPC
      if nextPC = 0#64 then return (some nextPC, t)
      dispatch order maxBlocks nextPC (some nextPC) t

/-- `loadRISCVBinary`, and the entry of the function. -/
def start (textSectionData : List (BitVec 8)) (textBaseAddress functionAddr : BitVec 64)
    (t : BinaryTranslator) : BinaryTranslator :=
  ({ t with
    textSectionData := textSectionData
    textBaseAddress := textBaseAddress }.setField PC_OFFSET functionAddr).setRegister 1 0#64

/-- The text section and the address of the function are those that the ELF reader finds. -/
def executeFunction (order : List ℕ → List ℕ) (textSectionData : List (BitVec 8))
    (textBaseAddress : BitVec 64) (functionName : String) (functionAddr : Option (BitVec 64))
    (t : BinaryTranslator) : Except Error (BitVec 32 × BinaryTranslator) :=
  match functionAddr with
  | none => .error (.elf ("Function '" ++ functionName ++ "' not found in binary"))
  | some functionAddr => do
    let (_, t) ← dispatch order MAX_EXECUTION_BLOCKS functionAddr none
      (t.start textSectionData textBaseAddress functionAddr)
    return (t.getReturnValue, t)

end BinaryTranslator

end DinoRisc
