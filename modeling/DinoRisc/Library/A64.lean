import DinoRisc.Library.BitField
import DinoRisc.Library.ByteMemory

/-!
A part of the A64 architecture, from its manual: the words of some instruction classes, their
decoding and their operation. A class keeps all its fields; `allocated` says which values have a
meaning, and only those are decoded.
-/

namespace DinoRisc.A64

open ByteMemory BitField

structure Flags where
  n : Bool
  z : Bool
  c : Bool
  v : Bool
  deriving DecidableEq, Repr

@[ext]
structure Cpu where
  x : Fin 31 → BitVec 64
  sp : BitVec 64
  flags : Flags
  mem : Memory 64

inductive Outcome
  | next (cpu : Cpu)
  | jump (cpu : Cpu) (target : BitVec 64)

inductive Instr
  | addSubImm (sf op s sh : BitVec 1) (imm12 : BitVec 12) (rn rd : BitVec 5)
  | addSubShifted (sf op s : BitVec 1) (shift : BitVec 2) (rm : BitVec 5) (imm6 : BitVec 6)
    (rn rd : BitVec 5)
  | logicalShifted (sf : BitVec 1) (opc shift : BitVec 2) (n : BitVec 1) (rm : BitVec 5)
    (imm6 : BitVec 6) (rn rd : BitVec 5)
  | moveWide (sf : BitVec 1) (opc hw : BitVec 2) (imm16 : BitVec 16) (rd : BitVec 5)
  | bitfield (sf : BitVec 1) (opc : BitVec 2) (n : BitVec 1) (immr imms : BitVec 6)
    (rn rd : BitVec 5)
  | dataProc2 (sf : BitVec 1) (rm : BitVec 5) (opcode : BitVec 6) (rn rd : BitVec 5)
  | dataProc3 (sf : BitVec 1) (rm : BitVec 5) (o0 : BitVec 1) (ra rn rd : BitVec 5)
  | condSelect (sf op : BitVec 1) (rm : BitVec 5) (cond : BitVec 4) (o2 : BitVec 1)
    (rn rd : BitVec 5)
  | loadStore (size opc : BitVec 2) (imm12 : BitVec 12) (rn rt : BitVec 5)
  | ret (rn : BitVec 5)

namespace Instr

def place {k : ℕ} (a : BitVec k) (pos : ℕ) : BitVec 32 := a.setWidth 32 <<< pos

def encode : Instr → BitVec 32
  | addSubImm sf op s sh imm12 rn rd =>
    place sf 31 ||| place op 30 ||| place s 29 ||| place 0b10001#5 24 ||| place sh 22 |||
      place imm12 10 ||| place rn 5 ||| place rd 0
  | addSubShifted sf op s shift rm imm6 rn rd =>
    place sf 31 ||| place op 30 ||| place s 29 ||| place 0b01011#5 24 ||| place shift 22 |||
      place rm 16 ||| place imm6 10 ||| place rn 5 ||| place rd 0
  | logicalShifted sf opc shift n rm imm6 rn rd =>
    place sf 31 ||| place opc 29 ||| place 0b01010#5 24 ||| place shift 22 ||| place n 21 |||
      place rm 16 ||| place imm6 10 ||| place rn 5 ||| place rd 0
  | moveWide sf opc hw imm16 rd =>
    place sf 31 ||| place opc 29 ||| place 0b10010#5 24 ||| place 1#1 23 ||| place hw 21 |||
      place imm16 5 ||| place rd 0
  | bitfield sf opc n immr imms rn rd =>
    place sf 31 ||| place opc 29 ||| place 0b10011#5 24 ||| place n 22 ||| place immr 16 |||
      place imms 10 ||| place rn 5 ||| place rd 0
  | dataProc2 sf rm opcode rn rd =>
    place sf 31 ||| place 0b11010#5 24 ||| place 0b110#3 21 ||| place rm 16 ||| place opcode 10 |||
      place rn 5 ||| place rd 0
  | dataProc3 sf rm o0 ra rn rd =>
    place sf 31 ||| place 0b11011#5 24 ||| place rm 16 ||| place o0 15 ||| place ra 10 |||
      place rn 5 ||| place rd 0
  | condSelect sf op rm cond o2 rn rd =>
    place sf 31 ||| place op 30 ||| place 0b11010#5 24 ||| place 0b100#3 21 ||| place rm 16 |||
      place cond 12 ||| place o2 10 ||| place rn 5 ||| place rd 0
  | loadStore size opc imm12 rn rt =>
    place size 30 ||| place 1#1 29 ||| place 0b11001#5 24 ||| place opc 22 ||| place imm12 10 |||
      place rn 5 ||| place rt 0
  | ret rn =>
    place 0b110#3 29 ||| place 0b10110#5 24 ||| place 0b010#3 21 ||| place 0b11111#5 16 ||| place rn 5

/-- With 32-bit operands, shift amounts and positions are below 32. -/
def allocated : Instr → Bool
  | addSubShifted sf _ _ shift _ imm6 _ _ => shift ≠ 3#2 && (sf = 1#1 || imm6.toNat < 32)
  | logicalShifted sf _ _ _ _ imm6 _ _ => sf = 1#1 || imm6.toNat < 32
  | moveWide sf opc hw _ _ => opc ≠ 1#2 && (sf = 1#1 || hw.toNat < 2)
  | bitfield sf opc n immr imms _ _ =>
    opc ≠ 3#2 && n = sf && (sf = 1#1 || (immr.toNat < 32 && imms.toNat < 32))
  | dataProc2 _ _ opcode _ _ =>
    opcode = 0b000010#6 || opcode = 0b000011#6 || opcode = 0b001000#6 || opcode = 0b001001#6 ||
      opcode = 0b001010#6 || opcode = 0b001011#6
  | loadStore _ opc _ _ _ => opc.toNat < 2
  | _ => true

end Instr

def classify (w : BitVec 32) : Option Instr :=
  let sf := w.extractLsb' 31 1
  let rd := w.extractLsb' 0 5
  let rn := w.extractLsb' 5 5
  let rm := w.extractLsb' 16 5
  match (w.extractLsb' 24 5).toNat with
  | 0b10001 =>
    if w.extractLsb' 23 1 = 0#1 then
      some (.addSubImm sf (w.extractLsb' 30 1) (w.extractLsb' 29 1) (w.extractLsb' 22 1)
        (w.extractLsb' 10 12) rn rd)
    else none
  | 0b01011 =>
    if w.extractLsb' 21 1 = 0#1 then
      some (.addSubShifted sf (w.extractLsb' 30 1) (w.extractLsb' 29 1) (w.extractLsb' 22 2) rm
        (w.extractLsb' 10 6) rn rd)
    else none
  | 0b01010 =>
    some (.logicalShifted sf (w.extractLsb' 29 2) (w.extractLsb' 22 2) (w.extractLsb' 21 1) rm
      (w.extractLsb' 10 6) rn rd)
  | 0b10010 =>
    if w.extractLsb' 23 1 = 1#1 then
      some (.moveWide sf (w.extractLsb' 29 2) (w.extractLsb' 21 2) (w.extractLsb' 5 16) rd)
    else none
  | 0b10011 =>
    if w.extractLsb' 23 1 = 0#1 then
      some (.bitfield sf (w.extractLsb' 29 2) (w.extractLsb' 22 1) (w.extractLsb' 16 6)
        (w.extractLsb' 10 6) rn rd)
    else none
  | 0b11010 =>
    if w.extractLsb' 29 1 ≠ 0#1 then none
    else if w.extractLsb' 21 3 = 0b110#3 ∧ w.extractLsb' 30 1 = 0#1 then
      some (.dataProc2 sf rm (w.extractLsb' 10 6) rn rd)
    else if w.extractLsb' 21 3 = 0b100#3 ∧ w.extractLsb' 11 1 = 0#1 then
      some (.condSelect sf (w.extractLsb' 30 1) rm (w.extractLsb' 12 4) (w.extractLsb' 10 1) rn rd)
    else none
  | 0b11011 =>
    if w.extractLsb' 29 2 = 0#2 ∧ w.extractLsb' 21 3 = 0#3 then
      some (.dataProc3 sf rm (w.extractLsb' 15 1) (w.extractLsb' 10 5) rn rd)
    else none
  | 0b11001 =>
    if w.extractLsb' 29 1 = 1#1 then
      some (.loadStore (w.extractLsb' 30 2) (w.extractLsb' 22 2) (w.extractLsb' 10 12) rn rd)
    else none
  | 0b10110 =>
    if w.extractLsb' 29 3 = 0b110#3 ∧ w.extractLsb' 21 3 = 0b010#3 ∧ rm = 0b11111#5 ∧
        w.extractLsb' 10 6 = 0#6 ∧ rd = 0#5 then some (.ret rn)
    else none
  | _ => none

def decode (w : BitVec 32) : Option Instr := (classify w).filter Instr.allocated

theorem classify_encode (i : Instr) : classify i.encode = some i := by
  cases i <;> simp (disch := omega) [classify, Instr.encode, Instr.place, BitVec.extractLsb'_or,
    extract_place, extract_place_disjoint, extract_low, extract_low_disjoint]

theorem decode_encode (i : Instr) : decode i.encode = if i.allocated then some i else none := by
  rw [decode, classify_encode, Option.filter_some]

/-! ### Registers -/

namespace Cpu

/-- Register 31 reads as zero. -/
def get (cpu : Cpu) (n : BitVec 5) : BitVec 64 :=
  if h : n.toNat < 31 then cpu.x ⟨n.toNat, h⟩ else 0#64

/-- Register 31 is the stack pointer. -/
def getSP (cpu : Cpu) (n : BitVec 5) : BitVec 64 :=
  if h : n.toNat < 31 then cpu.x ⟨n.toNat, h⟩ else cpu.sp

def set (cpu : Cpu) (n : BitVec 5) (value : BitVec 64) : Cpu :=
  if h : n.toNat < 31 then { cpu with x := Function.update cpu.x ⟨n.toNat, h⟩ value } else cpu

def setSP (cpu : Cpu) (n : BitVec 5) (value : BitVec 64) : Cpu :=
  if h : n.toNat < 31 then { cpu with x := Function.update cpu.x ⟨n.toNat, h⟩ value }
  else { cpu with sp := value }

end Cpu

/-! ### Operations -/

variable {w : ℕ}

def addWithCarry (x y : BitVec w) (carry : Bool) : BitVec w × Flags :=
  let unsignedSum := x.toNat + y.toNat + carry.toNat
  let signedSum := x.toInt + y.toInt + carry.toNat
  let result := BitVec.ofNat w unsignedSum
  (result, ⟨result.msb, result = 0#w, result.toNat ≠ unsignedSum, result.toInt ≠ signedSum⟩)

def addSub (op : BitVec 1) (x y : BitVec w) : BitVec w × Flags :=
  if op = 1#1 then addWithCarry x (~~~y) true else addWithCarry x y false

def shiftReg (shift : BitVec 2) (amount : ℕ) (x : BitVec w) : BitVec w :=
  match shift.toNat with
  | 0 => x <<< amount
  | 1 => x >>> amount
  | 2 => x.sshiftRight amount
  | _ => x.rotateRight amount

def logical (opc : BitVec 2) (n : BitVec 1) (x y : BitVec w) : BitVec w :=
  let y := if n = 1#1 then ~~~y else y
  match opc.toNat with
  | 0 | 3 => x &&& y
  | 1 => x ||| y
  | _ => x ^^^ y

def logicalFlags (result : BitVec w) : Flags := ⟨result.msb, result = 0#w, false, false⟩

def moveWideOp (opc : BitVec 2) (pos : ℕ) (imm16 : BitVec 16) (old : BitVec w) : BitVec w :=
  let imm := imm16.setWidth w <<< pos
  match opc.toNat with
  | 0 => ~~~imm
  | 2 => imm
  | _ => (old &&& ~~~((0xFFFF#16).setWidth w <<< pos)) ||| imm

/-- SBFM (opc 00), BFM (01) and UBFM (10): a field of the source is copied down when `immr ≤ imms`,
otherwise the low bits are copied up. -/
def bitfieldMove (opc : BitVec 2) (immr imms : ℕ) (old src : BitVec w) : BitVec w :=
  let (field, position, length) :=
    if immr ≤ imms then (src >>> immr, 0, imms - immr + 1) else (src, w - immr, imms + 1)
  let unsignedField := (field.setWidth length).setWidth w <<< position
  match opc.toNat with
  | 0 => (field.setWidth length).signExtend w <<< position
  | 1 => (old &&& ~~~((BitVec.allOnes length).setWidth w <<< position)) ||| unsignedField
  | _ => unsignedField

def dataProc2Op (opcode : BitVec 6) (x y : BitVec w) : BitVec w :=
  match opcode.toNat with
  | 2 => x / y
  | 3 => x.sdiv y
  | 8 => x <<< (y.toNat % w)
  | 9 => x >>> (y.toNat % w)
  | 10 => x.sshiftRight (y.toNat % w)
  | _ => x.rotateRight (y.toNat % w)

def conditionHolds (cond : BitVec 4) (f : Flags) : Bool :=
  let result := match (cond.extractLsb' 1 3).toNat with
    | 0 => f.z
    | 1 => f.c
    | 2 => f.n
    | 3 => f.v
    | 4 => f.c && !f.z
    | 5 => f.n = f.v
    | 6 => f.n = f.v && !f.z
    | _ => true
  if cond.extractLsb' 0 1 = 1#1 ∧ cond ≠ 0b1111#4 then !result else result

/-- The alternative of CSEL, CSINC, CSINV and CSNEG. -/
def otherwise (op o2 : BitVec 1) (y : BitVec w) : BitVec w :=
  match op.toNat, o2.toNat with
  | 0, 0 => y
  | 0, _ => y + 1#w
  | _, 0 => ~~~y
  | _, _ => -y

def sized (sf : BitVec 1) (f : (w : ℕ) → BitVec w → BitVec w → BitVec w) (x y : BitVec 64) :
    BitVec 64 :=
  if sf = 1#1 then f 64 x y else (f 32 (x.setWidth 32) (y.setWidth 32)).setWidth 64

def sizedFlags (sf : BitVec 1) (f : (w : ℕ) → BitVec w → BitVec w → Flags) (x y : BitVec 64) :
    Flags :=
  if sf = 1#1 then f 64 x y else f 32 (x.setWidth 32) (y.setWidth 32)

def exec (i : Instr) (cpu : Cpu) : Outcome :=
  match i with
  | .addSubImm sf op s sh imm12 rn rd =>
    let x := cpu.getSP rn
    let y := if sh = 1#1 then imm12.setWidth 64 <<< 12 else imm12.setWidth 64
    let result := sized sf (fun _ x y => (addSub op x y).1) x y
    if s = 1#1 then
      .next { cpu.set rd result with flags := sizedFlags sf (fun _ x y => (addSub op x y).2) x y }
    else .next (cpu.setSP rd result)
  | .addSubShifted sf op s shift rm imm6 rn rd =>
    let x := cpu.get rn
    let y := cpu.get rm
    let result := sized sf (fun _ x y => (addSub op x (shiftReg shift imm6.toNat y)).1) x y
    if s = 1#1 then
      .next { cpu.set rd result with
        flags := sizedFlags sf (fun _ x y => (addSub op x (shiftReg shift imm6.toNat y)).2) x y }
    else .next (cpu.set rd result)
  | .logicalShifted sf opc shift n rm imm6 rn rd =>
    let x := cpu.get rn
    let y := cpu.get rm
    let result := sized sf (fun _ x y => logical opc n x (shiftReg shift imm6.toNat y)) x y
    if opc = 3#2 then
      .next { cpu.set rd result with
        flags := sizedFlags sf
          (fun _ x y => logicalFlags (logical opc n x (shiftReg shift imm6.toNat y))) x y }
    else .next (cpu.set rd result)
  | .moveWide sf opc hw imm16 rd =>
    .next (cpu.set rd
      (sized sf (fun _ old _ => moveWideOp opc (16 * hw.toNat) imm16 old) (cpu.get rd) 0#64))
  | .bitfield sf opc _ immr imms rn rd =>
    .next (cpu.set rd
      (sized sf (fun _ => bitfieldMove opc immr.toNat imms.toNat) (cpu.get rd) (cpu.get rn)))
  | .dataProc2 sf rm opcode rn rd =>
    .next (cpu.set rd (sized sf (fun _ => dataProc2Op opcode) (cpu.get rn) (cpu.get rm)))
  | .dataProc3 sf rm o0 ra rn rd =>
    let product := sized sf (fun _ x y => x * y) (cpu.get rn) (cpu.get rm)
    .next (cpu.set rd
      (sized sf (fun _ a p => if o0 = 1#1 then a - p else a + p) (cpu.get ra) product))
  | .condSelect sf op rm cond o2 rn rd =>
    .next (cpu.set rd (sized sf
      (fun _ x y => if conditionHolds cond cpu.flags then x else otherwise op o2 y)
      (cpu.get rn) (cpu.get rm)))
  | .loadStore size opc imm12 rn rt =>
    let n := 2 ^ size.toNat
    let address := cpu.getSP rn + BitVec.ofNat 64 (imm12.toNat * n)
    if opc = 0#2 then .next { cpu with mem := store cpu.mem address n (cpu.get rt) }
    else .next (cpu.set rt (load cpu.mem address n))
  | .ret rn => .jump cpu (cpu.get rn)

/-- A load or a store of so many bytes. -/
structure Access where
  isStore : Bool
  address : BitVec 64
  size : ℕ
  deriving DecidableEq, Repr

def Instr.access (cpu : Cpu) : Instr → Option Access
  | .loadStore size opc imm12 rn _ =>
    let n := 2 ^ size.toNat
    some ⟨opc = 0#2, cpu.getSP rn + BitVec.ofNat 64 (imm12.toNat * n), n⟩
  | _ => none

end DinoRisc.A64
