import DinoRisc.Library.A64

/-!
The A64 words that hold a displacement, from the architecture manual: loads and stores of one
general register with an immediate offset, and immediate branches.
-/

namespace DinoRisc.A64

open BitField Instr

/-- A scaled unsigned offset, or a signed one that is unscaled (mode 0), post-indexed (1),
unprivileged (2) or pre-indexed (3). -/
inductive Addressing
  | scaled (imm12 : BitVec 12)
  | indexed (mode : BitVec 2) (imm9 : BitVec 9)

structure Transfer where
  size : BitVec 2
  opc : BitVec 2
  addressing : Addressing
  rn : BitVec 5
  rt : BitVec 5

namespace Transfer

def encode (t : Transfer) : BitVec 32 :=
  let form := match t.addressing with
    | .scaled imm12 => place 0b01#2 24 ||| place imm12 10
    | .indexed mode imm9 => place imm9 12 ||| place mode 10
  place t.size 30 ||| place 0b111#3 27 ||| place t.opc 22 ||| form ||| place t.rn 5 ||| place t.rt 0

def offset (t : Transfer) : BitVec 64 :=
  match t.addressing with
  | .scaled imm12 => BitVec.ofNat 64 (imm12.toNat * 2 ^ t.size.toNat)
  | .indexed _ imm9 => imm9.signExtend 64

def postIndexed (t : Transfer) : Bool :=
  match t.addressing with
  | .indexed mode _ => mode = 1#2
  | _ => false

def preIndexed (t : Transfer) : Bool :=
  match t.addressing with
  | .indexed mode _ => mode = 3#2
  | _ => false

def address (t : Transfer) (base : BitVec 64) : BitVec 64 :=
  if t.postIndexed then base else base + t.offset

/-- What the addressing leaves in the base register. -/
def writeback (t : Transfer) (base : BitVec 64) : BitVec 64 :=
  if t.postIndexed || t.preIndexed then base + t.offset else base

end Transfer

def decodeTransfer (w : BitVec 32) : Option Transfer :=
  let transfer (addressing : Addressing) : Transfer :=
    ⟨w.extractLsb' 30 2, w.extractLsb' 22 2, addressing, w.extractLsb' 5 5, w.extractLsb' 0 5⟩
  if w.extractLsb' 27 3 = 0b111#3 ∧ w.extractLsb' 26 1 = 0#1 then
    if w.extractLsb' 24 2 = 0b01#2 then some (transfer (.scaled (w.extractLsb' 10 12)))
    else if w.extractLsb' 24 2 = 0b00#2 ∧ w.extractLsb' 21 1 = 0#1 then
      some (transfer (.indexed (w.extractLsb' 10 2) (w.extractLsb' 12 9)))
    else none
  else none

theorem decodeTransfer_encode (t : Transfer) : decodeTransfer t.encode = some t := by
  obtain ⟨size, opc, addressing, rn, rt⟩ := t
  cases addressing <;> simp (disch := omega) [decodeTransfer, Transfer.encode, place,
    BitVec.extractLsb'_or, extract_place, extract_place_disjoint, extract_low, extract_low_disjoint]

theorem loadStore_encode (size opc : BitVec 2) (imm12 : BitVec 12) (rn rt : BitVec 5) :
    (Instr.loadStore size opc imm12 rn rt).encode =
      (Transfer.mk size opc (.scaled imm12) rn rt).encode := by
  rw [Instr.encode, Transfer.encode]
  have hclass : place 1#1 29 ||| place 0b11001#5 24 = place 0b111#3 27 ||| place 0b01#2 24 := rfl
  simp only [BitVec.or_assoc]
  rw [← BitVec.or_assoc (place 1#1 29), hclass]
  simp only [BitVec.or_assoc]
  rw [← BitVec.or_assoc (place 0b01#2 24), BitVec.or_comm (place 0b01#2 24) (place opc 22),
    BitVec.or_assoc]

/-! ### Branches -/

inductive Branch
  | always (imm26 : BitVec 26)
  | conditional (cond : BitVec 4) (imm19 : BitVec 19)

namespace Branch

def encode : Branch → BitVec 32
  | always imm26 => place 0b000101#6 26 ||| place imm26 0
  | conditional cond imm19 => place 0b01010100#8 24 ||| place imm19 5 ||| place cond 0

/-- From the address of the branch to its target. -/
def displacement : Branch → ℤ
  | always imm26 => 4 * imm26.toInt
  | conditional _ imm19 => 4 * imm19.toInt

end Branch

def decodeBranch (w : BitVec 32) : Option Branch :=
  if w.extractLsb' 26 6 = 0b000101#6 then some (.always (w.extractLsb' 0 26))
  else if w.extractLsb' 24 8 = 0b01010100#8 ∧ w.extractLsb' 4 1 = 0#1 then
    some (.conditional (w.extractLsb' 0 4) (w.extractLsb' 5 19))
  else none

theorem decodeBranch_encode (b : Branch) : decodeBranch b.encode = some b := by
  cases b <;> simp (disch := omega) [decodeBranch, Branch.encode, place, BitVec.extractLsb'_or,
    extract_place, extract_place_disjoint, extract_low, extract_low_disjoint]

end DinoRisc.A64
