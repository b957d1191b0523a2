import DinoRisc.GuestState
import DinoRisc.IR.IR

/-!
The meaning of a lifted block: values are numbers of their type's width, kept zero-extended, and
the instructions are evaluated in order. Evaluation is partial: it stops at an operand that has
no value, at operands of the wrong type and at a memory access that `valid` does not allow.
-/

namespace DinoRisc.IR

open ByteMemory

namespace Ty

def width : Ty → ℕ
  | i1 => 1 | i8 => 8 | i16 => 16 | i32 => 32 | i64 => 64

def bytes : Ty → ℕ
  | i1 | i8 => 1 | i16 => 2 | i32 => 4 | i64 => 8

theorem width_le (t : Ty) : t.width ≤ 64 := by cases t <;> decide

theorem bytes_le (t : Ty) : t.bytes ≤ 8 := by cases t <;> decide

end Ty

@[ext]
structure Value where
  ty : Ty
  bits : BitVec 64
  fits : bits.toNat < 2 ^ ty.width

namespace Value

def ofBits (ty : Ty) (x : BitVec 64) : Value where
  ty := ty
  bits := (x.setWidth ty.width).setWidth 64
  fits := by
    have hlt := (x.setWidth ty.width).isLt
    have hpow : 2 ^ ty.width ≤ 2 ^ 64 := Nat.pow_le_pow_right (by omega) ty.width_le
    rw [BitVec.toNat_setWidth, Nat.mod_eq_of_lt (by omega)]
    exact hlt

/-- The value read as a signed number of its type, sign-extended to 64 bits. -/
def signed (v : Value) : BitVec 64 := (v.bits.setWidth v.ty.width).signExtend 64

@[simp] theorem ofBits_ty (ty : Ty) (x : BitVec 64) : (ofBits ty x).ty = ty := rfl

@[simp] theorem ofBits_bits_i64 (x : BitVec 64) : (ofBits .i64 x).bits = x := by
  simp [ofBits, Ty.width]

theorem ofBits_bits (ty : Ty) (x : BitVec 64) :
    (ofBits ty x).bits = (x.setWidth ty.width).setWidth 64 := rfl

@[simp] theorem ofBits_signed_i64 (x : BitVec 64) : (ofBits .i64 x).signed = x := by
  simp [signed, ofBits, Ty.width]

end Value

def ofCondition (ty : Ty) (b : Bool) : Value := Value.ofBits ty (if b then 1#64 else 0#64)

/-- The arithmetic operations at the type's width, with shift amounts modulo the width. Division
has no meaning here: no part of the translator produces it. -/
def arithmetic (opcode : BinaryOpcode) (ty : Ty) (a b : Value) : Option Value :=
  let amount := b.bits.toNat % ty.width
  match opcode with
  | .add => some (.ofBits ty (a.bits + b.bits))
  | .sub => some (.ofBits ty (a.bits - b.bits))
  | .mul => some (.ofBits ty (a.bits * b.bits))
  | .and => some (.ofBits ty (a.bits &&& b.bits))
  | .or => some (.ofBits ty (a.bits ||| b.bits))
  | .xor => some (.ofBits ty (a.bits ^^^ b.bits))
  | .shl => some (.ofBits ty (a.bits <<< amount))
  | .shr => some (.ofBits ty (a.bits >>> amount))
  | .sar => some (.ofBits ty (a.signed.sshiftRight amount))
  | _ => none

def comparison (opcode : BinaryOpcode) (a b : Value) : Option Bool :=
  match opcode with
  | .eq => some (a.bits = b.bits)
  | .ne => some (a.bits ≠ b.bits)
  | .lt => some (a.signed.slt b.signed)
  | .le => some (a.signed.sle b.signed)
  | .gt => some (b.signed.slt a.signed)
  | .ge => some (b.signed.sle a.signed)
  | .ltU => some (a.bits.ult b.bits)
  | .leU => some (a.bits.ule b.bits)
  | .gtU => some (b.bits.ult a.bits)
  | .geU => some (b.bits.ule a.bits)
  | _ => none

def evalBinary (opcode : BinaryOpcode) (ty : Ty) (a b : Value) : Option Value :=
  match comparison opcode a b with
  | some c => if a.ty = b.ty then some (ofCondition ty c) else none
  | none => if a.ty = ty ∧ b.ty = ty then arithmetic opcode ty a b else none

abbrev Env := ValueId → Option Value

structure EvalState where
  env : Env
  guest : Guest

/-- Which accesses of `n` bytes at an address are allowed. -/
abbrev Valid := BitVec 64 → ℕ → Bool

def EvalState.define (s : EvalState) (id : ValueId) (v : Value) : EvalState :=
  { s with env := Function.update s.env id (some v) }

def evalInstruction (valid : Valid) (s : EvalState) (inst : Instruction) : Option EvalState :=
  match inst.kind with
  | .const type value => some (s.define inst.valueId (.ofBits type value))
  | .binaryOp opcode type lhs rhs => do
    let a ← s.env lhs
    let b ← s.env rhs
    let v ← evalBinary opcode type a b
    some (s.define inst.valueId v)
  | .sext toType operand => do
    let a ← s.env operand
    if a.ty.width ≤ toType.width then some (s.define inst.valueId (.ofBits toType a.signed))
    else none
  | .zext toType operand => do
    let a ← s.env operand
    if a.ty.width ≤ toType.width then some (s.define inst.valueId (.ofBits toType a.bits))
    else none
  | .trunc toType operand => do
    let a ← s.env operand
    if toType.width ≤ a.ty.width then some (s.define inst.valueId (.ofBits toType a.bits))
    else none
  | .load type address => do
    let a ← s.env address
    if a.ty = .i64 ∧ valid a.bits type.bytes then
      some (s.define inst.valueId (.ofBits type (load s.guest.mem a.bits type.bytes)))
    else none
  | .store value address => do
    let v ← s.env value
    let a ← s.env address
    if a.ty = .i64 ∧ valid a.bits v.ty.bytes then
      some { s with guest :=
        { s.guest with mem := store s.guest.mem a.bits v.ty.bytes v.bits } }
    else none
  | .regRead regNumber => some (s.define inst.valueId (.ofBits .i64 (s.guest.x regNumber)))
  | .regWrite regNumber value => do
    let v ← s.env value
    if v.ty = .i64 then
      some { s with guest := { s.guest with x := Function.update s.guest.x regNumber v.bits } }
    else none

def evalInstructions (valid : Valid) : List Instruction → EvalState → Option EvalState
  | [], s => some s
  | i :: is, s => (evalInstruction valid s i).bind (evalInstructions valid is)

/-- The next program counter that a terminator hands to the dispatcher. -/
def Terminator.nextPC (t : Terminator) (env : Env) : Option (BitVec 64) :=
  match t with
  | .branch targetBlock => some targetBlock
  | .condBranch condition trueBlock falseBlock =>
    (env condition).map fun c => if c.bits ≠ 0#64 then trueBlock else falseBlock
  | .ret none => some 0#64
  | .ret (some value) => (env value).map Value.bits

def evalBlock (valid : Valid) (block : BasicBlock) (g : Guest) : Option (Guest × BitVec 64) := do
  let s ← evalInstructions valid block.instructions ⟨fun _ => none, g⟩
  let pc ← block.terminator.nextPC s.env
  some (s.guest, pc)

end DinoRisc.IR
