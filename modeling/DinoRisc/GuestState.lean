import DinoRisc.Library.ByteMemory

namespace DinoRisc

open ByteMemory

/-- `sizeof(GuestState)` -/
def GUEST_STATE_SIZE : ℕ := 288

@[ext]
structure Guest where
  x : ℕ → BitVec 64
  mem : Memory 64

namespace Guest

def reg (g : Guest) (r : ℕ) : BitVec 64 := if r = 0 then 0#64 else g.x r

def writeRegister (g : Guest) (r : ℕ) (value : BitVec 64) : Guest :=
  if r = 0 then g else { g with x := Function.update g.x r value }

@[simp] theorem reg_zero (g : Guest) : g.reg 0 = 0#64 := rfl

theorem reg_of_ne (g : Guest) {r : ℕ} (h : r ≠ 0) : g.reg r = g.x r := if_neg h

@[simp] theorem writeRegister_zero (g : Guest) (value : BitVec 64) :
    g.writeRegister 0 value = g := rfl

@[simp] theorem writeRegister_mem (g : Guest) (r : ℕ) (value : BitVec 64) :
    (g.writeRegister r value).mem = g.mem := by
  unfold writeRegister
  split <;> rfl

theorem writeRegister_x (g : Guest) {r : ℕ} (value : BitVec 64) (h : r ≠ 0) :
    (g.writeRegister r value).x = Function.update g.x r value := by
  rw [writeRegister, if_neg h]

end Guest

end DinoRisc
