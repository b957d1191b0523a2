import Mathlib

namespace DinoRisc

/-- The exceptions of `Error.h`, the one that `std::get` throws for the wrong alternative, and the two
ways in which the program leaves its defined behaviour: a read outside of a buffer, and generated
code that has no meaning, accesses memory that is not the guest's, or does not return to its caller
as a function does. -/
inductive Error
  | elf (what : String)
  | decoding (what : String)
  | unsupportedInstruction (what : String)
  | encoding (what : String)
  | lowering (what : String)
  | runtime (what : String)
  | badVariantAccess
  | outOfBounds
  | hostFault
  deriving DecidableEq, Repr

def hex (n : ℕ) : String := String.ofList (Nat.toDigits 16 n)

theorem bind_eq_ok {α β : Type} {x : Except Error α} {f : α → Except Error β} {b : β} :
    (x >>= f) = .ok b ↔ ∃ a, x = .ok a ∧ f a = .ok b := by
  cases x with
  | error e => simp [bind, Except.bind]
  | ok a => simp [bind, Except.bind]

/-- `std::setw(width)` with `std::setfill('0')`. -/
def zeroFill (width : ℕ) (s : String) : String :=
  String.ofList (List.replicate (width - s.length) '0') ++ s

end DinoRisc
