import Mathlib.Tactic.Common

/-!
# Computations that throw

The rules of `Except` for code that is written with `do`: how a bind goes on from a value, stops at what
was thrown, and how a result is traced back to the two halves of a bind.
-/

namespace TCPClientServer.Basis

section Throwing
variable {ε α β : Type}

@[simp] theorem ok_bind (a : α) (g : α → Except ε β) : (Except.ok a >>= g) = g a := rfl

@[simp] theorem error_bind (e : ε) (g : α → Except ε β) : (Except.error e >>= g) = .error e := rfl

@[simp] theorem pure_eq_ok (a : α) : (pure a : Except ε α) = .ok a := rfl

theorem bind_eq_ok {x : Except ε α} {g : α → Except ε β} {b : β} :
    (x >>= g) = .ok b ↔ ∃ a, x = .ok a ∧ g a = .ok b := by
  cases x with
  | error e => simp
  | ok a => simp

theorem bind_eq_error {x : Except ε α} {g : α → Except ε β} {e : ε} :
    (x >>= g) = .error e ↔ x = .error e ∨ ∃ a, x = .ok a ∧ g a = .error e := by
  cases x with
  | error e => simp
  | ok a => simp

end Throwing

end TCPClientServer.Basis
