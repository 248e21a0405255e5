import Mathlib.Logic.Function.Basic
import Mathlib.Tactic.Common

/-!
# Local states of threads

A map `τ → Option β` holds the local state of every thread that is inside some
procedure, and `none` for the others. Entering, moving on and leaving update the
entry of one thread.
-/
namespace Locals

variable {τ β : Type*} [DecidableEq τ]

def enter (m : τ → Option β) (t : τ) (b : β) : τ → Option β := Function.update m t (some b)

def leave (m : τ → Option β) (t : τ) : τ → Option β := Function.update m t none

variable {m : τ → Option β} {t u : τ} {b c : β}

@[simp] theorem enter_self : enter m t b t = some b := Function.update_self _ _ _

@[simp] theorem leave_self : leave m t t = none := Function.update_self _ _ _

theorem enter_of_ne (h : u ≠ t) : enter m t b u = m u := Function.update_of_ne h _ _

theorem leave_of_ne (h : u ≠ t) : leave m t u = m u := Function.update_of_ne h _ _

theorem enter_eq_some_iff : enter m t b u = some c ↔ u = t ∧ c = b ∨ u ≠ t ∧ m u = some c := by
  by_cases h : u = t
  · subst h
    simp [eq_comm]
  · simp [enter_of_ne h, h]

theorem leave_eq_some_iff : leave m t u = some c ↔ u ≠ t ∧ m u = some c := by
  by_cases h : u = t
  · subst h
    simp
  · simp [leave_of_ne h, h]

end Locals
