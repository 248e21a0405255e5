import Mathlib.Algebra.Order.Monoid.Unbundled.Basic
import Mathlib.Algebra.Order.Monoid.Defs
import Mathlib.Data.List.Chain

/-!
# Events that keep a distance

A history lists events, the newest one first. Each has the time at which it was found
due and the time at which it was done with; the next one is not due before a gap has
passed since.
-/
namespace Spacing

structure Event (T : Type*) where
  due : T
  done : T
deriving DecidableEq

variable {T : Type*} [AddCommMonoid T] [PartialOrder T]

def Spaced (gap : T) (history : List (Event T)) : Prop :=
  history.IsChain fun e earlier => earlier.done + gap ≤ e.due

variable {gap : T} {e e' first : Event T} {history : List (Event T)}

theorem spaced_singleton (gap : T) (e : Event T) : Spaced gap [e] := List.isChain_singleton e

theorem Spaced.cons (h : Spaced gap (e :: history)) (hdue : e.done + gap ≤ e'.due) :
    Spaced gap (e' :: e :: history) := List.IsChain.cons_cons hdue h

/-- So many gaps have passed between the first event and the newest one. -/
theorem Spaced.le_due [IsOrderedAddMonoid T] (h : Spaced gap (history ++ [first]))
    (hdone : ∀ e ∈ history ++ [first], e.due ≤ e.done) :
    ∀ e ∈ (history ++ [first]).head?, first.due + history.length • gap ≤ e.due := by
  induction history with
  | nil => simp
  | cons e history ih =>
    intro e' he'
    obtain rfl : e = e' := by simpa using he'
    obtain ⟨hhead, htail⟩ := List.isChain_cons.mp h
    cases hrest : (history ++ [first]).head? with
    | none => simp at hrest
    | some e' =>
      have hle := ih htail (fun e he => hdone e (List.mem_cons_of_mem _ he)) e' hrest
      have hdone' := hdone e' (List.mem_cons_of_mem _ (List.mem_of_mem_head? hrest))
      calc first.due + (history.length + 1) • gap
          = first.due + history.length • gap + gap := by rw [succ_nsmul, add_assoc]
        _ ≤ e'.done + gap := by gcongr; exact hle.trans hdone'
        _ ≤ e.due := hhead e' hrest

end Spacing
