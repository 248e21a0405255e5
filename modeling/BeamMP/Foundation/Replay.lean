import Mathlib.Data.Finset.Basic
import Mathlib.Tactic.Common

/-!
# The set that a log tells

An event of a log may say that a key is in a set from now on, or that it is not in it any
more. Whoever reads the log can keep the set without having seen the set itself.
-/
namespace Replay

variable {ε κ : Type*} [DecidableEq κ] (mark : ε → Option (κ × Bool))

/-- The set after one more event. -/
def tell (s : Finset κ) (e : ε) : Finset κ :=
  match mark e with
  | none => s
  | some (k, true) => insert k s
  | some (k, false) => s.erase k

/-- The set that a log tells of. -/
def told (log : List ε) : Finset κ := log.foldl (tell mark) ∅

variable {mark} {s : Finset κ} {log more : List ε} {e : ε} {k j : κ}

theorem told_append : told mark (log ++ more) = more.foldl (tell mark) (told mark log) :=
  List.foldl_append

theorem tell_of_unmarked (h : mark e = none) : tell mark s e = s := by
  unfold tell
  rw [h]

theorem tell_inserted (h : mark e = some (k, true)) : tell mark s e = insert k s := by
  unfold tell
  rw [h]

theorem tell_erased (h : mark e = some (k, false)) : tell mark s e = s.erase k := by
  unfold tell
  rw [h]

/-- Events that say nothing about any key. -/
theorem foldl_tell_of_unmarked (h : ∀ e ∈ more, mark e = none) :
    more.foldl (tell mark) s = s := by
  induction more with
  | nil => rfl
  | cons e more ih =>
    rw [List.foldl_cons, tell_of_unmarked (h e List.mem_cons_self)]
    exact ih fun e he => h e (List.mem_cons_of_mem _ he)

theorem mem_foldl_tell_erased {α : Type*} {f : α → ε} {key : α → κ} {xs : List α}
    (h : ∀ x ∈ xs, mark (f x) = some (key x, false)) :
    k ∈ (xs.map f).foldl (tell mark) s ↔ k ∈ s ∧ ∀ x ∈ xs, key x ≠ k := by
  induction xs generalizing s with
  | nil => simp
  | cons x xs ih =>
    rw [List.map_cons, List.foldl_cons, ih fun y hy => h y (List.mem_cons_of_mem _ hy),
      tell_erased (h x List.mem_cons_self), Finset.mem_erase, List.forall_mem_cons]
    constructor
    · rintro ⟨⟨hne, hmem⟩, hxs⟩
      exact ⟨hmem, hne.symm, hxs⟩
    · rintro ⟨hmem, hne, hxs⟩
      exact ⟨⟨hne.symm, hmem⟩, hxs⟩

end Replay
