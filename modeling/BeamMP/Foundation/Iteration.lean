import Mathlib.Tactic.Common

/-!
# Iterating a deterministic step function

`step s` is the next state, or `none` where the program has no behaviour. A
program that has come to its end stays where it is. The rules below turn a
measure that every step lowers into a number of steps that is enough, and make
any two ways to an end agree.
-/
namespace Iteration

variable {σ : Type*} (step : σ → Option σ)

def iterate : ℕ → σ → Option σ
  | 0, s => some s
  | n + 1, s => (step s).bind (iterate n)

/-- Some number of steps leads from one state to the other. -/
def Reaches (s t : σ) : Prop := ∃ n, iterate step n s = some t

variable {step} {s t u : σ}

theorem iterate_succ (n : ℕ) (s : σ) : iterate step (n + 1) s = (step s).bind (iterate step n) :=
  rfl

theorem iterate_add (m n : ℕ) (s : σ) :
    iterate step (m + n) s = (iterate step m s).bind (iterate step n) := by
  induction m generalizing s with
  | zero => simp [iterate]
  | succ m ih =>
    rw [Nat.succ_add, iterate_succ, iterate_succ, Option.bind_assoc]
    exact Option.bind_congr fun t _ => ih t

theorem Reaches.refl (s : σ) : Reaches step s s := ⟨0, rfl⟩

theorem Reaches.trans (h : Reaches step s t) (h' : Reaches step t u) : Reaches step s u := by
  obtain ⟨m, hm⟩ := h
  obtain ⟨n, hn⟩ := h'
  exact ⟨m + n, by rw [iterate_add, hm, Option.bind_some, hn]⟩

theorem Reaches.head (h : step s = some t) (h' : Reaches step t u) : Reaches step s u :=
  Reaches.trans ⟨1, by rw [iterate_succ, h]; rfl⟩ h'

/-- If an invariant promises a next state and passes to it, it holds after any number of steps. -/
theorem exists_iterate {I : σ → Prop} (hstep : ∀ s, I s → ∃ t, step s = some t ∧ I t)
    (n : ℕ) (hs : I s) : ∃ t, iterate step n s = some t ∧ I t := by
  induction n generalizing s with
  | zero => exact ⟨s, rfl, hs⟩
  | succ n ih =>
    obtain ⟨t, ht, hI⟩ := hstep s hs
    obtain ⟨u, hu, hrest⟩ := ih hI
    exact ⟨u, by rw [iterate_succ, ht, Option.bind_some, hu], hrest⟩

/-- An end, once reached, is what any larger number of steps leads to. -/
theorem iterate_of_stays (h : step s = some s) (n : ℕ) : iterate step n s = some s := by
  induction n with
  | zero => rfl
  | succ n ih => rw [iterate_succ, h, Option.bind_some, ih]

theorem Reaches.unique (h : Reaches step s t) (h' : Reaches step s u) (ht : step t = some t)
    (hu : step u = some u) : t = u := by
  obtain ⟨m, hm⟩ := h
  obtain ⟨n, hn⟩ := h'
  have hm' : iterate step (m + n) s = some t := by
    rw [iterate_add, hm, Option.bind_some, iterate_of_stays ht]
  have hn' : iterate step (m + n) s = some u := by
    rw [Nat.add_comm, iterate_add, hn, Option.bind_some, iterate_of_stays hu]
  exact Option.some.inj (hm'.symm.trans hn')

/-- If every step short of the end lowers a measure, the measure bounds the number of steps. -/
theorem exists_end {I ended : σ → Prop} {measure : σ → ℕ}
    (hstep : ∀ s, I s → ¬ ended s → ∃ t, step s = some t ∧ I t ∧ measure t < measure s)
    (hend : ∀ s, ended s → step s = some s) {n : ℕ} (hs : I s) (hn : measure s ≤ n) :
    ∃ t, iterate step n s = some t ∧ I t ∧ ended t := by
  induction n generalizing s with
  | zero =>
    by_cases hended : ended s
    · exact ⟨s, rfl, hs, hended⟩
    · obtain ⟨t, -, -, hlt⟩ := hstep s hs hended
      omega
  | succ n ih =>
    by_cases hended : ended s
    · exact ⟨s, iterate_of_stays (hend s hended) _, hs, hended⟩
    · obtain ⟨t, ht, hI, hlt⟩ := hstep s hs hended
      obtain ⟨u, hu, hrest⟩ := ih hI (by omega)
      exact ⟨u, by rw [iterate_succ, ht, Option.bind_some, hu], hrest⟩

end Iteration
