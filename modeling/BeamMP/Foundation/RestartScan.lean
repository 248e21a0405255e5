import Mathlib.Data.Finset.Card
import Mathlib.Data.Finset.Range
import Mathlib.Data.Fintype.Card
import Mathlib.Tactic.Common

/-!
# Least unused slot by a restarting scan

A pass goes over the used slots once. Whenever an entry equals the current
candidate, the candidate moves on in the middle of the pass and the pass is
marked unsuccessful; passes are repeated until one finds no match. The entries
may come in any order and with repetitions, and slots are named by an injective
function of the candidate number.
-/
namespace RestartScan

variable {α : Type*} [DecidableEq α] (slot : ℕ → α)

/-- One pass: the candidate after it, and whether no entry matched. -/
def pass (used : List α) (candidate : ℕ) : ℕ × Bool :=
  used.foldl (fun r x => if x = slot r.1 then (r.1 + 1, false) else r) (candidate, true)

/-- Repeat passes until one succeeds, giving up after a number of passes. -/
def scan (used : List α) : ℕ → ℕ → Option ℕ
  | 0, _ => none
  | passes + 1, candidate =>
    let r := pass slot used candidate
    if r.2 then some r.1 else scan used passes r.1

theorem foldl_pass_spec (used : List α) : ∀ (r : ℕ × Bool),
    let r' := used.foldl (fun r x => if x = slot r.1 then (r.1 + 1, false) else r) r
    r.1 ≤ r'.1 ∧ (∀ j, r.1 ≤ j → j < r'.1 → slot j ∈ used) ∧
      (r'.2 = true → r' = r ∧ slot r.1 ∉ used) ∧ (r'.2 = false → r.2 = true → r.1 < r'.1) := by
  induction used with
  | nil => intro r; simp
  | cons x xs ih =>
    intro r
    obtain ⟨hle, hmem, htrue, hfalse⟩ := ih (if x = slot r.1 then (r.1 + 1, false) else r)
    simp only [List.foldl_cons]
    split_ifs at hle hmem htrue hfalse ⊢ with hx
    · refine ⟨by omega, ?_, ?_, fun _ _ => by omega⟩
      · intro j hj hlt
        rcases Nat.eq_or_lt_of_le hj with rfl | hj
        · exact hx ▸ List.mem_cons_self
        · exact List.mem_cons_of_mem _ (hmem j hj hlt)
      · intro h
        obtain ⟨heq, -⟩ := htrue h
        rw [heq] at h
        exact absurd h (by simp)
    · refine ⟨hle, fun j hj hlt => List.mem_cons_of_mem _ (hmem j hj hlt), ?_, hfalse⟩
      intro h
      obtain ⟨heq, hnot⟩ := htrue h
      exact ⟨heq, by simp [hnot, Ne.symm hx]⟩

theorem pass_spec (used : List α) (candidate : ℕ) :
    candidate ≤ (pass slot used candidate).1 ∧
      (∀ j, candidate ≤ j → j < (pass slot used candidate).1 → slot j ∈ used) := by
  obtain ⟨hle, hmem, -, -⟩ := foldl_pass_spec slot used (candidate, true)
  exact ⟨hle, hmem⟩

/-- A successful pass leaves the candidate alone, and the candidate is unused. -/
theorem pass_success {used : List α} {candidate : ℕ}
    (h : (pass slot used candidate).2 = true) :
    (pass slot used candidate).1 = candidate ∧ slot candidate ∉ used := by
  obtain ⟨-, -, htrue, -⟩ := foldl_pass_spec slot used (candidate, true)
  obtain ⟨heq, hnot⟩ := htrue h
  exact ⟨congrArg Prod.fst heq, hnot⟩

theorem pass_failure {used : List α} {candidate : ℕ}
    (h : (pass slot used candidate).2 = false) :
    candidate < (pass slot used candidate).1 := by
  obtain ⟨-, -, -, hfalse⟩ := foldl_pass_spec slot used (candidate, true)
  exact hfalse h rfl

variable {slot} (hslot : Function.Injective slot)
include hslot

/-- A candidate below which every slot is used is at most the number of entries. -/
theorem le_length_of_all_used {used : List α} {n : ℕ} (h : ∀ j < n, slot j ∈ used) :
    n ≤ used.length := by
  have hsub : (Finset.range n).image slot ⊆ used.toFinset := by
    intro x hx
    obtain ⟨j, hj, rfl⟩ := Finset.mem_image.mp hx
    exact List.mem_toFinset.mpr (h j (Finset.mem_range.mp hj))
  have hcard := Finset.card_le_card hsub
  rw [Finset.card_image_of_injective _ hslot, Finset.card_range] at hcard
  exact hcard.trans used.toFinset_card_le

theorem scan_spec (used : List α) : ∀ passes candidate,
    (∀ j < candidate, slot j ∈ used) → used.length + 1 ≤ passes + candidate →
    ∃ n, scan slot used passes candidate = some n ∧
      (∀ j < n, slot j ∈ used) ∧ slot n ∉ used := by
  intro passes
  induction passes with
  | zero =>
    intro candidate hbelow hbudget
    have := le_length_of_all_used hslot hbelow
    omega
  | succ passes ih =>
    intro candidate hbelow hbudget
    obtain ⟨hle, hmem⟩ := pass_spec slot used candidate
    cases hfound : (pass slot used candidate).2 with
    | true =>
      obtain ⟨heq, hnot⟩ := pass_success slot hfound
      exact ⟨candidate, by simp [scan, hfound, heq], hbelow, hnot⟩
    | false =>
      have hlt := pass_failure slot hfound
      have hbelow' : ∀ j < (pass slot used candidate).1, slot j ∈ used := by
        intro j hj
        rcases Nat.lt_or_ge j candidate with h | h
        · exact hbelow j h
        · exact hmem j h hj
      obtain ⟨n, hn, hspec⟩ := ih _ hbelow' (by omega)
      exact ⟨n, by simpa [scan, hfound] using hn, hspec⟩

theorem scan_isSome (used : List α) : (scan slot used (used.length + 1) 0).isSome := by
  obtain ⟨n, hn, -⟩ := scan_spec hslot used (used.length + 1) 0 (by simp) (by omega)
  simp [hn]

/-- The slot number the restarting scan settles on. One pass more than there are
entries always suffices, so the scan is total. -/
def leastUnused (used : List α) : ℕ :=
  (scan slot used (used.length + 1) 0).get (scan_isSome hslot used)

theorem leastUnused_spec (used : List α) :
    (∀ j < leastUnused hslot used, slot j ∈ used) ∧ slot (leastUnused hslot used) ∉ used := by
  obtain ⟨n, hn, hspec⟩ := scan_spec hslot used (used.length + 1) 0 (by simp) (by omega)
  simpa [leastUnused, hn] using hspec

theorem leastUnused_not_mem (used : List α) : slot (leastUnused hslot used) ∉ used :=
  (leastUnused_spec hslot used).2

theorem leastUnused_le {used : List α} {n : ℕ} (h : slot n ∉ used) :
    leastUnused hslot used ≤ n := by
  by_contra hlt
  exact h ((leastUnused_spec hslot used).1 n (by omega))

end RestartScan
