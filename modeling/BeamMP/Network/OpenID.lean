import BeamMP.Foundation.Execution
import BeamMP.Foundation.RestartScan
import Mathlib.Data.Int.Basic
import Mathlib.Tactic.Common

/-!
# Client IDs

`OnConnect` asks `OpenID` for the lowest ID that no client in `mClients` has and
stores it with `SetID`. `mOpenIDMutex` covers the scan but not the store, so the
joins and leaves of other clients run in between. A client is an object of an
arbitrary type: a new connection is a new object.
-/
namespace BeamMP

/-- How far the thread of a client is in `Authentication`, `OnConnect` and `RemoveClient`. -/
inductive IDPhase
  | outside
  | registered
  | chosen (ID : ℕ)
  | identified
  | removed
deriving DecidableEq

/-- `mServer.mClients` and the `mID` of every client. -/
structure IDState (κ : Type*) where
  clients : List κ
  mID : κ → ℤ
  phase : κ → IDPhase

inductive IDAction (κ : Type*)
  | insertClient (c : κ)
  | openID (c : κ)
  | setID (c : κ)
  | removeClient (c : κ)

variable {κ : Type*}

/-- No client is connected; `mID` starts as -1. -/
def IDState.start (κ : Type*) : IDState κ where
  clients := []
  mID _ := -1
  phase _ := .outside

namespace IDState

variable (s : IDState κ)

/-- The loop of `OpenID` over the IDs of `mClients`. -/
def openID : ℕ := RestartScan.leastUnused Int.ofNat_injective (s.clients.map s.mID)

/-- No two distinct clients share an assigned ID. -/
def UniqueIDs : Prop :=
  ∀ c ∈ s.clients, ∀ d ∈ s.clients, s.mID c = s.mID d → 0 ≤ s.mID c → c = d

/-- An `OpenID` does not run while another client has yet to store the lowest free ID. -/
def choosesAlone : IDAction κ → Bool
  | .openID _ => s.clients.all fun d => s.phase d ≠ .chosen s.openID
  | _ => true

/-- The client has the ID, or has chosen it and is about to store it. -/
def Holds (c : κ) (ID : ℕ) : Prop := s.mID c = ID ∨ s.phase c = .chosen ID

/-- Every ID is held by one client at most, whether it is stored or only chosen. -/
structure IDInvariant : Prop where
  alone : ∀ c ∈ s.clients, ∀ d ∈ s.clients, ∀ ID, s.Holds c ID → s.Holds d ID → c = d
  outside : ∀ c, s.phase c = .outside → s.mID c = -1

variable {s} {t : IDState κ} {c d : κ} {ID : ℕ}

theorem openID_not_mem : (s.openID : ℤ) ∉ s.clients.map s.mID :=
  RestartScan.leastUnused_not_mem _ _

theorem not_holds_openID (hd : d ∈ s.clients) (h : s.choosesAlone (.openID c) = true) :
    ¬ s.Holds d s.openID := by
  rintro (hID | hphase)
  · exact openID_not_mem (List.mem_map.mpr ⟨d, hd, hID⟩)
  · have := List.all_eq_true.mp h d hd
    simp [hphase] at this

theorem start_idInvariant : (start κ).IDInvariant where
  alone := by simp [start]
  outside _ _ := rfl

theorem IDInvariant.uniqueIDs (h : s.IDInvariant) : s.UniqueIDs := by
  intro c hc d hd heq hnonneg
  obtain ⟨ID, hID⟩ := Int.eq_ofNat_of_zero_le hnonneg
  exact h.alone c hc d hd ID (Or.inl hID) (Or.inl (heq ▸ hID))

/-- A step after which nobody holds an ID it did not hold before keeps the invariant. -/
theorem IDInvariant.of_holds (h : s.IDInvariant) (hmem : ∀ c ∈ t.clients, c ∈ s.clients)
    (hholds : ∀ c ∈ t.clients, ∀ ID, t.Holds c ID → s.Holds c ID)
    (hout : ∀ c, t.phase c = .outside → t.mID c = -1) : t.IDInvariant where
  alone c hc d hd ID hcID hdID :=
    h.alone c (hmem c hc) d (hmem d hd) ID (hholds c hc ID hcID) (hholds d hd ID hdID)
  outside := hout

section Step

variable (s) [DecidableEq κ]

instance : Decidable s.UniqueIDs := inferInstanceAs (Decidable (∀ _ ∈ _, ∀ _ ∈ _, _))

def enter (c : κ) (p : IDPhase) : IDState κ := { s with phase := Function.update s.phase c p }

def insertClient (c : κ) : IDState κ := { s with clients := s.clients ++ [c] }

def setID (c : κ) (ID : ℕ) : IDState κ := { s with mID := Function.update s.mID c ID }

def removeClient (c : κ) : IDState κ := { s with clients := s.clients.filter (· ≠ c) }

/-- One atomic step. A client is removed before its `OnConnect` or after it, by the same
thread, so never between `OpenID` and `SetID`. -/
def step (s : IDState κ) : IDAction κ → Option (IDState κ)
  | .insertClient c =>
    if s.phase c = .outside then some ((s.insertClient c).enter c .registered) else none
  | .openID c =>
    if s.phase c = .registered then some (s.enter c (.chosen s.openID)) else none
  | .setID c =>
    match s.phase c with
    | .chosen ID => some ((s.setID c ID).enter c .identified)
    | _ => none
  | .removeClient c =>
    if s.phase c = .registered ∨ s.phase c = .identified then
      some ((s.removeClient c).enter c .removed)
    else none

variable {s}

theorem IDInvariant.insertClient (h : s.IDInvariant) (hc : s.phase c = .outside) :
    ((s.insertClient c).enter c .registered).IDInvariant where
  alone := by
    have hnone : ∀ ID, ¬ ((s.insertClient c).enter c .registered).Holds c ID := by
      intro ID hID
      have hmID := h.outside c hc
      simp [Holds, enter, IDState.insertClient, hmID] at hID
    have hold : ∀ d, d ≠ c → ∀ ID,
        ((s.insertClient c).enter c .registered).Holds d ID → s.Holds d ID := by
      intro d hne ID hID
      simpa [Holds, enter, IDState.insertClient, hne] using hID
    intro d hd e he ID hdID heID
    have hdc : d ≠ c := fun heq => hnone ID (heq ▸ hdID)
    have hec : e ≠ c := fun heq => hnone ID (heq ▸ heID)
    have hds : d ∈ s.clients := by simpa [enter, IDState.insertClient, hdc] using hd
    have hes : e ∈ s.clients := by simpa [enter, IDState.insertClient, hec] using he
    exact h.alone d hds e hes ID (hold d hdc ID hdID) (hold e hec ID heID)
  outside d hd := by
    by_cases hdc : d = c
    · simp [enter, hdc] at hd
    · exact h.outside d (by simpa [enter, IDState.insertClient, hdc] using hd)

theorem IDInvariant.openID (h : s.IDInvariant) (halone : s.choosesAlone (.openID c) = true) :
    (s.enter c (.chosen s.openID)).IDInvariant where
  alone := by
    have hold : ∀ d ID, (s.enter c (.chosen s.openID)).Holds d ID →
        s.Holds d ID ∨ d = c ∧ ID = s.openID := by
      intro d ID hID
      by_cases hdc : d = c
      · rcases hID with hID | hID
        · exact Or.inl (Or.inl hID)
        · simp only [enter, hdc, Function.update_self, IDPhase.chosen.injEq] at hID
          exact Or.inr ⟨hdc, hID.symm⟩
      · exact Or.inl (by simpa [Holds, enter, hdc] using hID)
    intro d (hd : d ∈ s.clients) e (he : e ∈ s.clients) ID hdID heID
    rcases hold d ID hdID with hdID | ⟨hdc, hdeq⟩ <;>
      rcases hold e ID heID with heID | ⟨hec, heeq⟩
    · exact h.alone d hd e he ID hdID heID
    · rw [heeq] at hdID
      exact absurd hdID (not_holds_openID hd halone)
    · rw [hdeq] at heID
      exact absurd heID (not_holds_openID he halone)
    · rw [hdc, hec]
  outside d hd := by
    by_cases hdc : d = c
    · simp [enter, hdc] at hd
    · exact h.outside d (by simpa [enter, hdc] using hd)

theorem IDInvariant.setID (h : s.IDInvariant) (hc : s.phase c = .chosen ID) :
    ((s.setID c ID).enter c .identified).IDInvariant := by
  refine h.of_holds (fun d hd => hd) ?_ ?_
  · intro d _ n hn
    by_cases hdc : d = c
    · rcases hn with hn | hn
      · simp only [enter, IDState.setID, hdc, Function.update_self] at hn
        exact Or.inr (by rw [hdc, hc, Int.ofNat.inj hn])
      · simp [enter, hdc] at hn
    · simpa [Holds, enter, IDState.setID, hdc] using hn
  · intro d hd
    by_cases hdc : d = c
    · simp [enter, hdc] at hd
    · have hd' : s.phase d = .outside := by simpa [enter, IDState.setID, hdc] using hd
      simpa [enter, IDState.setID, hdc] using h.outside d hd'

theorem IDInvariant.removeClient (h : s.IDInvariant) :
    ((s.removeClient c).enter c .removed).IDInvariant := by
  have hne : ∀ d ∈ (s.removeClient c).clients, d ∈ s.clients ∧ d ≠ c := by
    simp [IDState.removeClient]
  refine h.of_holds (fun d hd => (hne d hd).1) ?_ ?_
  · intro d hd ID hID
    simpa [Holds, enter, IDState.removeClient, (hne d hd).2] using hID
  · intro d hd
    by_cases hdc : d = c
    · simp [enter, hdc] at hd
    · exact h.outside d (by simpa [enter, IDState.removeClient, hdc] using hd)

/-- Step lemma: only an `OpenID` that races with another one can break the invariant. -/
theorem IDInvariant.step {a : IDAction κ} (h : s.IDInvariant) (halone : s.choosesAlone a = true)
    (hstep : s.step a = some t) : t.IDInvariant := by
  cases a with
  | insertClient c =>
    obtain ⟨hc, heq⟩ := Option.ite_none_right_eq_some.mp hstep
    cases heq
    exact h.insertClient hc
  | openID c =>
    obtain ⟨-, heq⟩ := Option.ite_none_right_eq_some.mp hstep
    cases heq
    exact h.openID halone
  | setID c =>
    simp only [IDState.step] at hstep
    split at hstep
    case h_1 ID hc =>
      cases hstep
      exact h.setID hc
    case h_2 => cases hstep
  | removeClient c =>
    obtain ⟨-, heq⟩ := Option.ite_none_right_eq_some.mp hstep
    cases heq
    exact h.removeClient

/-- When no two clients are handed the same ID before one of them has stored it, no two
clients ever share an ID. -/
theorem uniqueIDs_of_choosesAlone (as : List (IDAction κ))
    (has : Execution.Along step (fun s a => s.choosesAlone a = true) (start κ) as)
    (s : IDState κ) (hrun : Execution.run step (start κ) as = some s) : s.UniqueIDs := by
  have hinv : s.IDInvariant :=
    Execution.run_invariant (fun _ _ _ h halone hstep => h.step halone hstep)
      start_idInvariant has hrun
  exact hinv.uniqueIDs

/-- Two clients whose `OnConnect` steps do not overlap. -/
theorem uniqueIDs_after_two_joins :
    ∃ s, Execution.run step (start (Fin 2))
        [.insertClient 0, .insertClient 1, .openID 0, .setID 0, .openID 1, .setID 1] = some s ∧
      s.UniqueIDs :=
  ⟨_, rfl, uniqueIDs_of_choosesAlone
    [.insertClient 0, .insertClient 1, .openID 0, .setID 0, .openID 1, .setID 1]
    (by decide) _ rfl⟩

/-- Two clients that both run `OpenID` before either stores the result. -/
theorem not_uniqueIDs_after_overlapping_joins :
    ∃ s, Execution.run step (start (Fin 2))
        [.insertClient 0, .insertClient 1, .openID 0, .openID 1, .setID 0, .setID 1] = some s ∧
      ¬ s.UniqueIDs :=
  ⟨_, rfl, by decide⟩

end Step
end IDState
end BeamMP
