import BeamMP.Client.VehicleSections
import BeamMP.Foundation.Execution
import Mathlib.Algebra.Order.BigOperators.Group.List

/-!
# The sweep of the PPS monitor

Once a second `TPPSMonitor` counts the clients that have cars and their cars, and
divides the number of packets by both. For each client the car count is read
twice, to test it and to add it, and other threads change the vehicle tables
between the two reads.
-/
namespace BeamMP

open Execution

/-- How far a sweep has come: the clients it has yet to visit, between the two reads of a
client's car count, and behind the loop. -/
inductive SweepPhase (κ : Type)
  | visit (rest : List κ)
  | recount (c : κ) (rest : List κ)
  | check
  | divide
  | reset
  | done

/-- The state of a sweep. The second reads are kept beside the variables of the code. -/
structure PPSSweep (κ : Type) where
  client : κ → TClient
  mInternalPPS : ℤ
  phase : SweepPhase κ
  C : ℤ := 0
  V : ℤ := 0
  PPS : Bytes
  recounts : List ℤ := []

/-- A section of another thread on the vehicles of a client, a counted packet, the next step of
the sweep, or finding that the next client is gone. -/
inductive SweepLabel (κ : Type)
  | other (d : κ) (k : VehicleSection)
  | incrementInternalPPS
  | sweep
  | expired

/-- The tracked unicycle is only left out of a table it is in. -/
theorem TClient.getCarCount_nonneg (c : TClient) : 0 ≤ c.getCarCount := by
  unfold getCarCount
  split_ifs with htracked
  · have hpos : 0 < c.vehicleIDs.length := List.length_pos_of_mem htracked
    rw [length_vehicleIDs] at hpos
    omega
  · omega

namespace PPSSweep

variable {κ : Type}

/-- `IncrementInternalPPS` of a receive thread. -/
def incrementInternalPPS (s : PPSSweep κ) : PPSSweep κ :=
  { s with mInternalPPS := s.mInternalPPS + 1 }

def count (s : PPSSweep κ) (c : κ) (rest : List κ) : PPSSweep κ :=
  if 0 < (s.client c).getCarCount then { s with C := s.C + 1, phase := .recount c rest }
  else { s with phase := .visit rest }

def recount (s : PPSSweep κ) (c : κ) (rest : List κ) : PPSSweep κ :=
  { s with
    V := s.V + (s.client c).getCarCount
    phase := .visit rest
    recounts := s.recounts ++ [(s.client c).getCarCount] }

def check (s : PPSSweep κ) : PPSSweep κ :=
  if s.C = 0 ∨ s.mInternalPPS = 0 then { s with PPS := ascii "-", phase := .reset }
  else { s with phase := .divide }

def divide (s : PPSSweep κ) : PPSSweep κ :=
  { s with PPS := toDecimal ((s.mInternalPPS.tdiv s.C).tdiv s.V), phase := .reset }

def advance (s : PPSSweep κ) : Option (PPSSweep κ) :=
  match s.phase with
  | .visit (c :: rest) => some (s.count c rest)
  | .recount c rest => some (s.recount c rest)
  | .visit [] => some { s with phase := .check }
  | .check => some s.check
  | .divide => some s.divide
  | .reset => some { s with mInternalPPS := 0, phase := .done }
  | .done => none

def skip (s : PPSSweep κ) : Option (PPSSweep κ) :=
  match s.phase with
  | .visit (_ :: rest) => some { s with phase := .visit rest }
  | _ => none

def start (client : κ → TClient) (clients : List κ) (mInternalPPS : ℤ) (PPS : Bytes) :
    PPSSweep κ :=
  { client, mInternalPPS, phase := .visit clients, PPS }

/-- The division has no zero divisor. -/
def DividesSafely (s : PPSSweep κ) : Prop :=
  s.phase = .divide → s.C ≠ 0 ∧ s.V ≠ 0

/-- At the test no packet was counted, or no client had cars at its first read, or some client
that had cars then has cars at its second read as well. -/
def SomeCarsStayed (s : PPSSweep κ) : SweepLabel κ → Prop
  | .sweep =>
    s.phase = .check → s.mInternalPPS = 0 ∨ s.recounts = [] ∨ ∃ n ∈ s.recounts, 0 < n
  | _ => True

/-- No other thread leaves a client without cars between the two reads of its count. -/
def KeepsCarsBetweenReads (s : PPSSweep κ) : SweepLabel κ → Prop
  | .other d k =>
    ∀ rest, s.phase = .recount d rest → 0 < (k.exec (s.client d)).2.getCarCount
  | _ => True

/-- The client that is counted and not recounted yet. -/
def underCount : SweepPhase κ → ℤ
  | .recount _ _ => 1
  | _ => 0

/-- The variables of the code in terms of the reads. -/
structure Counted (s : PPSSweep κ) : Prop where
  C_eq : s.C = s.recounts.length + underCount s.phase
  V_eq : s.V = s.recounts.sum
  nonneg : ∀ n ∈ s.recounts, 0 ≤ n

variable {s t : PPSSweep κ}

theorem start_counted (client : κ → TClient) (clients : List κ) (mInternalPPS : ℤ)
    (PPS : Bytes) : (start client clients mInternalPPS PPS).Counted where
  C_eq := rfl
  V_eq := rfl
  nonneg _ hn := absurd hn List.not_mem_nil

theorem Counted.of_eq (hs : s.Counted) (hC : t.C = s.C) (hV : t.V = s.V)
    (hrecounts : t.recounts = s.recounts) (hphase : underCount t.phase = underCount s.phase) :
    t.Counted where
  C_eq := by rw [hC, hrecounts, hphase, hs.C_eq]
  V_eq := by rw [hV, hrecounts, hs.V_eq]
  nonneg := hrecounts ▸ hs.nonneg

theorem Counted.count (hs : s.Counted) {c : κ} {rest : List κ}
    (hphase : s.phase = .visit (c :: rest)) : (s.count c rest).Counted := by
  have hC := hs.C_eq
  unfold PPSSweep.count
  split_ifs
  · refine ⟨?_, hs.V_eq, hs.nonneg⟩
    rw [hphase] at hC
    simp only [hC, underCount, add_zero]
  · exact hs.of_eq rfl rfl rfl (by rw [hphase]; rfl)

theorem Counted.recount (hs : s.Counted) {c : κ} {rest : List κ}
    (hphase : s.phase = .recount c rest) : (s.recount c rest).Counted where
  C_eq := by
    have hC := hs.C_eq
    rw [hphase] at hC
    simp [PPSSweep.recount, underCount, hC]
  V_eq := by simp [PPSSweep.recount, hs.V_eq]
  nonneg n hn := by
    rcases List.mem_append.mp hn with hold | hnew
    · exact hs.nonneg n hold
    · rw [List.mem_singleton.mp hnew]
      exact TClient.getCarCount_nonneg _

theorem Counted.check (hs : s.Counted) (hphase : s.phase = .check) : s.check.Counted := by
  unfold PPSSweep.check
  split_ifs
  · exact hs.of_eq rfl rfl rfl (by rw [hphase]; rfl)
  · exact hs.of_eq rfl rfl rfl (by rw [hphase]; rfl)

theorem advance_cases (h : s.advance = some t) :
    (∃ c rest, s.phase = .visit (c :: rest) ∧ t = s.count c rest) ∨
    (∃ c rest, s.phase = .recount c rest ∧ t = s.recount c rest) ∨
    (s.phase = .visit [] ∧ t = { s with phase := .check }) ∨
    (s.phase = .check ∧ t = s.check) ∨
    (s.phase = .divide ∧ t = s.divide) ∨
    (s.phase = .reset ∧ t = { s with mInternalPPS := 0, phase := .done }) := by
  unfold advance at h
  split at h
  · next c rest hphase => exact .inl ⟨c, rest, hphase, (Option.some.inj h).symm⟩
  · next c rest hphase => exact .inr (.inl ⟨c, rest, hphase, (Option.some.inj h).symm⟩)
  · next hphase => exact .inr (.inr (.inl ⟨hphase, (Option.some.inj h).symm⟩))
  · next hphase => exact .inr (.inr (.inr (.inl ⟨hphase, (Option.some.inj h).symm⟩)))
  · next hphase => exact .inr (.inr (.inr (.inr (.inl ⟨hphase, (Option.some.inj h).symm⟩))))
  · next hphase => exact .inr (.inr (.inr (.inr (.inr ⟨hphase, (Option.some.inj h).symm⟩))))
  · cases h

theorem skip_cases (h : s.skip = some t) :
    ∃ c rest, s.phase = .visit (c :: rest) ∧ t = { s with phase := .visit rest } := by
  unfold skip at h
  split at h
  · next c rest hphase => exact ⟨c, rest, hphase, (Option.some.inj h).symm⟩
  · cases h

theorem Counted.V_ne_zero_iff (hs : s.Counted) : s.V ≠ 0 ↔ ∃ n ∈ s.recounts, 0 < n := by
  rw [hs.V_eq]
  constructor
  · intro hsum
    by_contra hnone
    push Not at hnone
    exact hsum (List.sum_eq_zero fun n hn => le_antisymm (hnone n hn) (hs.nonneg n hn))
  · rintro ⟨n, hn, hpos⟩ hsum
    have hzero := List.all_zero_of_le_zero_le_of_sum_eq_zero hs.nonneg hsum hn
    omega

theorem Counted.C_eq_zero_iff (hs : s.Counted) (hphase : s.phase = .check) :
    s.C = 0 ↔ s.recounts = [] := by
  have hC := hs.C_eq
  rw [hphase] at hC
  simp only [underCount, add_zero] at hC
  rw [hC, Nat.cast_eq_zero, List.length_eq_zero_iff]

/-- The test lets a sweep through to a safe division exactly if some cars stayed. -/
theorem Counted.check_dividesSafely_iff (hs : s.Counted) (hphase : s.phase = .check) :
    s.check.DividesSafely ↔ s.SomeCarsStayed .sweep := by
  have hzero := hs.C_eq_zero_iff hphase
  have hstayed := hs.V_ne_zero_iff
  unfold PPSSweep.check DividesSafely SomeCarsStayed
  split_ifs with htest
  · have hleft : s.mInternalPPS = 0 ∨ s.recounts = [] := by
      rw [← hzero]
      exact htest.symm
    simp only [false_implies, true_iff]
    exact fun _ => or_assoc.mp (Or.inl hleft)
  · push Not at htest
    have hne : s.recounts ≠ [] := fun h => htest.1 (hzero.mpr h)
    simp [htest.1, htest.2, hne, hphase, hstayed]

/-- Every counted client still has cars. -/
structure CarsKept (s : PPSSweep κ) : Prop where
  recounts : ∀ n ∈ s.recounts, 0 < n
  current : ∀ c rest, s.phase = .recount c rest → 0 < (s.client c).getCarCount

theorem CarsKept.someCarsStayed (hs : s.CarsKept) (a : SweepLabel κ) : s.SomeCarsStayed a := by
  cases a with
  | sweep =>
    intro _
    cases hrecounts : s.recounts with
    | nil => exact Or.inr (Or.inl rfl)
    | cons n ns =>
      have hn : n ∈ s.recounts := hrecounts ▸ List.mem_cons_self
      exact Or.inr (Or.inr ⟨n, List.mem_cons_self, hs.recounts n hn⟩)
  | _ => trivial

variable [DecidableEq κ]

def change (s : PPSSweep κ) (d : κ) (k : VehicleSection) : PPSSweep κ :=
  { s with client := Function.update s.client d (k.exec (s.client d)).2 }

def step (s : PPSSweep κ) : SweepLabel κ → Option (PPSSweep κ)
  | .other d k => some (s.change d k)
  | .incrementInternalPPS => some s.incrementInternalPPS
  | .sweep => s.advance
  | .expired => s.skip

theorem Counted.step {a : SweepLabel κ} (hs : s.Counted) (h : s.step a = some t) : t.Counted := by
  cases a with
  | other d k => exact Option.some.inj h ▸ hs.of_eq rfl rfl rfl rfl
  | incrementInternalPPS => exact Option.some.inj h ▸ hs.of_eq rfl rfl rfl rfl
  | expired =>
    obtain ⟨c, rest, hphase, rfl⟩ := skip_cases h
    exact hs.of_eq rfl rfl rfl (by rw [hphase]; rfl)
  | sweep =>
    obtain ⟨c, rest, hphase, rfl⟩ | ⟨c, rest, hphase, rfl⟩ | ⟨hphase, rfl⟩ | ⟨hphase, rfl⟩ |
      ⟨hphase, rfl⟩ | ⟨hphase, rfl⟩ := advance_cases h
    · exact hs.count hphase
    · exact hs.recount hphase
    · exact hs.of_eq rfl rfl rfl (by rw [hphase]; rfl)
    · exact hs.check hphase
    · exact hs.of_eq rfl rfl rfl (by rw [hphase]; rfl)
    · exact hs.of_eq rfl rfl rfl (by rw [hphase]; rfl)

theorem dividesSafely_step {a : SweepLabel κ} (hs : s.Counted) (hsafe : s.DividesSafely)
    (hguard : s.SomeCarsStayed a) (h : s.step a = some t) : t.DividesSafely := by
  cases a with
  | other d k => exact Option.some.inj h ▸ hsafe
  | incrementInternalPPS => exact Option.some.inj h ▸ hsafe
  | expired =>
    obtain ⟨c, rest, -, rfl⟩ := skip_cases h
    rintro ⟨⟩
  | sweep =>
    obtain ⟨c, rest, -, rfl⟩ | ⟨c, rest, -, rfl⟩ | ⟨-, rfl⟩ | ⟨hphase, rfl⟩ | ⟨-, rfl⟩ |
      ⟨-, rfl⟩ := advance_cases h
    · unfold count
      split_ifs
      · rintro ⟨⟩
      · rintro ⟨⟩
    · rintro ⟨⟩
    · rintro ⟨⟩
    · exact (hs.check_dividesSafely_iff hphase).mpr hguard
    · rintro ⟨⟩
    · rintro ⟨⟩

theorem someCarsStayed_of_dividesSafely {a : SweepLabel κ} (hs : s.Counted)
    (h : s.step a = some t) (hsafe : t.DividesSafely) : s.SomeCarsStayed a := by
  cases a with
  | sweep =>
    intro hphase
    have hcheck : s.check = t := by
      simpa only [step, advance, hphase, Option.some.injEq] using h
    exact (hs.check_dividesSafely_iff hphase).mp (hcheck ▸ hsafe) hphase
  | _ => trivial

/-- In a sweep that is interleaved with other threads in any way the division is safe if and
only if at the test no packet was counted, no client was, or some counted client still had
cars at its second read. -/
theorem dividesSafely_iff (client : κ → TClient) (clients : List κ) (mInternalPPS : ℤ)
    (PPS : Bytes) (labels : List (SweepLabel κ)) :
    (∀ s, Visits step (start client clients mInternalPPS PPS) labels s → s.DividesSafely) ↔
      Along step SomeCarsStayed (start client clients mInternalPPS PPS) labels := by
  apply always_iff_along (I := fun s => s.Counted ∧ s.DividesSafely)
  · exact fun s hs => hs.2
  · rintro s a t ⟨hs, hsafe⟩ hguard h
    exact ⟨hs.step h, dividesSafely_step hs hsafe hguard h⟩
  · rintro s a t ⟨hs, -⟩ h hsafe
    exact someCarsStayed_of_dividesSafely hs h hsafe
  · refine ⟨start_counted client clients mInternalPPS PPS, ?_⟩
    rintro ⟨⟩

theorem CarsKept.step {a : SweepLabel κ} (hs : s.CarsKept)
    (hguard : s.KeepsCarsBetweenReads a) (h : s.step a = some t) : t.CarsKept := by
  cases a with
  | other d k =>
    obtain rfl := Option.some.inj h
    refine ⟨hs.recounts, fun c rest hphase => ?_⟩
    by_cases hcd : c = d
    · subst hcd
      simpa [change] using hguard rest hphase
    · simpa [change, hcd] using hs.current c rest hphase
  | incrementInternalPPS => exact Option.some.inj h ▸ ⟨hs.recounts, hs.current⟩
  | expired =>
    obtain ⟨c, rest, -, rfl⟩ := skip_cases h
    exact ⟨hs.recounts, by rintro _ _ ⟨⟩⟩
  | sweep =>
    obtain ⟨c, rest, -, rfl⟩ | ⟨c, rest, hphase, rfl⟩ | ⟨-, rfl⟩ | ⟨-, rfl⟩ | ⟨-, rfl⟩ |
      ⟨-, rfl⟩ := advance_cases h
    · unfold count
      split_ifs with hpos
      · refine ⟨hs.recounts, ?_⟩
        rintro _ _ ⟨⟩
        exact hpos
      · exact ⟨hs.recounts, by rintro _ _ ⟨⟩⟩
    · refine ⟨fun n hn => ?_, by rintro _ _ ⟨⟩⟩
      rcases List.mem_append.mp hn with hold | hnew
      · exact hs.recounts n hold
      · rw [List.mem_singleton.mp hnew]
        exact hs.current c rest hphase
    · exact ⟨hs.recounts, by rintro _ _ ⟨⟩⟩
    · unfold check
      split_ifs
      · exact ⟨hs.recounts, by rintro _ _ ⟨⟩⟩
      · exact ⟨hs.recounts, by rintro _ _ ⟨⟩⟩
    · exact ⟨hs.recounts, by rintro _ _ ⟨⟩⟩
    · exact ⟨hs.recounts, by rintro _ _ ⟨⟩⟩

/-- If no other thread empties a client between the two reads of its count, no division of
the sweep fails. -/
theorem dividesSafely_of_keepsCars (client : κ → TClient) (clients : List κ) (mInternalPPS : ℤ)
    (PPS : Bytes) (labels : List (SweepLabel κ))
    (h : Along step KeepsCarsBetweenReads (start client clients mInternalPPS PPS) labels)
    {s : PPSSweep κ} (hs : Visits step (start client clients mInternalPPS PPS) labels s) :
    s.DividesSafely := by
  have hstayed : Along step SomeCarsStayed (start client clients mInternalPPS PPS) labels := by
    refine h.imp_of_invariant (I := CarsKept) ?_ (fun s a hkept _ => hkept.someCarsStayed a) ?_
    · exact fun s a t hkept hguard hstep => hkept.step hguard hstep
    · exact ⟨fun n hn => absurd hn List.not_mem_nil, by rintro _ _ ⟨⟩⟩
  exact (dividesSafely_iff client clients mInternalPPS PPS labels).mpr hstayed s hs

/-- The only vehicle of the only client is deleted between the two reads. -/
theorem not_dividesSafely :
    ∃ s, run step (start (fun _ : Unit => { vehicleData := [⟨0, .null⟩] }) [()] 1 [])
        [.sweep, .other () (.deleteCar 0), .sweep, .sweep, .sweep] = some s ∧
      s.phase = .divide ∧ s.C = 1 ∧ s.V = 0 ∧ ¬s.DividesSafely := by
  refine ⟨_, rfl, rfl, rfl, rfl, ?_⟩
  intro hsafe
  exact (hsafe rfl).2 rfl

end PPSSweep
end BeamMP
