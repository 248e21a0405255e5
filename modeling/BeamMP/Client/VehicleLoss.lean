import BeamMP.Client.VehicleSections
import Mathlib.Data.Fintype.Basic

/-!
# Vehicles that disappear

`GetCarData` and `SetCarData` delete the ID they did not find, after they have
released the mutex. A vehicle of that ID that is added in between is deleted
with it. The history records which IDs were added and not deleted on request,
what each thread has missed, and whether a lookup took a vehicle away.
-/
namespace BeamMP

open Programs VehicleProgram

/-- The vehicle functions a thread may call on one client, in any order. -/
inductive VehicleCall
  | getCarData (ident : ℤ)
  | setCarData (ident : ℤ) (data : Json)
  | addNewCar (ident : ℤ) (data : Json)
  | deleteCar (ident : ℤ)
  | clearCars

def VehicleCall.program : VehicleCall → VehicleProgram Unit
  | .getCarData ident => do
    let _ ← VehicleProgram.getCarData ident
    pure ()
  | .setCarData ident data => VehicleProgram.setCarData ident data
  | .addNewCar ident data => VehicleProgram.addNewCar ident data
  | .deleteCar ident => VehicleProgram.deleteCar ident
  | .clearCars => VehicleProgram.clearCars

namespace VehicleSection

/-- The sections of `GetCarData` and `SetCarData`. -/
def isLookup : VehicleSection → Bool
  | .findCar _ | .storeCar _ _ | .dropMissing _ => true
  | _ => false

/-- The IDs that were added and not deleted on request, after a section. -/
def addedAfter : VehicleSection → List ℤ → List ℤ
  | .addNewCar ident _, added => ident :: added
  | .deleteCar ident, added => added.filter (· ≠ ident)
  | .clearCars, _ => []
  | _, added => added

/-- The ID whose `DeleteCar` call a thread has yet to make, after a section of its own. -/
def missedAfter (c : TClient) : VehicleSection → Option ℤ → Option ℤ
  | .findCar ident, missed => if (lookup c ident).isNone then some ident else missed
  | .storeCar ident _, missed => if (lookup c ident).isNone then some ident else missed
  | .dropMissing _, _ => none
  | _, missed => missed

end VehicleSection

structure VehicleHistory (τ : Type*) where
  client : TClient
  added : List ℤ
  missed : τ → Option ℤ
  lostByLookup : Bool

namespace VehicleHistory

variable {τ : Type*}

/-- No call is under way; the vehicles that are there have been added before. -/
def start (τ : Type*) (c : TClient) : VehicleHistory τ where
  client := c
  added := c.vehicleIDs
  missed _ := none
  lostByLookup := false

/-- What was added is still there, and no lookup has taken a vehicle away. -/
structure NothingLost (s : VehicleHistory τ) : Prop where
  added_mem : ∀ i ∈ s.added, i ∈ s.client.vehicleIDs
  lookup : s.lostByLookup = false

instance (s : VehicleHistory τ) : Decidable s.NothingLost :=
  decidable_of_iff ((∀ i ∈ s.added, i ∈ s.client.vehicleIDs) ∧ s.lostByLookup = false)
    ⟨fun h => ⟨h.1, h.2⟩, fun h => ⟨h.added_mem, h.lookup⟩⟩

/-- An ID is not added while a thread that missed it has yet to delete it. -/
def addsAlone (k : VehicleSection) (s : VehicleHistory τ) : Prop :=
  match k with
  | .addNewCar ident _ => ∀ t, s.missed t ≠ some ident
  | _ => True

instance [Fintype τ] (s : VehicleHistory τ) :
    ∀ k : VehicleSection, Decidable (addsAlone k s)
  | .addNewCar ident _ => inferInstanceAs (Decidable (∀ t, s.missed t ≠ some ident))
  | .findCar _ | .storeCar _ _ | .dropMissing _ | .deleteCar _ | .clearCars | .getOpenCarID
  | .getCarCount | .getUnicycleID | .setUnicycleID _ | .getID => isTrue trivial

/-- What a thread has missed is not in the table. -/
structure Invariant (s : VehicleHistory τ) : Prop where
  nothingLost : s.NothingLost
  missing : ∀ t i, s.missed t = some i → i ∉ s.client.vehicleIDs

theorem start_invariant {c : TClient} : (start τ c).Invariant where
  nothingLost := ⟨fun _ hi => hi, rfl⟩
  missing _ _ h := by cases h

def rely (t : τ) (s s' : VehicleHistory τ) : Prop := s'.missed t = s.missed t

def guar (t : τ) (s s' : VehicleHistory τ) : Prop :=
  (s.Invariant → s'.Invariant) ∧ ∀ u, u ≠ t → s'.missed u = s.missed u

variable {t : τ} {s : VehicleHistory τ} {k : VehicleSection} {ident : ℤ}

theorem not_mem_of_lookup_isNone {c : TClient}
    (h : (VehicleSection.lookup c ident).isNone = true) : ident ∉ c.vehicleIDs :=
  KeyedList.lookup_eq_none_iff.mp (Option.isNone_iff_eq_none.mp h)

/-- What a thread has missed after the first section of a lookup is not in the table. -/
theorem Invariant.not_mem_of_missed (h : s.Invariant) {i : ℤ}
    (hi : (if (VehicleSection.lookup s.client ident).isNone then some ident else s.missed t) =
      some i) : i ∉ s.client.vehicleIDs := by
  split_ifs at hi with hnone
  · cases hi
    exact not_mem_of_lookup_isNone hnone
  · exact h.missing t i hi

variable [DecidableEq τ]

/-- A section executed by a thread, with the history it leaves. -/
def exec (t : τ) (_ : Unit) (k : VehicleSection) (s : VehicleHistory τ) :
    k.Answer × VehicleHistory τ :=
  ((k.exec s.client).1,
    { client := (k.exec s.client).2
      added := k.addedAfter s.added
      missed := Function.update s.missed t (k.missedAfter s.client (s.missed t))
      lostByLookup := s.lostByLookup ||
        k.isLookup && decide ((k.exec s.client).2.vehicleIDs ≠ s.client.vehicleIDs) })

theorem exec_missed_of_ne {u : τ} (h : u ≠ t) :
    (exec t () k s).2.missed u = s.missed u := Function.update_of_ne h _ _

theorem exec_missed (hmissed : k.missedAfter s.client (s.missed t) = s.missed t) (u : τ) :
    (exec t () k s).2.missed u = s.missed u := by
  by_cases hu : u = t
  · subst hu
    simpa [exec] using hmissed
  · exact exec_missed_of_ne hu

theorem Invariant.of_unchanged (h : s.Invariant)
    (hids : (k.exec s.client).2.vehicleIDs = s.client.vehicleIDs)
    (hadded : k.addedAfter s.added = s.added)
    (hmissed : ∀ i, k.missedAfter s.client (s.missed t) = some i → i ∉ s.client.vehicleIDs) :
    (exec t () k s).2.Invariant where
  nothingLost.added_mem i hi := by
    have hi : i ∈ s.added := hadded ▸ hi
    have := h.nothingLost.added_mem i hi
    exact hids ▸ this
  nothingLost.lookup := by
    simp [exec, h.nothingLost.lookup, hids]
  missing u i hi := by
    have hnot : i ∉ s.client.vehicleIDs := by
      by_cases hu : u = t
      · subst hu
        exact hmissed i (by simpa [exec] using hi)
      · exact h.missing u i ((exec_missed_of_ne hu).symm.trans hi)
    exact fun hmem => hnot (hids ▸ hmem)

theorem Invariant.addNewCar (h : s.Invariant) (data : Json)
    (halone : ∀ u, s.missed u ≠ some ident) :
    (exec t () (.addNewCar ident data) s).2.Invariant where
  nothingLost.added_mem i hi := by
    have hids : i ∈ s.client.vehicleIDs ++ [ident] := by
      rcases List.mem_cons.mp hi with rfl | hi
      · simp
      · exact List.mem_append_left _ (h.nothingLost.added_mem i hi)
    simpa [exec, VehicleSection.exec] using hids
  nothingLost.lookup := by
    simp [exec, VehicleSection.isLookup, h.nothingLost.lookup]
  missing u i hi := by
    have hmissed : s.missed u = some i := (exec_missed rfl u).symm.trans hi
    have hne : i ≠ ident := by
      intro heq
      exact halone u (heq ▸ hmissed)
    have hnot := h.missing u i hmissed
    simp [exec, VehicleSection.exec, hnot, hne]

/-- A `DeleteCar` or `ClearCars` call takes the IDs it removes off the added ones. -/
theorem Invariant.of_request (h : s.Invariant) (hlookup : k.isLookup = false)
    (hmissed : k.missedAfter s.client (s.missed t) = s.missed t)
    (hadded : ∀ i ∈ k.addedAfter s.added, i ∈ (k.exec s.client).2.vehicleIDs)
    (hids : (k.exec s.client).2.vehicleIDs.Sublist s.client.vehicleIDs) :
    (exec t () k s).2.Invariant where
  nothingLost.added_mem := hadded
  nothingLost.lookup := by
    simp [exec, hlookup, h.nothingLost.lookup]
  missing u i hi hmem := by
    have hold : s.missed u = some i := (exec_missed hmissed u).symm.trans hi
    exact h.missing u i hold (hids.subset hmem)

/-- Section lemma: nothing is lost as long as no missed ID is added. -/
theorem Invariant.exec (h : s.Invariant) (hok : addsAlone k s)
    (hdrop : ∀ i, k = .dropMissing i → s.missed t = some i) :
    (exec t () k s).2.Invariant := by
  cases k with
  | findCar ident => exact h.of_unchanged rfl rfl fun i hi => h.not_mem_of_missed hi
  | storeCar ident data =>
    exact h.of_unchanged (VehicleSection.store_ids ident data) rfl
      fun i hi => h.not_mem_of_missed hi
  | dropMissing ident =>
    have hnot : ident ∉ s.client.vehicleIDs := h.missing t ident (hdrop ident rfl)
    apply h.of_unchanged _ rfl
    · exact fun i hi => by cases hi
    · exact congrArg TClient.vehicleIDs (TClient.deleteCar_of_not_mem hnot)
  | addNewCar ident data => exact h.addNewCar data hok
  | deleteCar ident =>
    apply h.of_request rfl rfl
    · intro i hi
      obtain ⟨hi, hne⟩ := List.mem_filter.mp hi
      have hmem := h.nothingLost.added_mem i hi
      have hne : i ≠ ident := by simpa using hne
      simpa [VehicleSection.exec] using (List.mem_erase_of_ne hne).mpr hmem
    · exact VehicleSection.exec_ids_sublist rfl
  | clearCars =>
    apply h.of_request rfl rfl
    · exact fun i hi => absurd hi List.not_mem_nil
    · exact VehicleSection.exec_ids_sublist rfl
  | _ => exact h.of_unchanged rfl rfl (h.missing t)

section Meets

variable (t)

/-- What a thread does under the guard, in terms of what it has missed. -/
abbrev Careful {α : Type} (post : α → Option ℤ → Prop) (p : VehicleProgram α)
    (pre : Option ℤ → Prop) : Prop :=
  Meets (exec t) (fun _ => addsAlone) (rely t) (guar t) (fun x s => post x (s.missed t)) p
    (fun s => pre (s.missed t))

variable {t}

theorem careful_locked {pre : Option ℤ → Prop} {post : k.Answer → Option ℤ → Prop}
    (hdrop : ∀ i m, k = .dropMissing i → pre m → m = some i)
    (hpost : ∀ c m, pre m → post (k.exec c).1 (k.missedAfter c m)) :
    Careful t post (locked k) pre := by
  apply meets_perform
  · intro x s s' hs hrely
    rwa [← (hrely : s'.missed t = s.missed t)] at hs
  · intro _ s hpre hok
    constructor
    · exact ⟨fun h => h.exec hok fun i hk => hdrop i _ hk hpre, fun u hu => exec_missed_of_ne hu⟩
    · simpa [exec] using hpost s.client (s.missed t) hpre

theorem careful_dropMissing :
    Careful t (fun _ _ => True) (dropMissing ident) (fun m => m = some ident) := by
  apply careful_locked (k := .dropMissing ident)
  · intro i m hk hm
    cases hk
    exact hm
  · exact fun _ _ _ => trivial

theorem careful_of_ne (hk : ∀ i, k ≠ .dropMissing i) :
    Careful t (fun _ _ => True) (locked k) (fun _ => True) :=
  careful_locked (fun i _ h _ => absurd h (hk i)) (fun _ _ _ => trivial)

theorem careful_getCarData :
    Careful t (fun _ _ => True) (VehicleProgram.getCarData ident) (fun _ => True) := by
  have hfind : Careful t (fun found m => found = none → m = some ident) (findCar ident)
      (fun _ => True) := by
    apply careful_locked (k := .findCar ident)
    · exact fun i _ h _ => by cases h
    · intro c m _ (hnone : (VehicleSection.lookup c ident).map VehicleData.data = none)
      have hmissing : VehicleSection.lookup c ident = none := Option.map_eq_none_iff.mp hnone
      simp [VehicleSection.missedAfter, hmissing]
  apply Meets.bind hfind
  intro found
  cases found with
  | some data => exact meets_pure fun _ _ => trivial
  | none =>
    apply Meets.bind (careful_dropMissing.mono (fun s hs => hs rfl) (fun _ _ h => h))
    exact fun _ => meets_pure fun _ _ => trivial

theorem careful_setCarData {data : Json} :
    Careful t (fun _ _ => True) (VehicleProgram.setCarData ident data) (fun _ => True) := by
  have hstore : Careful t (fun found m => found = false → m = some ident) (storeCar ident data)
      (fun _ => True) := by
    apply careful_locked (k := .storeCar ident data)
    · exact fun i _ h _ => by cases h
    · intro c m _ (hfalse : (VehicleSection.store ident data c).1 = false)
      have hmissing : VehicleSection.lookup c ident = none := by
        unfold VehicleSection.store at hfalse
        split at hfalse
        · cases hfalse
        · assumption
      simp [VehicleSection.missedAfter, hmissing]
  apply Meets.bind hstore
  intro found
  cases found with
  | true => exact meets_pure fun _ _ => trivial
  | false => exact careful_dropMissing.mono (fun s hs => hs rfl) (fun _ _ h => h)

theorem careful_program (f : VehicleCall) :
    Careful t (fun _ _ => True) f.program (fun _ => True) := by
  cases f with
  | getCarData ident => exact careful_getCarData.bind fun _ => meets_pure fun _ _ => trivial
  | setCarData ident data => exact careful_setCarData
  | addNewCar ident data => exact careful_of_ne fun _ h => by cases h
  | deleteCar ident => exact careful_of_ne fun _ h => by cases h
  | clearCars => exact careful_of_ne fun _ h => by cases h

end Meets

end VehicleHistory

inductive VehicleCallAction (τ : Type*)
  | call (t : τ) (f : VehicleCall)
  | advance (t : τ)

/-- Any number of threads inside vehicle functions of one client. -/
abbrev VehicleCallers (τ : Type*) := Threads VehicleSection.Answer (VehicleHistory τ) τ

namespace VehicleCallers

variable {τ : Type*}

def start (τ : Type*) (c : TClient) : VehicleCallers τ :=
  .idle VehicleSection.Answer τ (VehicleHistory.start τ c)

/-- `AddNewCar` does not add an ID between the two sections of a lookup that missed it. -/
def AddsAlone (s : VehicleCallers τ) : VehicleCallAction τ → Prop
  | .call _ _ => True
  | .advance t => ∀ k ∈ (s.program t).head?, VehicleHistory.addsAlone k s.shared

instance [Fintype τ] (s : VehicleCallers τ) : ∀ a, Decidable (s.AddsAlone a)
  | .call _ _ => isTrue trivial
  | .advance t =>
    inferInstanceAs (Decidable (∀ k ∈ (s.program t).head?, VehicleHistory.addsAlone k s.shared))

variable [DecidableEq τ]

def step (s : VehicleCallers τ) : VehicleCallAction τ → Option (VehicleCallers τ)
  | .call t f => Threads.start s t f.program
  | .advance t => Threads.advance s VehicleHistory.exec t ()

/-- As long as no ID is added between the two sections of a lookup that missed it, a vehicle
that was added stays until it is deleted on request, and no lookup takes one away. -/
theorem nothingLost_of_addsAlone (c : TClient) (as : List (VehicleCallAction τ))
    (has : Execution.Along step AddsAlone (start τ c) as) (s : VehicleCallers τ)
    (hrun : Execution.run step (start τ c) as = some s) : s.shared.NothingLost := by
  have hinv : Threads.Sound VehicleHistory.exec (fun _ _ => VehicleHistory.addsAlone)
      VehicleHistory.rely VehicleHistory.guar VehicleHistory.Invariant s := by
    apply Execution.run_invariant _ _ has hrun
    · intro s a s' h halone hstep
      cases a with
      | call t f => exact h.start (VehicleHistory.careful_program f) hstep
      | advance t =>
        apply h.advance _ _ _ hstep
        · exact fun u v hne _ _ hguar => hguar.2 v hne
        · exact fun u _ _ hI hguar => hguar.1 hI
        · intro k next hcall
          exact halone k (by simp [hcall, Program.head?])
    · exact Threads.idle_sound VehicleHistory.start_invariant
  exact hinv.invariant.nothingLost

/-- A lookup that finds its vehicle, one that does not, and a vehicle that is added later. -/
theorem nothingLost_after_lookups :
    ∃ s, Execution.run step (start Bool {})
        [.call true (.addNewCar 0 .null), .advance true, .call false (.getCarData 0),
          .advance false, .call false (.getCarData 1), .advance false, .advance false,
          .call true (.addNewCar 1 .null), .advance true] = some s ∧
      s.shared.NothingLost :=
  ⟨_, rfl, nothingLost_of_addsAlone {}
    [.call true (.addNewCar 0 .null), .advance true, .call false (.getCarData 0),
      .advance false, .call false (.getCarData 1), .advance false, .advance false,
      .call true (.addNewCar 1 .null), .advance true] (by decide) _ rfl⟩

/-- A vehicle that is added while a `GetCarData` call that missed its ID has not returned. -/
theorem not_nothingLost_after_late_delete :
    ∃ s, Execution.run step (start Bool {})
        [.call false (.getCarData 0), .advance false, .call true (.addNewCar 0 .null),
          .advance true, .advance false] = some s ∧
      ¬ s.shared.NothingLost :=
  ⟨_, rfl, by decide⟩

end VehicleCallers
end BeamMP
