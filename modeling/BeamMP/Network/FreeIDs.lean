import BeamMP.Client.Vehicles
import BeamMP.Network.OpenID
import Mathlib.Order.Bounds.Defs

/-!
# The lowest free ID

`GetOpenCarID` and `OpenID` run the same restarting loop over the IDs in use: a
match moves the candidate on in the middle of the pass, and a pass with a match
is followed by another one.
-/
namespace BeamMP

/-- The IDs a search for a free one may answer with. -/
def freeIDs (ids : List ℤ) : Set ℤ := { i | 0 ≤ i ∧ i ∉ ids }

section Search

variable (ids : List ℤ)

/-- One more pass than there are entries is enough, and further passes change nothing. -/
theorem scan_eq_leastUnused (more : ℕ) :
    RestartScan.scan Int.ofNat ids (ids.length + 1 + more) 0 =
      some (RestartScan.leastUnused Int.ofNat_injective ids) := by
  obtain ⟨n, hscan, hbelow, hfree⟩ := RestartScan.scan_spec Int.ofNat_injective ids
    (ids.length + 1 + more) 0 (by simp) (by omega)
  have hle := RestartScan.leastUnused_le Int.ofNat_injective hfree
  have hge : n ≤ RestartScan.leastUnused Int.ofNat_injective ids := by
    by_contra hlt
    exact RestartScan.leastUnused_not_mem Int.ofNat_injective ids (hbelow _ (by omega))
  rw [hscan, Nat.le_antisymm hge hle]

theorem isLeast_leastUnused :
    IsLeast (freeIDs ids) (RestartScan.leastUnused Int.ofNat_injective ids : ℤ) := by
  refine ⟨⟨Int.natCast_nonneg _, RestartScan.leastUnused_not_mem Int.ofNat_injective ids⟩, ?_⟩
  rintro i ⟨hnonneg, hfree⟩
  obtain ⟨n, rfl⟩ := Int.eq_ofNat_of_zero_le hnonneg
  exact Int.ofNat_le.mpr (RestartScan.leastUnused_le Int.ofNat_injective hfree)

theorem leastUnused_le_length : RestartScan.leastUnused Int.ofNat_injective ids ≤ ids.length :=
  RestartScan.le_length_of_all_used Int.ofNat_injective
    (RestartScan.leastUnused_spec Int.ofNat_injective ids).1

end Search

variable {κ : Type*}

/-- Whatever IDs are held, both loops come to an end, with the least ID that is free. -/
theorem free_ID_search (c : TClient) (s : IDState κ) :
    ((∀ more, (RestartScan.scan Int.ofNat c.vehicleIDs (c.vehicleIDs.length + 1 + more) 0).map
        Int.ofNat = some c.getOpenCarID) ∧
      IsLeast (freeIDs c.vehicleIDs) c.getOpenCarID ∧
      c.getOpenCarID ≤ c.vehicleIDs.length) ∧
    (∀ more, RestartScan.scan Int.ofNat (s.clients.map s.mID)
        ((s.clients.map s.mID).length + 1 + more) 0 = some s.openID) ∧
      IsLeast (freeIDs (s.clients.map s.mID)) (s.openID : ℤ) ∧
      s.openID ≤ (s.clients.map s.mID).length := by
  refine ⟨⟨?_, isLeast_leastUnused _, ?_⟩, ?_, isLeast_leastUnused _, leastUnused_le_length _⟩
  · intro more
    rw [scan_eq_leastUnused]
    rfl
  · exact Int.ofNat_le.mpr (leastUnused_le_length c.vehicleIDs)
  · intro more
    exact scan_eq_leastUnused _ more

/-- The candidate moves on twice in the first pass, and the third pass finds no match. -/
example : RestartScan.scan Int.ofNat [2, 0, 0, 1] 3 0 = some 3 := by decide

end BeamMP
