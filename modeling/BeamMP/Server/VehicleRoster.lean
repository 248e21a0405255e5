import BeamMP.Server.CarLimit
import BeamMP.Server.VehicleEvents

/-!
# The roster

The clients with their vehicle tables, beside the vehicles that plugins were told of. It is
sound while clients come without vehicles, get an ID that no other one has, change their own
vehicles only, and leave after plugins were told.
-/
namespace BeamMP

/-- A client keeps to the limit of cars, and has no vehicles before it has an ID. -/
structure TClient.Registered (maxCars : ℤ) (c : TClient) : Prop where
  known : -1 ≤ c.id
  table : c.TableWellFormed
  counted : c.getCarCount ≤ maxCars
  unnamed : c.id = -1 → c.vehicleIDs = []

theorem TClient.Registered.congr {maxCars : ℤ} {c c' : TClient} (h : c.Registered maxCars)
    (hid : c'.id = c.id) (hids : c'.vehicleIDs = c.vehicleIDs)
    (hunicycle : c'.unicycleID = c.unicycleID) : c'.Registered maxCars where
  known := hid ▸ h.known
  table := h.table.of_vehicleIDs_eq hids
  counted := (TClient.getCarCount_congr hids hunicycle).trans_le h.counted
  unnamed hnone := hids.trans (h.unnamed (hid ▸ hnone))

theorem TClient.registered_of_empty {maxCars : ℤ} {c : TClient} (hempty : c.vehicleIDs = [])
    (hknown : -1 ≤ c.id) (hmax : 0 ≤ maxCars) : c.Registered maxCars where
  known := hknown
  table := by
    constructor
    · rw [hempty]
      exact List.nodup_nil
    · intro i hi
      rw [hempty] at hi
      exact absurd hi List.not_mem_nil
  counted := by
    have hlength : c.vehicleData.length = 0 := by
      rw [← List.length_map VehicleData.id]
      exact congrArg List.length hempty
    have hbounds := c.getCarCount_bounds
    omega
  unnamed _ := hempty

/-- The vehicle tables of the clients, without the positions of the vehicles, and what plugins
were told. -/
structure Roster (κ : Type) where
  clients : List κ
  client : κ → TClient
  told : Finset (ℤ × ℤ)

namespace Roster

variable {κ : Type} {maxCars : ℤ} {r t : Roster κ} {c : κ}

def OthersOwn (r : Roster κ) (c : κ) (p v : ℤ) : Prop :=
  ∃ d ∈ r.clients, d ≠ c ∧ (r.client d).id = p ∧ v ∈ (r.client d).vehicleIDs

/-- An ID names at most one client, and plugins were told of the vehicles that there are. -/
structure Sound (maxCars : ℤ) (r : Roster κ) : Prop where
  registered : ∀ c ∈ r.clients, (r.client c).Registered maxCars
  alone : ∀ c ∈ r.clients, ∀ d ∈ r.clients, (r.client c).id = (r.client d).id →
    0 ≤ (r.client c).id → c = d
  told : ∀ p v, (p, v) ∈ r.told ↔
    ∃ c ∈ r.clients, (r.client c).id = p ∧ v ∈ (r.client c).vehicleIDs

/-- Two clients with vehicles under one ID are the same. -/
theorem Sound.eq_of_mem (h : r.Sound maxCars) {d : κ} (hc : c ∈ r.clients) (hd : d ∈ r.clients)
    (hid : (r.client d).id = (r.client c).id) {v : ℤ} (hv : v ∈ (r.client d).vehicleIDs) :
    d = c := by
  have hregistered := h.registered d hd
  have hknown := hregistered.known
  rcases eq_or_ne (r.client d).id (-1) with hnone | hsome
  · rw [hregistered.unnamed hnone] at hv
    exact absurd hv List.not_mem_nil
  · exact h.alone d hd c hc hid (by omega)

theorem Sound.row (h : r.Sound maxCars) (hc : c ∈ r.clients) (v : ℤ) :
    ((r.client c).id, v) ∈ r.told ↔ v ∈ (r.client c).vehicleIDs := by
  rw [h.told]
  constructor
  · rintro ⟨d, hd, hid, hv⟩
    exact h.eq_of_mem hc hd hid hv ▸ hv
  · exact fun hv => ⟨c, hc, rfl, hv⟩

theorem Sound.mem_of_row (h : r.Sound maxCars) (hc : c ∈ r.clients) {VIDs : List ℤ}
    {S : Finset (ℤ × ℤ)} (hrow : RowIs (r.client c).id VIDs r.told S) (p v : ℤ) :
    (p, v) ∈ S ↔ ((r.client c).id = p ∧ v ∈ VIDs) ∨ r.OthersOwn c p v := by
  rw [hrow p v]
  split_ifs with hp
  · constructor
    · exact fun hv => Or.inl ⟨hp.symm, hv⟩
    · rintro (⟨-, hv⟩ | ⟨d, hd, hne, hdp, hv⟩)
      · exact hv
      · exact absurd (h.eq_of_mem hc hd (hdp.trans hp) hv) hne
  · rw [h.told]
    constructor
    · rintro ⟨d, hd, hdp, hv⟩
      have hne : d ≠ c := fun heq => hp (by rw [← hdp, heq])
      exact Or.inr ⟨d, hd, hne, hdp, hv⟩
    · rintro (⟨hcp, -⟩ | ⟨d, hd, -, hdp, hv⟩)
      · exact absurd hcp.symm hp
      · exact ⟨d, hd, hdp, hv⟩

theorem Sound.mem_of_empty (h : r.Sound maxCars)
    (hempty : c ∈ r.clients → (r.client c).vehicleIDs = []) (p v : ℤ) :
    (p, v) ∈ r.told ↔ r.OthersOwn c p v := by
  rw [h.told]
  constructor
  · rintro ⟨d, hd, hdp, hv⟩
    have hne : d ≠ c := by
      rintro rfl
      rw [hempty hd] at hv
      exact absurd hv List.not_mem_nil
    exact ⟨d, hd, hne, hdp, hv⟩
  · rintro ⟨d, hd, -, hdp, hv⟩
    exact ⟨d, hd, hdp, hv⟩

theorem Sound.of_changed (h : r.Sound maxCars)
    (hmem : ∀ d, d ≠ c → (d ∈ t.clients ↔ d ∈ r.clients))
    (hothers : ∀ d, d ≠ c → t.client d = r.client d)
    (hclient : c ∈ t.clients → (t.client c).Registered maxCars)
    (halone : c ∈ t.clients → 0 ≤ (t.client c).id → ∀ d ∈ r.clients, d ≠ c →
      (r.client d).id ≠ (t.client c).id)
    (htold : ∀ p v, (p, v) ∈ t.told ↔
      (c ∈ t.clients ∧ (t.client c).id = p ∧ v ∈ (t.client c).vehicleIDs) ∨
        r.OthersOwn c p v) : t.Sound maxCars where
  registered d hd := by
    by_cases hdc : d = c
    · exact hdc ▸ hclient (hdc ▸ hd)
    · rw [hothers d hdc]
      exact h.registered d ((hmem d hdc).mp hd)
  alone d hd e he heq hnonneg := by
    by_cases hdc : d = c
    · by_cases hec : e = c
      · rw [hdc, hec]
      · subst hdc
        rw [hothers e hec] at heq
        exact absurd heq.symm (halone hd hnonneg e ((hmem e hec).mp he) hec)
    · rw [hothers d hdc] at heq hnonneg
      have hdr : d ∈ r.clients := (hmem d hdc).mp hd
      by_cases hec : e = c
      · subst hec
        exact absurd heq (halone he (heq ▸ hnonneg) d hdr hdc)
      · rw [hothers e hec] at heq
        exact h.alone d hdr e ((hmem e hec).mp he) heq hnonneg
  told p v := by
    rw [htold p v]
    constructor
    · rintro (⟨hc, hcp, hv⟩ | ⟨d, hd, hne, hdp, hv⟩)
      · exact ⟨c, hc, hcp, hv⟩
      · rw [← hothers d hne] at hdp hv
        exact ⟨d, (hmem d hne).mpr hd, hdp, hv⟩
    · rintro ⟨d, hd, hdp, hv⟩
      by_cases hdc : d = c
      · exact Or.inl ⟨hdc ▸ hd, hdc ▸ hdp, hdc ▸ hv⟩
      · rw [hothers d hdc] at hdp hv
        exact Or.inr ⟨d, (hmem d hdc).mp hd, hdc, hdp, hv⟩

theorem Sound.change (h : r.Sound maxCars) (hc : c ∈ r.clients) (hclients : t.clients = r.clients)
    (hothers : ∀ d, d ≠ c → t.client d = r.client d) (hid : (t.client c).id = (r.client c).id)
    (hclient : (t.client c).Registered maxCars)
    (htold : RowIs (r.client c).id (t.client c).vehicleIDs r.told t.told) : t.Sound maxCars := by
  have hct : c ∈ t.clients := hclients ▸ hc
  apply h.of_changed (fun d _ => by rw [hclients]) hothers (fun _ => hclient)
  · intro _ hnonneg d hd hne heq
    rw [hid] at hnonneg heq
    exact hne (h.alone d hd c hc heq (heq ▸ hnonneg))
  · intro p v
    rw [h.mem_of_row hc htold p v, hid]
    simp only [hct, true_and]

/-- One client leaves, and plugins were told that its vehicles are gone. -/
theorem Sound.leave (h : r.Sound maxCars) (hc : c ∈ r.clients)
    (hmem : ∀ d, d ∈ t.clients ↔ d ∈ r.clients ∧ d ≠ c)
    (hothers : ∀ d, d ≠ c → t.client d = r.client d)
    (htold : RowIs (r.client c).id [] r.told t.told) : t.Sound maxCars := by
  have hct : c ∉ t.clients := fun hct => ((hmem c).mp hct).2 rfl
  apply h.of_changed _ hothers (fun hin => absurd hin hct) (fun hin => absurd hin hct)
  · intro p v
    rw [h.mem_of_row hc htold p v]
    simp only [hct, List.not_mem_nil, and_false, false_and]
  · intro d hne
    rw [hmem d]
    exact and_iff_left hne

theorem Sound.join (h : r.Sound maxCars) (hmax : 0 ≤ maxCars) (hc : c ∉ r.clients)
    (hmem : ∀ d, d ∈ t.clients ↔ d = c ∨ d ∈ r.clients)
    (hothers : ∀ d, d ≠ c → t.client d = r.client d) (hid : (t.client c).id = -1)
    (hempty : (t.client c).vehicleIDs = []) (htold : t.told = r.told) : t.Sound maxCars := by
  have hclient : (t.client c).Registered maxCars :=
    TClient.registered_of_empty hempty (by omega) hmax
  apply h.of_changed _ hothers (fun _ => hclient)
  · intro _ hnonneg
    omega
  · intro p v
    rw [htold, h.mem_of_empty (fun hin => absurd hin hc) p v, hempty]
    simp only [List.not_mem_nil, and_false, false_or]
  · intro d hne
    rw [hmem d]
    exact or_iff_right hne

theorem Sound.name (h : r.Sound maxCars) (hmax : 0 ≤ maxCars) (hc : c ∈ r.clients)
    (hclients : t.clients = r.clients) (hothers : ∀ d, d ≠ c → t.client d = r.client d)
    (hnone : (r.client c).id = -1) (hnonneg : 0 ≤ (t.client c).id)
    (hfree : ∀ d ∈ r.clients, (r.client d).id ≠ (t.client c).id)
    (hids : (t.client c).vehicleIDs = (r.client c).vehicleIDs) (htold : t.told = r.told) :
    t.Sound maxCars := by
  have hbefore : (r.client c).vehicleIDs = [] := (h.registered c hc).unnamed hnone
  have hempty : (t.client c).vehicleIDs = [] := hids.trans hbefore
  have hclient : (t.client c).Registered maxCars :=
    TClient.registered_of_empty hempty (by omega) hmax
  apply h.of_changed (fun d _ => by rw [hclients]) hothers (fun _ => hclient)
  · exact fun _ _ d hd _ => hfree d hd
  · intro p v
    rw [htold, h.mem_of_empty (fun _ => hbefore) p v, hempty]
    simp only [List.not_mem_nil, and_false, false_or]

end Roster

end BeamMP
