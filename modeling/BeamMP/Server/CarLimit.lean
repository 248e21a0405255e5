import BeamMP.Server.UnicycleTracking

/-!
# The car limit

`GetCarCount` leaves out the vehicle `mUnicycleID` names, whatever that vehicle
is. The count itself never exceeds `MaxCars`; the number of ordinary cars does as
soon as an ordinary car is stored under a dangling `mUnicycleID`.
-/
namespace BeamMP

variable (lib : JsonText) (maxCars : ℤ)

def TClient.ordinaryCars (c : TClient) : ℕ := c.vehicleData.countP fun v => !v.data.isUnicycle

/-- The limit `MaxCars` is meant to put on one client. -/
def TClient.CarLimit (maxCars : ℤ) (c : TClient) : Prop :=
  c.ordinaryCars ≤ maxCars ∧ c.vehicleData.length ≤ maxCars + 1

instance (c : TClient) : Decidable (c.CarLimit maxCars) := inferInstanceAs (Decidable (_ ∧ _))

/-- Whether an operation is not an accepted spawn that stores an ordinary car under the
ID `mUnicycleID` holds. -/
def keepsCarsCounted (c : TClient) : VehicleOp → Bool
  | .packet pckt answers =>
    !(((spawnJson pckt).bind lib.parse).any (fun doc => !doc.isUnicycle) && !vetoed answers &&
      c.getCarCount < maxCars && c.getOpenCarID == c.unicycleID)
  | .removeVehicle _ => true

variable {lib maxCars} {c c' : TClient}

/-- A stored vehicle under the tracked ID is a unicycle. -/
def TClient.TrackedIsUnicycle (c : TClient) : Prop :=
  ∀ v ∈ c.vehicleData, v.id = c.unicycleID → v.data.isUnicycle = true

theorem TClient.getCarCount_bounds (c : TClient) :
    (c.vehicleData.length : ℤ) - 1 ≤ c.getCarCount ∧ c.getCarCount ≤ c.vehicleData.length := by
  unfold getCarCount
  split_ifs <;> omega

theorem TClient.getCarCount_of_not_mem (h : c.unicycleID ∉ c.vehicleIDs) :
    c.getCarCount = c.vehicleData.length := if_neg h

theorem TClient.getCarCount_of_mem (h : c.unicycleID ∈ c.vehicleIDs) :
    c.getCarCount = (c.vehicleData.length : ℤ) - 1 := if_pos h

theorem TClient.getCarCount_congr (hids : c'.vehicleIDs = c.vehicleIDs)
    (huni : c'.unicycleID = c.unicycleID) : c'.getCarCount = c.getCarCount := by
  have hlen : c'.vehicleData.length = c.vehicleData.length := by
    rw [← length_vehicleIDs, hids, length_vehicleIDs]
  simp [getCarCount, hids, huni, hlen]

theorem TClient.TrackedIsUnicycle.ordinaryCars_le (h : c.TrackedIsUnicycle) :
    (c.ordinaryCars : ℤ) ≤ c.getCarCount := by
  have hsum := List.length_eq_countP_add_countP (fun v : VehicleData => v.data.isUnicycle)
    (l := c.vehicleData)
  have hord : c.vehicleData.countP (fun v => decide ¬ v.data.isUnicycle = true) =
      c.ordinaryCars := by
    simp [ordinaryCars]
  unfold getCarCount
  split_ifs with hmem
  · obtain ⟨v, hv, hid⟩ := List.mem_map.mp hmem
    have hpos : 0 < c.vehicleData.countP fun v => v.data.isUnicycle :=
      List.countP_pos_iff.mpr ⟨v, hv, h v hv hid⟩
    omega
  · omega

theorem TClient.getCarCount_deleteCar_le (hwf : c.TableWellFormed) (vid : ℤ) :
    (c.deleteCar vid).getCarCount ≤ c.getCarCount := by
  by_cases hvid : vid ∈ c.vehicleIDs
  · have hlen : ((c.deleteCar vid).vehicleData.length : ℤ) = c.vehicleData.length - 1 := by
      have hlt : 0 < c.vehicleData.length := by
        rw [← length_vehicleIDs]
        exact List.length_pos_of_mem hvid
      have := KeyedList.length_remove_of_mem hvid
      simp only [deleteCar]
      omega
    by_cases hmem : c.unicycleID ∈ (c.deleteCar vid).vehicleIDs
    · have hold := ((mem_vehicleIDs_deleteCar_iff hwf.nodup).mp hmem).1
      rw [getCarCount_of_mem hmem, getCarCount_of_mem hold]
      omega
    · rw [getCarCount_of_not_mem hmem, hlen]
      exact c.getCarCount_bounds.1
  · rw [deleteCar_of_not_mem hvid]

theorem TClient.getCarCount_reset_deleteCar_le (hwf : c.TableWellFormed) (vid : ℤ) :
    ((if c.unicycleID = vid then c.setUnicycleID (-1) else c).deleteCar vid).getCarCount ≤
      c.getCarCount := by
  split_ifs with hsame
  · have hcount : ((c.setUnicycleID (-1)).deleteCar vid).getCarCount =
        ((c.deleteCar vid).vehicleData.length : ℤ) := by
      apply getCarCount_of_not_mem
      intro hmem
      have hmem' : (-1 : ℤ) ∈ (c.deleteCar vid).vehicleIDs := hmem
      have := hwf.nonneg _ ((mem_vehicleIDs_deleteCar_iff hwf.nodup).mp hmem').1
      omega
    have hnot : (c.deleteCar vid).unicycleID ∉ (c.deleteCar vid).vehicleIDs := by
      rw [deleteCar_unicycleID, hsame]
      exact fun hmem => ((mem_vehicleIDs_deleteCar_iff hwf.nodup).mp hmem).2 rfl
    rw [hcount, ← getCarCount_of_not_mem hnot]
    exact getCarCount_deleteCar_le hwf vid
  · exact getCarCount_deleteCar_le hwf vid

/-- Step lemma: the count stays within the limit whatever the operation is. -/
theorem VehicleChange.getCarCount_le {op : VehicleOp} (h : VehicleChange lib maxCars c op c')
    (hwf : c.TableWellFormed) {limit : ℤ} (hlimit : maxCars ≤ limit)
    (hcount : c.getCarCount ≤ limit) : c'.getCarCount ≤ limit := by
  have hbounds := c.getCarCount_bounds
  have hfresh := c.getOpenCarID_not_mem
  cases h with
  | unchanged => exact hcount
  | track _ _ hnone _ =>
    have hnot : c.unicycleID ∉ c.vehicleIDs := fun hmem => by
      have := hwf.nonneg _ hmem
      omega
    rw [TClient.getCarCount_of_not_mem hnot] at hcount
    rwa [TClient.getCarCount_of_not_mem (by simpa using hfresh)]
  | spawnUnicycle _ _ _ hnone =>
    have hnot : c.unicycleID ∉ c.vehicleIDs := fun hmem => by
      have := hwf.nonneg _ hmem
      omega
    rw [TClient.getCarCount_of_not_mem hnot] at hcount
    rw [TClient.getCarCount_of_mem (by simp)]
    simpa using hcount
  | @spawnCounted _ _ _ doc _ _ _ hlt =>
    by_cases hmem : c.unicycleID ∈ c.vehicleIDs
    · rw [TClient.getCarCount_of_mem hmem] at hlt
      rw [TClient.getCarCount_of_mem (by simp [hmem])]
      simp only [TClient.addNewCar_vehicleData, List.length_append, List.length_singleton]
      omega
    · rw [TClient.getCarCount_of_not_mem hmem] at hlt
      have hnew := ((c.addNewCar c.getOpenCarID doc).getCarCount_bounds).2
      simp only [TClient.addNewCar_vehicleData, List.length_append, List.length_singleton] at hnew
      omega
  | edit =>
    rwa [TClient.getCarCount_congr (TClient.setCarData_vehicleIDs _ _)
      (TClient.setCarData_unicycleID _ _)]
  | repaint =>
    rwa [TClient.getCarCount_congr (TClient.setCarData_vehicleIDs _ _)
      (TClient.setCarData_unicycleID _ _)]
  | delete => exact (TClient.getCarCount_reset_deleteCar_le hwf _).trans hcount
  | remove => exact (TClient.getCarCount_deleteCar_le hwf _).trans hcount

/-- Step lemma: apart from the one bad spawn, a vehicle under the tracked ID stays a unicycle. -/
theorem VehicleChange.trackedIsUnicycle {op : VehicleOp} (h : VehicleChange lib maxCars c op c')
    (hwf : c.TableWellFormed) (htracked : c.TrackedIsUnicycle)
    (hop : keepsCarsCounted lib maxCars c op = true) : c'.TrackedIsUnicycle := by
  cases h with
  | unchanged => exact htracked
  | track =>
    intro v hv hid
    have hmem : v.id ∈ c.vehicleIDs := TClient.mem_vehicleIDs_of_mem hv
    rw [hid] at hmem
    exact absurd hmem c.getOpenCarID_not_mem
  | spawnUnicycle _ _ huni _ =>
    intro v hv hid
    rcases List.mem_append.mp hv with hv | hv
    · have hmem : v.id ∈ c.vehicleIDs := TClient.mem_vehicleIDs_of_mem hv
      rw [hid] at hmem
      exact absurd hmem c.getOpenCarID_not_mem
    · obtain rfl := List.mem_singleton.mp hv
      exact huni
  | spawnCounted hspawn hdoc hveto hlt =>
    intro v hv hid
    rcases List.mem_append.mp hv with hv | hv
    · exact htracked v hv hid
    · obtain rfl := List.mem_singleton.mp hv
      by_contra hord
      have hid' : c.getOpenCarID = c.unicycleID := hid
      simp [keepsCarsCounted, hspawn, hdoc, hveto, hlt, hid', hord] at hop
  | edit huni =>
    intro v hv hid
    rw [TClient.setCarData_unicycleID] at hid
    rcases (TClient.mem_setCarData_iff hwf.nodup).mp hv with ⟨hv, -⟩ | ⟨-, rfl⟩
    · exact htracked v hv hid
    · exact huni hid.symm
  | repaint hnull huni =>
    intro v hv hid
    rw [TClient.setCarData_unicycleID] at hid
    rcases (TClient.mem_setCarData_iff hwf.nodup).mp hv with ⟨hv, -⟩ | ⟨-, rfl⟩
    · exact htracked v hv hid
    · obtain ⟨w, hw, hwid, hwdata⟩ := TClient.exists_of_getCarData hnull
      have hw' := htracked w hw (hwid.trans hid)
      rw [huni, ← hwdata, hw']
  | @delete _ _ vid _ =>
    intro v hv hid
    split_ifs at hv hid with hsame
    · obtain ⟨hv, -⟩ := (TClient.mem_deleteCar_iff (c := c.setUnicycleID (-1)) hwf.nodup).mp hv
      have hnonneg := hwf.nonneg _ (TClient.mem_vehicleIDs_of_mem (c := c) hv)
      simp only [TClient.deleteCar_unicycleID, TClient.setUnicycleID_unicycleID] at hid
      omega
    · exact htracked v ((TClient.mem_deleteCar_iff hwf.nodup).mp hv).1 hid
  | remove =>
    intro v hv hid
    exact htracked v ((TClient.mem_deleteCar_iff hwf.nodup).mp hv).1 hid

/-- The car count of a client never exceeds a limit that is not negative, and so it has
at most one vehicle more than that. -/
theorem getCarCount_le_of_run (hmax : 0 ≤ maxCars) {name role : Bytes} {id : ℤ}
    {ops : List VehicleOp}
    (hrun : Execution.run (vehicleStep lib maxCars) (.fresh name role id) ops = some c) :
    c.getCarCount ≤ maxCars ∧ c.vehicleData.length ≤ maxCars + 1 := by
  have hinv : c.TableWellFormed ∧ c.getCarCount ≤ maxCars := by
    refine Execution.run_invariant_of_step
      (I := fun c => c.TableWellFormed ∧ c.getCarCount ≤ maxCars)
      ?_ ⟨TClient.fresh_tableWellFormed name role id, hmax⟩ hrun
    rintro c op c' ⟨hwf, hcount⟩ hstep
    have hchange := vehicleStep_change hstep
    exact ⟨hchange.tableWellFormed hwf, hchange.getCarCount_le hwf le_rfl hcount⟩
  have hbounds := c.getCarCount_bounds
  exact ⟨hinv.2, by omega⟩

/-- With a limit that is not negative, a run in which no accepted spawn stores an ordinary
car under the ID held by `mUnicycleID` keeps to the car limit. -/
theorem carLimit_of_keepsCarsCounted (lib : JsonText) (maxCars : ℤ) (hmax : 0 ≤ maxCars)
    (name role : Bytes) (id : ℤ) (ops : List VehicleOp)
    (hops : Execution.Along (vehicleStep lib maxCars)
      (fun c op => keepsCarsCounted lib maxCars c op = true) (.fresh name role id) ops)
    (c : TClient)
    (hrun : Execution.run (vehicleStep lib maxCars) (.fresh name role id) ops = some c) :
    c.CarLimit maxCars := by
  have hinv : c.TableWellFormed ∧ c.TrackedIsUnicycle := by
    refine Execution.run_invariant (I := fun c => c.TableWellFormed ∧ c.TrackedIsUnicycle)
      ?_ ⟨TClient.fresh_tableWellFormed name role id, ?_⟩ hops hrun
    · rintro c op c' ⟨hwf, htracked⟩ hop hstep
      have hchange := vehicleStep_change hstep
      exact ⟨hchange.tableWellFormed hwf, hchange.trackedIsUnicycle hwf htracked hop⟩
    · exact fun v hv => absurd hv List.not_mem_nil
  obtain ⟨hcount, htotal⟩ := getCarCount_le_of_run hmax hrun
  exact ⟨hinv.2.ordinaryCars_le.trans hcount, htotal⟩

/-- A unicycle and then an ordinary car, both accepted, stay within a limit of one. -/
theorem carLimit_after_unicycle_and_car :
    ∃ c, Execution.run (vehicleStep sampleJson 1) (.fresh [] [] 0)
        [.packet (ascii "Os:0:" ++ unicycleJson) [], .packet (ascii "Os:0:\x7b\x7d") []] = some c ∧
      c.CarLimit 1 :=
  ⟨_, rfl, carLimit_of_keepsCarsCounted sampleJson 1 (by decide) [] [] 0
    [.packet (ascii "Os:0:" ++ unicycleJson) [], .packet (ascii "Os:0:\x7b\x7d") []]
    (by decide) _ rfl⟩

/-- After a rejected unicycle the first ordinary car is not counted, and a second one is
accepted over a limit of one. -/
theorem not_carLimit_after_veto :
    ∃ c, Execution.run (vehicleStep sampleJson 1) (.fresh [] [] 0)
        [.packet (ascii "Os:0:" ++ unicycleJson) [.int 1], .packet (ascii "Os:0:\x7b\x7d") [],
          .packet (ascii "Os:0:\x7b\x7d") []] = some c ∧
      ¬ c.CarLimit 1 :=
  ⟨_, rfl, by decide⟩

end BeamMP
