import BeamMP.Server.VehicleChanges

/-!
# The tracked unicycle

`mUnicycleID` should name a stored unicycle whenever it is not `-1`. Two
operations leave it dangling: a first unicycle that Lua rejects, because
`ShouldSpawn` records the ID before the decision is made, and `MP.RemoveVehicle`
on the tracked vehicle, which is the one removal that does not reset it.
-/
namespace BeamMP

variable (lib : JsonText) (maxCars : ℤ)

/-- The invariant `mUnicycleID` is meant to have. -/
def TClient.UnicycleTracked (c : TClient) : Prop :=
  c.unicycleID = -1 ∨ ∃ v ∈ c.vehicleData, v.id = c.unicycleID ∧ v.data.isUnicycle = true

instance (c : TClient) : Decidable c.UnicycleTracked := inferInstanceAs (Decidable (_ ∨ _))

/-- Whether an operation is neither a vetoed first unicycle nor a `MP.RemoveVehicle`
of the tracked vehicle. -/
def keepsTracking (c : TClient) : VehicleOp → Bool
  | .packet pckt answers =>
    !((spawnJson pckt).any (isUnicycle lib) && c.unicycleID < 0 && vetoed answers)
  | .removeVehicle vid => vid != c.unicycleID || (c.getCarData vid).1.isNull

variable {lib maxCars} {c c' : TClient}

theorem TClient.UnicycleTracked.of_stored {v : VehicleData} (hv : v ∈ c.vehicleData)
    (hid : v.id = c.unicycleID) (huni : v.data.isUnicycle = true) : c.UnicycleTracked :=
  Or.inr ⟨v, hv, hid, huni⟩

theorem TClient.UnicycleTracked.deleteCar (h : c.UnicycleTracked) (hwf : c.TableWellFormed)
    {vid : ℤ} (hne : c.unicycleID ≠ vid) : (c.deleteCar vid).UnicycleTracked := by
  rcases h with hnone | ⟨v, hv, hid, huni⟩
  · exact Or.inl hnone
  · have hkept : v ∈ (c.deleteCar vid).vehicleData :=
      (mem_deleteCar_iff hwf.nodup).mpr ⟨hv, hid ▸ hne⟩
    exact .of_stored hkept hid huni

theorem TClient.UnicycleTracked.setCarData (h : c.UnicycleTracked) (hwf : c.TableWellFormed)
    {vid : ℤ} {doc : Json} (hdoc : c.unicycleID = vid → doc.isUnicycle = true) :
    (c.setCarData vid doc).UnicycleTracked := by
  rcases h with hnone | ⟨v, hv, hid, huni⟩
  · exact Or.inl (by simpa using hnone)
  · by_cases hvid : c.unicycleID = vid
    · have hmem : vid ∈ c.vehicleIDs := hvid ▸ hid ▸ mem_vehicleIDs_of_mem hv
      have hset : (⟨vid, doc⟩ : VehicleData) ∈ (c.setCarData vid doc).vehicleData :=
        (mem_setCarData_iff hwf.nodup).mpr (Or.inr ⟨hmem, rfl⟩)
      exact .of_stored hset (by simp [hvid]) (hdoc hvid)
    · have hset : v ∈ (c.setCarData vid doc).vehicleData :=
        (mem_setCarData_iff hwf.nodup).mpr (Or.inl ⟨hv, hid ▸ hvid⟩)
      exact .of_stored hset (by simp [hid]) huni

/-- Step lemma: apart from the two bad operations every change keeps the unicycle tracked. -/
theorem VehicleChange.unicycleTracked {op : VehicleOp} (h : VehicleChange lib maxCars c op c')
    (hwf : c.TableWellFormed) (htracked : c.UnicycleTracked)
    (hop : keepsTracking lib c op = true) : c'.UnicycleTracked := by
  cases h with
  | unchanged => exact htracked
  | track hspawn huni hnone hveto => simp [keepsTracking, hspawn, huni, hnone, hveto] at hop
  | @spawnUnicycle _ _ _ doc _ _ huni _ =>
    have hstored : (⟨c.getOpenCarID, doc⟩ : VehicleData) ∈
        ((c.setUnicycleID c.getOpenCarID).addNewCar c.getOpenCarID doc).vehicleData := by simp
    exact .of_stored hstored rfl huni
  | spawnCounted =>
    rcases htracked with hnone | ⟨v, hv, hid, huni⟩
    · exact Or.inl hnone
    · exact .of_stored (by simp [hv]) hid huni
  | edit hdoc => exact htracked.setCarData hwf hdoc
  | @repaint _ _ vid doc hnull hdoc =>
    apply htracked.setCarData hwf
    intro hvid
    obtain ⟨w, hw, hwid, hwdata⟩ := TClient.exists_of_getCarData hnull
    rcases htracked with hnone | ⟨v, hv, hid, huni⟩
    · have hnonneg := hwf.nonneg _ (TClient.mem_vehicleIDs_of_mem hw)
      omega
    · have hvw : v = w := List.inj_on_of_nodup_map hwf.nodup hv hw (by omega)
      rw [hdoc, ← hwdata, ← hvw, huni]
  | @delete _ _ vid hvid =>
    by_cases hsame : c.unicycleID = vid
    · rw [if_pos hsame]
      exact Or.inl rfl
    · rw [if_neg hsame]
      exact htracked.deleteCar hwf hsame
  | @remove vid hnull =>
    have hne : vid ≠ c.unicycleID := by simpa [keepsTracking, hnull] using hop
    exact htracked.deleteCar hwf hne.symm

/-- The two bad operations do lose the tracked unicycle. -/
theorem keepsTracking_of_unicycleTracked (hwf : c.TableWellFormed) (op : VehicleOp)
    (h : (op.handle lib maxCars c).client.UnicycleTracked) :
    keepsTracking lib c op = true := by
  by_contra hbad
  cases op with
  | packet pckt answers =>
    cases hspawn : spawnJson pckt with
    | none => simp [keepsTracking, hspawn] at hbad
    | some json =>
      obtain ⟨⟨huni, hnone⟩, hveto⟩ :
          (isUnicycle lib json = true ∧ c.unicycleID < 0) ∧ vetoed answers = true := by
        simpa [keepsTracking, hspawn] using hbad
      rw [handle_rejected_unicycle hspawn huni hnone hveto] at h
      rcases h with hid | ⟨v, hv, hid, -⟩
      · have hnonneg := c.getOpenCarID_nonneg
        rw [TClient.setUnicycleID_unicycleID] at hid
        omega
      · have hmem : v.id ∈ c.vehicleIDs := TClient.mem_vehicleIDs_of_mem hv
        rw [hid] at hmem
        exact c.getOpenCarID_not_mem hmem
  | removeVehicle vid =>
    obtain ⟨rfl, hnull⟩ : vid = c.unicycleID ∧ (c.getCarData vid).1.isNull = false := by
      simpa [keepsTracking] using hbad
    rw [handle_removeVehicle hnull] at h
    obtain ⟨w, hw, hwid, -⟩ := TClient.exists_of_getCarData hnull
    have hnonneg := hwf.nonneg _ (TClient.mem_vehicleIDs_of_mem hw)
    rcases h with hid | ⟨v, hv, hid, -⟩
    · rw [TClient.deleteCar_unicycleID] at hid
      omega
    · exact ((TClient.mem_deleteCar_iff hwf.nodup).mp hv).2 hid

/-- In a run of packets and `MP.RemoveVehicle` calls from a client without vehicles, the
tracked unicycle is stored in every state exactly when no step of the run is a vetoed
first unicycle or a `MP.RemoveVehicle` of the tracked vehicle. -/
theorem unicycleTracked_iff_keepsTracking (lib : JsonText) (maxCars : ℤ) (name role : Bytes)
    (id : ℤ) (ops : List VehicleOp) :
    (∀ c, Execution.Visits (vehicleStep lib maxCars) (.fresh name role id) ops c →
        c.UnicycleTracked) ↔
      Execution.Along (vehicleStep lib maxCars) (fun c op => keepsTracking lib c op = true)
        (.fresh name role id) ops := by
  apply Execution.always_iff_along (I := fun c => c.TableWellFormed ∧ c.UnicycleTracked)
  · exact fun c h => h.2
  · rintro c op c' ⟨hwf, htracked⟩ hop hstep
    have hchange := vehicleStep_change hstep
    exact ⟨hchange.tableWellFormed hwf, hchange.unicycleTracked hwf htracked hop⟩
  · rintro c op c' ⟨hwf, -⟩ hstep h
    exact keepsTracking_of_unicycleTracked hwf op (Option.some.inj hstep ▸ h)
  · exact ⟨TClient.fresh_tableWellFormed name role id, Or.inl rfl⟩

/-- The configuration of a unicycle as the client sends it. -/
def unicycleJson : Bytes := ascii "\x7b\"jbm\":\"unicycle\"\x7d"

/-- A JSON library on the two configurations of the runs below. -/
def sampleJson : JsonText where
  parse s :=
    if s = unicycleJson then some (.object [(ascii "jbm", .string (ascii "unicycle"))])
    else if s = ascii "\x7b\x7d" then some (.object [])
    else none
  dump _ := none

/-- A rejected spawn of a first unicycle leaves `mUnicycleID` at an ID no vehicle has. -/
theorem not_unicycleTracked_after_veto :
    ∃ c, Execution.run (vehicleStep sampleJson 1) (.fresh [] [] 0)
        [.packet (ascii "Os:0:" ++ unicycleJson) [.int 1]] = some c ∧ ¬ c.UnicycleTracked :=
  ⟨_, rfl, by decide⟩

end BeamMP
