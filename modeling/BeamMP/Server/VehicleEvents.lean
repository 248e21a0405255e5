import BeamMP.Foundation.Replay
import BeamMP.Server.HandlerFrames
import BeamMP.Server.VehiclePositions

/-!
# What events tell of the vehicles

A plugin that listens to `postVehicleSpawn` and `onVehicleDeleted` can keep a table of all
vehicles, by the IDs of their players and their own. Each change that a handler makes to the
vehicle table of its client is told.
-/
namespace BeamMP

open Bytes Observables Replay

/-- The vehicles that a log of events tells of. -/
def toldVehicles (events : List (Bytes × List LuaArg)) : Finset (ℤ × ℤ) := told vehicleMark events

/-- From `S` to `S'` the vehicles of the player change to the given ones, and no others do. -/
def RowIs (PID : ℤ) (VIDs : List ℤ) (S S' : Finset (ℤ × ℤ)) : Prop :=
  ∀ p v, (p, v) ∈ S' ↔ if p = PID then v ∈ VIDs else (p, v) ∈ S

section RowIs

variable {PID VID : ℤ} {VIDs VIDs' : List ℤ} {S : Finset (ℤ × ℤ)}

theorem RowIs.refl (hrow : ∀ v, (PID, v) ∈ S ↔ v ∈ VIDs) : RowIs PID VIDs S S := by
  intro p v
  split_ifs with hp
  · rw [hp, hrow]
  · rfl

theorem RowIs.insert (hrow : ∀ v, (PID, v) ∈ S ↔ v ∈ VIDs) :
    RowIs PID (VIDs ++ [VID]) S (insert (PID, VID) S) := by
  intro p v
  split_ifs with hp
  · simp [hp, hrow, or_comm]
  · simp [hp]

theorem RowIs.erase (hrow : ∀ v, (PID, v) ∈ S ↔ v ∈ VIDs)
    (herase : ∀ v, v ∈ VIDs' ↔ v ∈ VIDs ∧ v ≠ VID) : RowIs PID VIDs' S (S.erase (PID, VID)) := by
  intro p v
  split_ifs with hp
  · simp [hp, hrow, herase, and_comm]
  · simp [hp]

end RowIs

/-- The events of a handler tell what has become of the vehicles of its client. -/
def Handled.Tells (h : Handled) (c : TClient) : Prop :=
  ∀ S : Finset (ℤ × ℤ), (∀ v, (c.id, v) ∈ S ↔ v ∈ c.vehicleIDs) →
    RowIs c.id h.client.vehicleIDs S
      ((h.effects.filterMap Effect.event).foldl (tell vehicleMark) S)

section Tells

variable {lib : JsonText} {maxCars : ℤ} {c : TClient} {pckt : Bytes} {answers : List LuaResult}

theorem tell_onVehicleDeleted (PID VID : ℤ) (S : Finset (ℤ × ℤ)) :
    tell vehicleMark S (ascii "onVehicleDeleted", [.int PID, .int VID]) = S.erase (PID, VID) :=
  tell_erased rfl

theorem tell_postVehicleSpawn (confirmed : Bool) (PID VID : ℤ) (args : List LuaArg)
    (S : Finset (ℤ × ℤ)) :
    tell vehicleMark S
      (ascii "postVehicleSpawn", .bool confirmed :: .int PID :: .int VID :: args) =
        if confirmed then insert (PID, VID) S else S := by
  cases confirmed with
  | true => exact tell_inserted rfl
  | false => exact tell_of_unmarked rfl

/-- No other event of the handlers tells of a vehicle. -/
theorem tell_onVehicleEvent (args : List LuaArg) (S : Finset (ℤ × ℤ)) :
    tell vehicleMark S (ascii "onVehicleSpawn", args) = S ∧
      tell vehicleMark S (ascii "onVehicleEdited", args) = S ∧
      tell vehicleMark S (ascii "postVehicleEdited", args) = S ∧
      tell vehicleMark S (ascii "onVehiclePaintChanged", args) = S :=
  ⟨tell_of_unmarked rfl, tell_of_unmarked rfl, tell_of_unmarked rfl, tell_of_unmarked rfl⟩

theorem tells_of_unmarked {h : Handled} (hids : h.client.vehicleIDs = c.vehicleIDs)
    (hevents : ∀ e ∈ h.effects.filterMap Effect.event, vehicleMark e = none) : h.Tells c := by
  intro S hrow
  rw [foldl_tell_of_unmarked hevents, hids]
  exact RowIs.refl hrow

theorem tells_unchanged : Handled.Tells { client := c } c :=
  tells_of_unmarked rfl (by simp)

theorem shouldSpawn_vehicleIDs (lib : JsonText) (maxCars : ℤ) (c : TClient) (carJson : Bytes)
    (ident : ℤ) : (shouldSpawn lib maxCars c carJson ident).1.vehicleIDs = c.vehicleIDs := by
  unfold shouldSpawn
  split_ifs <;> rfl

/-- A refused spawn tells that the vehicle is gone although it never was there. -/
theorem parseSpawn_tells : (parseSpawn lib maxCars answers c pckt).Tells c := by
  intro S hrow
  have hids := shouldSpawn_vehicleIDs lib maxCars c (substr pckt 5 none) c.getOpenCarID
  have hid := shouldSpawn_id lib maxCars c (substr pckt 5 none) c.getOpenCarID
  have hfree : ∀ v, v ∈ c.vehicleIDs ↔ v ∈ c.vehicleIDs ∧ v ≠ c.getOpenCarID := by
    intro v
    constructor
    · intro hv
      exact ⟨hv, fun heq => c.getOpenCarID_not_mem (heq ▸ hv)⟩
    · exact And.left
  unfold parseSpawn
  dsimp only
  cases lib.parse (substr pckt 5 none) with
  | none =>
    simp [List.filterMap_cons, hids, hid, tell_onVehicleEvent, tell_onVehicleDeleted,
      tell_postVehicleSpawn, RowIs.erase hrow hfree]
  | some doc =>
    dsimp only
    split_ifs
    · simp [List.filterMap_cons, hids, tell_onVehicleEvent, tell_postVehicleSpawn,
        RowIs.insert hrow]
    · simp [List.filterMap_cons, hids, hid, tell_onVehicleEvent, tell_onVehicleDeleted,
        tell_postVehicleSpawn, RowIs.erase hrow hfree]

theorem deleted_row (hwf : c.TableWellFormed) {S : Finset (ℤ × ℤ)}
    (hrow : ∀ v, (c.id, v) ∈ S ↔ v ∈ c.vehicleIDs) (vid : ℤ) :
    RowIs c.id
      ((if c.unicycleID = vid then c.setUnicycleID (-1) else c).deleteCar vid).vehicleIDs
      S (S.erase (c.id, vid)) := by
  apply RowIs.erase hrow
  intro v
  rw [TClient.deleteCar_vehicleIDs, untrack_vehicleIDs, hwf.nodup.mem_erase_iff, and_comm]

theorem parseEdit_tells (hwf : c.TableWellFormed) : (parseEdit lib answers c pckt).Tells c := by
  intro S hrow
  unfold parseEdit
  cases ownedVehicle c (substr pckt 3 none) with
  | none => exact tells_unchanged S hrow
  | some vid =>
    dsimp only
    split
    · simp [List.filterMap_cons, apply_vehicleIDs, tell_onVehicleEvent, RowIs.refl hrow]
    · simp only [List.filterMap_cons, Effect.event_triggerEvent, Effect.event_sendToAll,
        List.filterMap_nil, List.foldl_cons, List.foldl_nil, untracked_id, tell_onVehicleEvent,
        tell_onVehicleDeleted]
      exact deleted_row hwf hrow vid

theorem parseDelete_tells (hwf : c.TableWellFormed) : (parseDelete c pckt).Tells c := by
  intro S hrow
  unfold parseDelete
  cases ownedVehicle c (substr pckt 3 none) with
  | none => exact tells_unchanged S hrow
  | some vid =>
    simp only [List.filterMap_cons, Effect.event_triggerEvent, Effect.event_sendToAll,
      List.filterMap_nil, List.foldl_cons, List.foldl_nil, untracked_id, tell_onVehicleDeleted]
    exact deleted_row hwf hrow vid

theorem parseReset_tells : (parseReset c pckt).Tells c := by
  apply tells_of_unmarked (congrArg TClient.vehicleIDs parseReset_client)
  unfold parseReset
  dsimp only
  split
  · simp
  · split
    · simp
    · intro e he
      simp only [List.filterMap_cons, Effect.event_triggerEvent, Effect.event_sendToAll,
        List.filterMap_nil, List.mem_singleton] at he
      rw [he]
      rfl

theorem parseTransfer_tells : (parseTransfer c pckt).Tells c := by
  apply tells_of_unmarked (congrArg TClient.vehicleIDs parseTransfer_client)
  unfold parseTransfer
  split <;> simp [List.filterMap_cons]

theorem parsePaint_tells : (parsePaint lib c pckt).Tells c := by
  intro S hrow
  unfold parsePaint
  dsimp only
  cases ownedVehicle c (substr pckt 3 none) with
  | none => exact tells_unchanged S hrow
  | some vid =>
    cases find (substr pckt 3 none) '[' 0 with
    | none => exact tells_unchanged S hrow
    | some pos =>
      simp only [TClient.getCarData_snd]
      split_ifs
      · simp [List.filterMap_cons, tell_onVehicleEvent, RowIs.refl hrow]
      · cases paintTarget (c.getCarData vid).1 with
        | none => simp [List.filterMap_cons, tell_onVehicleEvent, RowIs.refl hrow]
        | some vcf =>
          cases lib.parse (substr (substr pckt 3 none) pos none) with
          | none => simp [List.filterMap_cons, tell_onVehicleEvent, RowIs.refl hrow]
          | some paints => simp [List.filterMap_cons, tell_onVehicleEvent, RowIs.refl hrow]

/-- Each change that a packet makes to the vehicle table of its sender is told. -/
theorem parseVehicle_tells (hwf : c.TableWellFormed) :
    (parseVehicle lib maxCars answers c pckt).Tells c := by
  unfold parseVehicle
  split
  · split_ifs
    · exact parseSpawn_tells
    · exact tells_unchanged
    · exact parseEdit_tells hwf
    · exact parseDelete_tells hwf
    · exact parseReset_tells
    · exact parseTransfer_tells
    · exact tells_of_unmarked rfl (by simp [List.filterMap_cons])
    · exact parsePaint_tells
    · exact tells_unchanged
  · exact tells_unchanged

theorem removeVehicle_tells (hwf : c.TableWellFormed) (vid : ℤ) :
    (removeVehicle c vid).1.Tells c := by
  intro S hrow
  simp only [removeVehicle, TClient.getCarData_snd]
  split_ifs
  · exact tells_unchanged S hrow
  · simp only [List.filterMap_cons, Effect.event_triggerEvent, Effect.event_sendToAll,
      List.filterMap_nil, List.foldl_cons, List.foldl_nil, tell_onVehicleDeleted]
    apply RowIs.erase hrow
    intro v
    rw [TClient.deleteCar_vehicleIDs, hwf.nodup.mem_erase_iff, and_comm]

end Tells

end BeamMP
