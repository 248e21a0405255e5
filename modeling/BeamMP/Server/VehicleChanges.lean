import BeamMP.Foundation.Execution
import BeamMP.Server.ParseVehicle

/-!
# What one vehicle operation can do

Every packet and every `MP.RemoveVehicle` call changes a client's vehicle table
and its tracked unicycle in one of the ways listed by `VehicleChange`. The
invariants of the table are proved from this list, not from the handlers.
-/
namespace BeamMP

variable (lib : JsonText)

/-- The vehicle configuration of a packet that `ParseVehicle` treats as a spawn. -/
def spawnJson (pckt : Bytes) : Option Bytes :=
  match pckt with
  | _ :: code :: _ :: subCode :: _ :: _ :: _ =>
    if code = 's'.toUInt8 ∧ subCode = '0'.toUInt8 then some (Bytes.substr pckt 5 none) else none
  | _ => none

/-- The possible results of one operation, with the conditions under which each occurs. -/
inductive VehicleChange (maxCars : ℤ) (c : TClient) : VehicleOp → TClient → Prop
  | unchanged (op : VehicleOp) : VehicleChange maxCars c op c
  | track {pckt json : Bytes} {answers : List LuaResult} :
      spawnJson pckt = some json → isUnicycle lib json = true → c.unicycleID < 0 →
      vetoed answers = true →
      VehicleChange maxCars c (.packet pckt answers) (c.setUnicycleID c.getOpenCarID)
  | spawnUnicycle {pckt json : Bytes} {answers : List LuaResult} {doc : Json} :
      spawnJson pckt = some json → lib.parse json = some doc → doc.isUnicycle = true →
      c.unicycleID < 0 →
      VehicleChange maxCars c (.packet pckt answers)
        ((c.setUnicycleID c.getOpenCarID).addNewCar c.getOpenCarID doc)
  | spawnCounted {pckt json : Bytes} {answers : List LuaResult} {doc : Json} :
      spawnJson pckt = some json → lib.parse json = some doc → vetoed answers = false →
      c.getCarCount < maxCars →
      VehicleChange maxCars c (.packet pckt answers) (c.addNewCar c.getOpenCarID doc)
  | edit {pckt : Bytes} {answers : List LuaResult} {vid : ℤ} {doc : Json} :
      (c.unicycleID = vid → doc.isUnicycle = true) →
      VehicleChange maxCars c (.packet pckt answers) (c.setCarData vid doc)
  | repaint {pckt : Bytes} {answers : List LuaResult} {vid : ℤ} {doc : Json} :
      (c.getCarData vid).1.isNull = false →
      doc.isUnicycle = (c.getCarData vid).1.isUnicycle →
      VehicleChange maxCars c (.packet pckt answers) (c.setCarData vid doc)
  | delete {pckt : Bytes} {answers : List LuaResult} {vid : ℤ} : 0 ≤ vid →
      VehicleChange maxCars c (.packet pckt answers)
        ((if c.unicycleID = vid then c.setUnicycleID (-1) else c).deleteCar vid)
  | remove {vid : ℤ} : (c.getCarData vid).1.isNull = false →
      VehicleChange maxCars c (.removeVehicle vid) (c.deleteCar vid)

variable {lib} {maxCars : ℤ} {c : TClient} {pckt : Bytes} {answers : List LuaResult}

theorem isUnicycle_of_parse {json : Bytes} {doc : Json} (h : lib.parse json = some doc) :
    isUnicycle lib json = doc.isUnicycle := by simp [isUnicycle, h]

theorem parse_of_isUnicycle {json : Bytes} (h : isUnicycle lib json = true) :
    ∃ doc, lib.parse json = some doc ∧ doc.isUnicycle = true := by
  cases hp : lib.parse json with
  | none => simp [isUnicycle, hp] at h
  | some doc => exact ⟨doc, rfl, isUnicycle_of_parse hp ▸ h⟩

theorem shouldSpawn_first {json : Bytes} {ident : ℤ} (huni : isUnicycle lib json = true)
    (hnone : c.unicycleID < 0) :
    shouldSpawn lib maxCars c json ident = (c.setUnicycleID ident, true) := by
  simp [shouldSpawn, huni, hnone]

theorem shouldSpawn_counted {json : Bytes} {ident : ℤ}
    (h : ¬ (isUnicycle lib json = true ∧ c.unicycleID < 0)) :
    shouldSpawn lib maxCars c json ident = (c, decide (c.getCarCount < maxCars)) := by
  unfold shouldSpawn
  rw [if_neg (by simpa using h)]

/-- The client after a spawn packet: `ShouldSpawn` has run in any case, and a vehicle
is added only if it agreed, Lua did not object and the configuration is JSON. -/
theorem parseSpawn_client :
    (parseSpawn lib maxCars answers c pckt).client =
      let carJson := Bytes.substr pckt 5 none
      let (c', should) := shouldSpawn lib maxCars c carJson c.getOpenCarID
      match lib.parse carJson with
      | none => c'
      | some doc => if should && !vetoed answers then c'.addNewCar c.getOpenCarID doc else c' := by
  unfold parseSpawn
  dsimp only
  cases lib.parse (Bytes.substr pckt 5 none) with
  | none => rfl
  | some doc => exact apply_ite Handled.client _ _ _

theorem parseSpawn_change (hspawn : spawnJson pckt = some (Bytes.substr pckt 5 none)) :
    VehicleChange lib maxCars c (.packet pckt answers)
      (parseSpawn lib maxCars answers c pckt).client := by
  rw [parseSpawn_client]
  by_cases hfirst : isUnicycle lib (Bytes.substr pckt 5 none) = true ∧ c.unicycleID < 0
  · obtain ⟨huni, hnone⟩ := hfirst
    obtain ⟨doc, hdoc, hdocuni⟩ := parse_of_isUnicycle huni
    cases hveto : vetoed answers with
    | true => simpa [shouldSpawn_first huni hnone, hdoc, hveto] using .track hspawn huni hnone hveto
    | false =>
      simpa [shouldSpawn_first huni hnone, hdoc, hveto] using
        .spawnUnicycle hspawn hdoc hdocuni hnone
  · cases hdoc : lib.parse (Bytes.substr pckt 5 none) with
    | none => simpa [shouldSpawn_counted hfirst, hdoc] using .unchanged _
    | some doc =>
      simp only [shouldSpawn_counted hfirst, hdoc]
      split_ifs with h
      · obtain ⟨hcount, hveto⟩ : c.getCarCount < maxCars ∧ vetoed answers = false := by
          simpa using h
        exact .spawnCounted hspawn hdoc hveto hcount
      · exact .unchanged _

theorem apply_eq (lib : JsonText) (c : TClient) (vid : ℤ) (pckt : Bytes) :
    apply lib c vid pckt = c ∨
      ∃ pos doc, Bytes.find pckt '{' 0 = some pos ∧
        lib.parse (Bytes.substr pckt pos none) = some doc ∧
        apply lib c vid pckt = c.setCarData vid doc := by
  unfold apply
  cases hpos : Bytes.find pckt '{' 0 with
  | none => exact Or.inl rfl
  | some pos =>
    simp only [TClient.getCarData_snd]
    split_ifs
    · exact Or.inl rfl
    · cases hdoc : lib.parse (Bytes.substr pckt pos none) with
      | none => exact Or.inl rfl
      | some doc => exact Or.inr ⟨pos, doc, rfl, hdoc, rfl⟩

theorem parseEdit_change :
    VehicleChange lib maxCars c (.packet pckt answers) (parseEdit lib answers c pckt).client := by
  unfold parseEdit
  cases hvid : ownedVehicle c (Bytes.substr pckt 3 none) with
  | none => exact .unchanged _
  | some vid =>
    dsimp only
    split
    · next hallowed =>
      rcases apply_eq lib c vid pckt with happly | ⟨pos, doc, hpos, hdoc, happly⟩
      · simpa only [happly] using .unchanged _
      · have hedit : c.unicycleID = vid → doc.isUnicycle = true := by
          intro htracked
          rw [← isUnicycle_of_parse hdoc]
          simp only [htracked, hpos, Bool.and_eq_true] at hallowed
          simpa using hallowed.1
        simpa only [happly] using .edit hedit
    · exact .delete (ownedVehicle_nonneg hvid)

theorem parseDelete_change :
    VehicleChange lib maxCars c (.packet pckt answers) (parseDelete c pckt).client := by
  unfold parseDelete
  cases hvid : ownedVehicle c (Bytes.substr pckt 3 none) with
  | none => exact .unchanged _
  | some vid => exact .delete (ownedVehicle_nonneg hvid)

theorem parseReset_client : (parseReset c pckt).client = c := by
  unfold parseReset
  dsimp only
  split
  · rfl
  · split <;> rfl

theorem parseTransfer_client : (parseTransfer c pckt).client = c := by
  unfold parseTransfer
  split <;> rfl

theorem parsePaint_change :
    VehicleChange lib maxCars c (.packet pckt answers) (parsePaint lib c pckt).client := by
  unfold parsePaint
  dsimp only
  cases hvid : ownedVehicle c (Bytes.substr pckt 3 none) with
  | none => exact .unchanged _
  | some vid =>
    cases hpos : Bytes.find (Bytes.substr pckt 3 none) '[' 0 with
    | none => exact .unchanged _
    | some pos =>
      simp only [TClient.getCarData_snd]
      split_ifs with hnull
      · exact .unchanged _
      · cases paintTarget (c.getCarData vid).1 with
        | none => exact .unchanged _
        | some vcf =>
          cases lib.parse (Bytes.substr (Bytes.substr pckt 3 none) pos none) with
          | none => exact .unchanged _
          | some paints =>
            refine .repaint (by simpa using hnull) ?_
            exact Json.isUnicycle_setMember _ _ (by decide)

theorem parseVehicle_change :
    VehicleChange lib maxCars c (.packet pckt answers)
      (parseVehicle lib maxCars answers c pckt).client := by
  unfold parseVehicle
  split
  · next _ code _ subCode _ _ _ =>
    split_ifs with hs hsub
    · exact parseSpawn_change (by simp [spawnJson, hs, hsub])
    · exact .unchanged _
    · exact parseEdit_change
    · exact parseDelete_change
    · rw [parseReset_client]
      exact .unchanged _
    · rw [parseTransfer_client]
      exact .unchanged _
    · exact .unchanged _
    · exact parsePaint_change
    · exact .unchanged _
  · exact .unchanged _

theorem removeVehicle_change (vid : ℤ) :
    VehicleChange lib maxCars c (.removeVehicle vid) (removeVehicle c vid).1.client := by
  simp only [removeVehicle, TClient.getCarData_snd]
  split_ifs with hnull
  · exact .unchanged _
  · exact .remove (by simpa using hnull)

/-- The handlers do nothing that the list does not allow. -/
theorem handle_change (op : VehicleOp) :
    VehicleChange lib maxCars c op (op.handle lib maxCars c).client := by
  cases op with
  | packet pckt answers => exact parseVehicle_change
  | removeVehicle vid => exact removeVehicle_change vid

theorem vehicleStep_change {op : VehicleOp} {c' : TClient}
    (h : vehicleStep lib maxCars c op = some c') : VehicleChange lib maxCars c op c' :=
  Option.some.inj h ▸ handle_change op

theorem handle_spawn {json : Bytes} (hspawn : spawnJson pckt = some json) :
    (VehicleOp.packet pckt answers).handle lib maxCars c =
        parseSpawn lib maxCars answers c pckt ∧ json = Bytes.substr pckt 5 none := by
  unfold spawnJson at hspawn
  split at hspawn
  · split_ifs at hspawn with hcode
    obtain ⟨hs, hsub⟩ := hcode
    exact ⟨by simp [VehicleOp.handle, parseVehicle, hs, hsub], (Option.some.inj hspawn).symm⟩
  · cases hspawn

/-- A first unicycle that Lua rejects is tracked although it is not stored. -/
theorem handle_rejected_unicycle {json : Bytes} (hspawn : spawnJson pckt = some json)
    (huni : isUnicycle lib json = true) (hnone : c.unicycleID < 0)
    (hveto : vetoed answers = true) :
    ((VehicleOp.packet pckt answers).handle lib maxCars c).client =
      c.setUnicycleID c.getOpenCarID := by
  obtain ⟨hhandle, rfl⟩ := handle_spawn hspawn
  obtain ⟨doc, hdoc, -⟩ := parse_of_isUnicycle huni
  rw [hhandle, parseSpawn_client]
  simp [shouldSpawn_first huni hnone, hdoc, hveto]

theorem handle_removeVehicle {vid : ℤ} (h : (c.getCarData vid).1.isNull = false) :
    ((VehicleOp.removeVehicle vid).handle lib maxCars c).client = c.deleteCar vid := by
  simp [VehicleOp.handle, removeVehicle, h]

/-- The IDs in the table are distinct, and none is negative. -/
structure TClient.TableWellFormed (c : TClient) : Prop where
  nodup : c.vehicleIDs.Nodup
  nonneg : ∀ i ∈ c.vehicleIDs, 0 ≤ i

theorem TClient.TableWellFormed.addNewCar_of_not_mem (h : c.TableWellFormed) {ident : ℤ}
    (hnot : ident ∉ c.vehicleIDs) (hnonneg : 0 ≤ ident) (data : Json) :
    (c.addNewCar ident data).TableWellFormed := by
  constructor
  · rw [addNewCar_vehicleIDs, List.nodup_append]
    refine ⟨h.nodup, List.nodup_singleton _, ?_⟩
    intro i hi j hj hij
    obtain rfl := List.mem_singleton.mp hj
    exact hnot (hij ▸ hi)
  · intro i hi
    rw [addNewCar_vehicleIDs, List.mem_append, List.mem_singleton] at hi
    rcases hi with hi | rfl
    · exact h.nonneg i hi
    · exact hnonneg

theorem TClient.TableWellFormed.addNewCar (h : c.TableWellFormed) (data : Json) :
    (c.addNewCar c.getOpenCarID data).TableWellFormed :=
  h.addNewCar_of_not_mem getOpenCarID_not_mem getOpenCarID_nonneg data

theorem TClient.TableWellFormed.of_sublist {c' : TClient} (h : c.TableWellFormed)
    (hsub : c'.vehicleIDs.Sublist c.vehicleIDs) : c'.TableWellFormed where
  nodup := hsub.nodup h.nodup
  nonneg i hi := h.nonneg i (hsub.subset hi)

theorem TClient.TableWellFormed.deleteCar (h : c.TableWellFormed) (i : ℤ) :
    (c.deleteCar i).TableWellFormed := by
  apply h.of_sublist
  rw [deleteCar_vehicleIDs]
  exact List.erase_sublist

theorem TClient.TableWellFormed.of_vehicleIDs_eq {c' : TClient} (h : c.TableWellFormed)
    (heq : c'.vehicleIDs = c.vehicleIDs) : c'.TableWellFormed :=
  ⟨heq ▸ h.nodup, heq ▸ h.nonneg⟩

theorem VehicleChange.tableWellFormed {op : VehicleOp} {c' : TClient}
    (h : VehicleChange lib maxCars c op c') (hwf : c.TableWellFormed) : c'.TableWellFormed := by
  cases h with
  | unchanged => exact hwf
  | track => exact hwf.of_vehicleIDs_eq rfl
  | spawnUnicycle =>
    have hadd := hwf.addNewCar .null
    exact hadd.of_vehicleIDs_eq (by simp)
  | spawnCounted => exact hwf.addNewCar _
  | edit => exact hwf.of_vehicleIDs_eq (TClient.setCarData_vehicleIDs _ _)
  | repaint => exact hwf.of_vehicleIDs_eq (TClient.setCarData_vehicleIDs _ _)
  | delete =>
    apply TClient.TableWellFormed.deleteCar
    split_ifs
    · exact hwf.of_vehicleIDs_eq rfl
    · exact hwf
  | remove => exact hwf.deleteCar _

def TClient.fresh (name role : Bytes) (id : ℤ) : TClient := { name, role, id }

theorem TClient.fresh_tableWellFormed (name role : Bytes) (id : ℤ) :
    (fresh name role id).TableWellFormed :=
  ⟨List.nodup_nil, fun _ h => absurd h (List.not_mem_nil)⟩

end BeamMP
