import BeamMP.Common.Json
import BeamMP.Foundation.KeyedList
import BeamMP.Foundation.RestartScan

/-!
# The vehicle table of a client

The vehicle part of `TClient` and its member functions. Each function body here
is what one thread does without interruption; the functions that release the
vehicle mutex in the middle (`getCarData`, `setCarData`) are the composition of
their two locked sections.
-/
namespace BeamMP

/-- `TVehicleData`. -/
structure VehicleData where
  id : ℤ
  data : Json

def VehicleData.setData (v : VehicleData) (data : Json) : VehicleData := { v with data := data }

/-- The fields of `TClient` that the vehicle handlers read and write. -/
structure TClient where
  vehicleData : List VehicleData := []
  vehiclePosition : ℕ → Option Bytes := fun _ => none
  name : Bytes := ascii "Unknown Client"
  unicycleID : ℤ := -1
  role : Bytes := []
  id : ℤ := -1

namespace TClient

variable (c : TClient)

/-- The IDs in `mVehicleData`, in the order they are stored. -/
def vehicleIDs : List ℤ := c.vehicleData.map VehicleData.id

def setUnicycleID (ident : ℤ) : TClient := { c with unicycleID := ident }

def addNewCar (ident : ℤ) (data : Json) : TClient :=
  { c with vehicleData := c.vehicleData ++ [⟨ident, data⟩] }

def deleteCar (ident : ℤ) : TClient :=
  { c with vehicleData := KeyedList.remove VehicleData.id ident c.vehicleData }

def clearCars : TClient := { c with vehicleData := [] }

/-- `GetOpenCarID`: its `do … while` loop is the restarting scan over the stored IDs. -/
def getOpenCarID : ℤ := RestartScan.leastUnused Int.ofNat_injective c.vehicleIDs

/-- The answer of `GetCarData`, and the client after the `DeleteCar` it ends with
when there is no such vehicle. -/
def getCarData (ident : ℤ) : Json × TClient :=
  match KeyedList.lookup VehicleData.id ident c.vehicleData with
  | some v => (v.data, c)
  | none => (.null, c.deleteCar ident)

def setCarData (ident : ℤ) (data : Json) : TClient :=
  match KeyedList.lookup VehicleData.id ident c.vehicleData with
  | some _ =>
    { c with
      vehicleData :=
        KeyedList.replace VehicleData.id ident (·.setData data) c.vehicleData }
  | none => c.deleteCar ident

/-- `GetCarCount`: the tracked unicycle is left out of the count. -/
def getCarCount : ℤ :=
  if c.unicycleID ∈ c.vehicleIDs then (c.vehicleData.length : ℤ) - 1 else c.vehicleData.length

def setCarPosition (ident : ℤ) (data : Bytes) : TClient :=
  { c with vehiclePosition := Function.update c.vehiclePosition ident.toNat (some data) }

/-- `GetCarPositionRaw`, which answers the empty string for an unknown vehicle. -/
def getCarPositionRaw (ident : ℤ) : Bytes := (c.vehiclePosition ident.toNat).getD []

variable {c}

@[simp] theorem setUnicycleID_vehicleData (i : ℤ) :
    (c.setUnicycleID i).vehicleData = c.vehicleData := rfl

@[simp] theorem setUnicycleID_vehicleIDs (i : ℤ) :
    (c.setUnicycleID i).vehicleIDs = c.vehicleIDs := rfl

@[simp] theorem setUnicycleID_unicycleID (i : ℤ) : (c.setUnicycleID i).unicycleID = i := rfl

@[simp] theorem addNewCar_vehicleData (i : ℤ) (j : Json) :
    (c.addNewCar i j).vehicleData = c.vehicleData ++ [⟨i, j⟩] := rfl

@[simp] theorem addNewCar_vehicleIDs (i : ℤ) (j : Json) :
    (c.addNewCar i j).vehicleIDs = c.vehicleIDs ++ [i] := by simp [vehicleIDs]

@[simp] theorem addNewCar_unicycleID (i : ℤ) (j : Json) :
    (c.addNewCar i j).unicycleID = c.unicycleID := rfl

@[simp] theorem deleteCar_vehicleIDs (i : ℤ) :
    (c.deleteCar i).vehicleIDs = c.vehicleIDs.erase i := KeyedList.keys_remove _ _ _

@[simp] theorem deleteCar_unicycleID (i : ℤ) : (c.deleteCar i).unicycleID = c.unicycleID := rfl

theorem mem_vehicleIDs_of_mem {v : VehicleData} (h : v ∈ c.vehicleData) : v.id ∈ c.vehicleIDs :=
  List.mem_map_of_mem h

@[simp] theorem length_vehicleIDs : c.vehicleIDs.length = c.vehicleData.length :=
  List.length_map _

theorem mem_deleteCar_iff (hnodup : c.vehicleIDs.Nodup) {i : ℤ} {v : VehicleData} :
    v ∈ (c.deleteCar i).vehicleData ↔ v ∈ c.vehicleData ∧ v.id ≠ i :=
  KeyedList.mem_remove_iff hnodup

theorem deleteCar_of_not_mem {i : ℤ} (h : i ∉ c.vehicleIDs) : c.deleteCar i = c := by
  unfold deleteCar
  rw [KeyedList.remove_of_not_mem h]

theorem mem_vehicleIDs_deleteCar_iff (hnodup : c.vehicleIDs.Nodup) {i j : ℤ} :
    j ∈ (c.deleteCar i).vehicleIDs ↔ j ∈ c.vehicleIDs ∧ j ≠ i := by
  rw [deleteCar_vehicleIDs, hnodup.mem_erase_iff, and_comm]

theorem getOpenCarID_not_mem : c.getOpenCarID ∉ c.vehicleIDs :=
  RestartScan.leastUnused_not_mem Int.ofNat_injective c.vehicleIDs

theorem getOpenCarID_nonneg : 0 ≤ c.getOpenCarID := Int.natCast_nonneg _

/-- Without a vehicle of that ID the trailing `DeleteCar` of `GetCarData` finds nothing. -/
@[simp] theorem getCarData_snd (i : ℤ) : (c.getCarData i).2 = c := by
  unfold getCarData
  split
  · rfl
  · next h => exact deleteCar_of_not_mem (KeyedList.lookup_eq_none_iff.mp h)

theorem exists_of_getCarData {i : ℤ} (h : (c.getCarData i).1.isNull = false) :
    ∃ v ∈ c.vehicleData, v.id = i ∧ v.data = (c.getCarData i).1 := by
  unfold getCarData at h ⊢
  split
  · next v hv =>
    exact ⟨v, KeyedList.mem_of_lookup hv, KeyedList.key_of_lookup hv, rfl⟩
  · next hv => simp [hv, Json.isNull] at h

@[simp] theorem setCarData_vehicleIDs (i : ℤ) (j : Json) :
    (c.setCarData i j).vehicleIDs = c.vehicleIDs := by
  unfold setCarData
  split
  · exact KeyedList.keys_replace VehicleData.id (·.setData j) (fun _ => rfl) _
  · next h => rw [deleteCar_of_not_mem (KeyedList.lookup_eq_none_iff.mp h)]

@[simp] theorem setCarData_unicycleID (i : ℤ) (j : Json) :
    (c.setCarData i j).unicycleID = c.unicycleID := by
  unfold setCarData
  split <;> rfl

theorem mem_vehicleIDs_of_getCarData {i : ℤ} (h : (c.getCarData i).1.isNull = false) :
    i ∈ c.vehicleIDs := by
  obtain ⟨v, hv, rfl, -⟩ := exists_of_getCarData h
  exact mem_vehicleIDs_of_mem hv

theorem getCarData_setCarData {i : ℤ} (h : i ∈ c.vehicleIDs) (j : Json) :
    ((c.setCarData i j).getCarData i).1 = j := by
  cases hlookup : KeyedList.lookup VehicleData.id i c.vehicleData with
  | none => exact absurd h (KeyedList.lookup_eq_none_iff.mp hlookup)
  | some v =>
    have hid : ∀ v : VehicleData, (v.setData j).id = v.id := fun _ => rfl
    have hreplace : KeyedList.lookup VehicleData.id i
        (KeyedList.replace VehicleData.id i (·.setData j) c.vehicleData) =
        (KeyedList.lookup VehicleData.id i c.vehicleData).map (·.setData j) :=
      KeyedList.lookup_replace hid c.vehicleData
    simp only [setCarData, hlookup, getCarData, hreplace, Option.map_some]
    rfl

theorem mem_setCarData_iff (hnodup : c.vehicleIDs.Nodup) {i : ℤ} {j : Json} {v : VehicleData} :
    v ∈ (c.setCarData i j).vehicleData ↔
      (v ∈ c.vehicleData ∧ v.id ≠ i) ∨ (i ∈ c.vehicleIDs ∧ v = ⟨i, j⟩) := by
  unfold setCarData
  split
  · next w hw =>
    have hmem : w ∈ c.vehicleData := KeyedList.mem_of_lookup hw
    obtain rfl : w.id = i := KeyedList.key_of_lookup hw
    rw [KeyedList.mem_replace_iff hnodup]
    constructor
    · rintro (h | ⟨x, -, hx, rfl⟩)
      · exact Or.inl h
      · exact Or.inr ⟨mem_vehicleIDs_of_mem hmem, by rw [← hx]; rfl⟩
    · rintro (h | ⟨-, rfl⟩)
      · exact Or.inl h
      · exact Or.inr ⟨w, hmem, rfl, rfl⟩
  · next h =>
    have hnot : i ∉ c.vehicleIDs := KeyedList.lookup_eq_none_iff.mp h
    rw [mem_deleteCar_iff hnodup]
    simp [hnot]

end TClient
end BeamMP
