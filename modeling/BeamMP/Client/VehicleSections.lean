import BeamMP.Client.Vehicles
import BeamMP.Foundation.Programs

/-!
# The locked sections of the vehicle table

The vehicle functions of `TClient` as other threads see them: each section holds
`mVehicleDataMutex` once, and between two sections of one call any other thread
may run. `GetCarData` and `SetCarData` release the mutex before the `DeleteCar`
call for a vehicle they did not find. `mUnicycleID` is a plain field.
-/
namespace BeamMP

open Programs

/-- What is done under one lock of `mVehicleDataMutex`, or to one plain field. The
trailing `DeleteCar` of a lookup is told apart from one that a caller makes. -/
inductive VehicleSection
  | findCar (ident : ℤ)
  | storeCar (ident : ℤ) (data : Json)
  | dropMissing (ident : ℤ)
  | addNewCar (ident : ℤ) (data : Json)
  | deleteCar (ident : ℤ)
  | clearCars
  | getOpenCarID
  | getCarCount
  | getUnicycleID
  | setUnicycleID (ident : ℤ)
  | getID

namespace VehicleSection

def Answer : VehicleSection → Type
  | .findCar _ => Option Json
  | .storeCar _ _ => Bool
  | .getOpenCarID | .getCarCount | .getUnicycleID | .getID => ℤ
  | .dropMissing _ | .addNewCar _ _ | .deleteCar _ | .clearCars | .setUnicycleID _ => Unit

/-- The `for` loop that `GetCarData` and `SetCarData` look a vehicle up with. -/
def lookup (c : TClient) (ident : ℤ) : Option VehicleData :=
  KeyedList.lookup VehicleData.id ident c.vehicleData

/-- The section of `SetCarData`: whether the vehicle was found, and the changed client. -/
def store (ident : ℤ) (data : Json) (c : TClient) : Bool × TClient :=
  match lookup c ident with
  | some _ =>
    (true,
      { c with
        vehicleData := KeyedList.replace VehicleData.id ident (·.setData data) c.vehicleData })
  | none => (false, c)

def exec : (k : VehicleSection) → TClient → k.Answer × TClient
  | .findCar ident, c => ((lookup c ident).map VehicleData.data, c)
  | .storeCar ident data, c => store ident data c
  | .dropMissing ident, c => ((), c.deleteCar ident)
  | .addNewCar ident data, c => ((), c.addNewCar ident data)
  | .deleteCar ident, c => ((), c.deleteCar ident)
  | .clearCars, c => ((), c.clearCars)
  | .getOpenCarID, c => (c.getOpenCarID, c)
  | .getCarCount, c => (c.getCarCount, c)
  | .getUnicycleID, c => (c.unicycleID, c)
  | .setUnicycleID ident, c => ((), c.setUnicycleID ident)
  | .getID, c => (c.id, c)

/-- Every section except the one of `AddNewCar`. -/
def addsNothing : VehicleSection → Bool
  | .addNewCar _ _ => false
  | _ => true

variable {c : TClient} {k : VehicleSection}

@[simp] theorem store_ids (ident : ℤ) (data : Json) :
    (store ident data c).2.vehicleIDs = c.vehicleIDs := by
  unfold store
  split
  · exact KeyedList.keys_replace VehicleData.id (·.setData data) (fun _ => rfl) _
  · rfl

theorem exec_ids_sublist (h : k.addsNothing = true) :
    (k.exec c).2.vehicleIDs.Sublist c.vehicleIDs := by
  cases k with
  | addNewCar ident data => cases h
  | storeCar ident data => simp [exec]
  | dropMissing ident => simpa [exec] using List.erase_sublist
  | deleteCar ident => simpa [exec] using List.erase_sublist
  | clearCars => exact List.nil_sublist _
  | _ => exact List.Sublist.refl _

end VehicleSection

abbrev VehicleProgram := Program VehicleSection.Answer

namespace VehicleProgram

def locked (k : VehicleSection) : VehicleProgram k.Answer := .perform k

def findCar (ident : ℤ) : VehicleProgram (Option Json) := locked (.findCar ident)
def storeCar (ident : ℤ) (data : Json) : VehicleProgram Bool := locked (.storeCar ident data)
def dropMissing (ident : ℤ) : VehicleProgram Unit := locked (.dropMissing ident)
def addNewCar (ident : ℤ) (data : Json) : VehicleProgram Unit := locked (.addNewCar ident data)
def deleteCar (ident : ℤ) : VehicleProgram Unit := locked (.deleteCar ident)
def clearCars : VehicleProgram Unit := locked .clearCars
def getOpenCarID : VehicleProgram ℤ := locked .getOpenCarID
def getCarCount : VehicleProgram ℤ := locked .getCarCount
def getUnicycleID : VehicleProgram ℤ := locked .getUnicycleID
def setUnicycleID (ident : ℤ) : VehicleProgram Unit := locked (.setUnicycleID ident)
def getID : VehicleProgram ℤ := locked .getID

def getCarData (ident : ℤ) : VehicleProgram Json := do
  match ← findCar ident with
  | some data => pure data
  | none =>
    dropMissing ident
    pure .null

def setCarData (ident : ℤ) (data : Json) : VehicleProgram Unit := do
  if ← storeCar ident data then pure () else dropMissing ident

/-- The result of a program on a client that no other thread touches. -/
def alone {α : Type} (p : VehicleProgram α) (c : TClient) : α × TClient :=
  Program.alone VehicleSection.exec p c

variable {c : TClient} {α β : Type}

@[simp] theorem alone_pure (a : α) : alone (pure a) c = (a, c) := rfl

@[simp] theorem alone_bind (p : VehicleProgram α) (f : α → VehicleProgram β) :
    alone (p >>= f) c = alone (f (alone p c).1) (alone p c).2 :=
  Program.alone_bind VehicleSection.exec p f c

@[simp] theorem alone_addNewCar (ident : ℤ) (data : Json) :
    alone (addNewCar ident data) c = ((), c.addNewCar ident data) := rfl

@[simp] theorem alone_deleteCar (ident : ℤ) :
    alone (deleteCar ident) c = ((), c.deleteCar ident) := rfl

@[simp] theorem alone_getOpenCarID : alone getOpenCarID c = (c.getOpenCarID, c) := rfl

@[simp] theorem alone_getCarCount : alone getCarCount c = (c.getCarCount, c) := rfl

@[simp] theorem alone_getUnicycleID : alone getUnicycleID c = (c.unicycleID, c) := rfl

@[simp] theorem alone_setUnicycleID (ident : ℤ) :
    alone (setUnicycleID ident) c = ((), c.setUnicycleID ident) := rfl

@[simp] theorem alone_getID : alone getID c = (c.id, c) := rfl

theorem alone_findCar (ident : ℤ) :
    alone (findCar ident) c = ((VehicleSection.lookup c ident).map VehicleData.data, c) := rfl

theorem alone_storeCar (ident : ℤ) (data : Json) :
    alone (storeCar ident data) c = VehicleSection.store ident data c := rfl

/-- Uninterrupted, the two sections of `GetCarData` are the one function. -/
@[simp] theorem alone_getCarData (ident : ℤ) :
    alone (getCarData ident) c = c.getCarData ident := by
  unfold getCarData TClient.getCarData
  rw [alone_bind, alone_findCar, VehicleSection.lookup]
  cases KeyedList.lookup VehicleData.id ident c.vehicleData <;> rfl

@[simp] theorem alone_setCarData (ident : ℤ) (data : Json) :
    alone (setCarData ident data) c = ((), c.setCarData ident data) := by
  unfold setCarData TClient.setCarData
  rw [alone_bind, alone_storeCar, VehicleSection.store, VehicleSection.lookup]
  cases KeyedList.lookup VehicleData.id ident c.vehicleData <;> rfl

end VehicleProgram
end BeamMP
