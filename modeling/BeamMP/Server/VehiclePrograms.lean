import BeamMP.Client.VehicleSections
import BeamMP.Server.VehicleChanges

/-!
# Vehicle packets as programs

The handlers of `ParseVehicle` and `MP.RemoveVehicle`, cut into the sections in
which they touch the client, so that other threads can run in between: while Lua
handlers run, while packets are sent, or simply between two calls. Without other
threads they are the handlers of `ParseVehicle`. The IDs of a client's vehicles
stay distinct in every interleaving, because only the client's receive thread
adds vehicles and other threads can only take IDs away from it.
-/
namespace BeamMP

open Bytes Programs

namespace VehicleProgram

variable (lib : JsonText) (maxCars : ℤ)

def belowLimit : VehicleProgram Bool := do
  let count ← getCarCount
  pure (count < maxCars)

def shouldSpawn (carJson : Bytes) (ident : ℤ) : VehicleProgram Bool :=
  if isUnicycle lib carJson then do
    let tracked ← getUnicycleID
    if tracked < 0 then
      setUnicycleID ident
      pure true
    else belowLimit maxCars
  else belowLimit maxCars

def apply (vid : ℤ) (pckt : Bytes) : VehicleProgram Unit :=
  match find pckt '{' 0 with
  | none => pure ()
  | some foundPos => do
    let vd ← getCarData vid
    if vd.isNull then pure ()
    else match lib.parse (substr pckt foundPos none) with
      | none => pure ()
      | some pack => setCarData vid pack

def ownedVehicle (data : Bytes) : VehicleProgram (Option ℤ) := do
  let pid ← getID
  pure (BeamMP.ownedVehicle { id := pid } data)

def parseSpawn (answers : List LuaResult) (packet : Bytes) : VehicleProgram Unit := do
  let carID ← getOpenCarID
  let carJson := substr packet 5 none
  let should ← shouldSpawn lib maxCars carJson carID
  match lib.parse carJson with
  | none => pure ()
  | some doc => if should && !vetoed answers then addNewCar carID doc else pure ()

/-- Forget the tracked unicycle if it is that vehicle. -/
def untrack (vid : ℤ) : VehicleProgram Unit := do
  let tracked ← getUnicycleID
  if tracked = vid then setUnicycleID (-1) else pure ()

def parseEdit (answers : List LuaResult) (packet : Bytes) : VehicleProgram Unit := do
  match ← ownedVehicle (substr packet 3 none) with
  | none => pure ()
  | some vid =>
    let foundPos := (find packet '{' 0).getD 0
    let tracked ← getUnicycleID
    if (tracked ≠ vid || isUnicycle lib (substr packet foundPos none)) && !vetoed answers then
      apply lib vid packet
    else
      untrack vid
      deleteCar vid

def parseDelete (packet : Bytes) : VehicleProgram Unit := do
  match ← ownedVehicle (substr packet 3 none) with
  | none => pure ()
  | some vid =>
    untrack vid
    deleteCar vid

def parsePaint (packet : Bytes) : VehicleProgram Unit := do
  let data := substr packet 3 none
  match ← ownedVehicle data with
  | none => pure ()
  | some vid =>
    match find data '[' 0 with
    | none => pure ()
    | some bracketPos =>
      let carData ← getCarData vid
      if carData.isNull then pure ()
      else match paintTarget carData with
        | none => pure ()
        | some vcf =>
          match lib.parse (substr data bracketPos none) with
          | none => pure ()
          | some paints =>
            setCarData vid
              (carData.setMember (ascii "vcf") (vcf.setMember (ascii "paints") paints))

/-- `ParseVehicle`. The cases `'r'`, `'t'` and `'m'` do not touch the vehicles. -/
def parseVehicle (answers : List LuaResult) (pckt : Bytes) : VehicleProgram Unit :=
  match pckt with
  | _ :: code :: _ :: subCode :: _ :: _ :: _ =>
    if code = 's'.toUInt8 then
      if subCode = '0'.toUInt8 then parseSpawn lib maxCars answers pckt else pure ()
    else if code = 'c'.toUInt8 then parseEdit lib answers pckt
    else if code = 'd'.toUInt8 then parseDelete pckt
    else if code = 'r'.toUInt8 then pure ()
    else if code = 't'.toUInt8 then pure ()
    else if code = 'm'.toUInt8 then pure ()
    else if code = 'p'.toUInt8 then parsePaint lib pckt
    else pure ()
  | _ => pure ()

def removeVehicle (vid : ℤ) : VehicleProgram Unit := do
  let data ← getCarData vid
  if data.isNull then pure () else deleteCar vid

variable {lib maxCars} {c : TClient} {pckt : Bytes} {answers : List LuaResult}

theorem alone_shouldSpawn (carJson : Bytes) (ident : ℤ) :
    alone (shouldSpawn lib maxCars carJson ident) c =
      ((BeamMP.shouldSpawn lib maxCars c carJson ident).2,
        (BeamMP.shouldSpawn lib maxCars c carJson ident).1) := by
  unfold shouldSpawn BeamMP.shouldSpawn
  cases isUnicycle lib carJson with
  | false => rfl
  | true =>
    rw [if_pos rfl, alone_bind, alone_getUnicycleID]
    by_cases h : c.unicycleID < 0
    · simp [h]
    · simp only [h, decide_false, Bool.and_false, if_false]
      rfl

theorem alone_apply (vid : ℤ) :
    (alone (apply lib vid pckt) c).2 = BeamMP.apply lib c vid pckt := by
  unfold apply BeamMP.apply
  cases find pckt '{' 0 with
  | none => rfl
  | some foundPos =>
    simp only [alone_bind, alone_getCarData]
    split_ifs
    · rfl
    · cases lib.parse (substr pckt foundPos none) <;> simp

theorem alone_ownedVehicle (data : Bytes) :
    alone (ownedVehicle data) c = (BeamMP.ownedVehicle c data, c) := rfl

theorem alone_untrack (vid : ℤ) :
    alone (untrack vid) c =
      ((), if c.unicycleID = vid then c.setUnicycleID (-1) else c) := by
  unfold untrack
  rw [alone_bind, alone_getUnicycleID]
  split_ifs <;> rfl

theorem alone_parseSpawn :
    (alone (parseSpawn lib maxCars answers pckt) c).2 =
      (BeamMP.parseSpawn lib maxCars answers c pckt).client := by
  rw [parseSpawn_client]
  unfold parseSpawn
  simp only [alone_bind, alone_getOpenCarID, alone_shouldSpawn]
  cases lib.parse (substr pckt 5 none) with
  | none => rfl
  | some doc =>
    dsimp only
    split_ifs <;> rfl

theorem alone_parseEdit :
    (alone (parseEdit lib answers pckt) c).2 = (BeamMP.parseEdit lib answers c pckt).client := by
  unfold parseEdit BeamMP.parseEdit
  rw [alone_bind, alone_ownedVehicle]
  cases BeamMP.ownedVehicle c (substr pckt 3 none) with
  | none => rfl
  | some vid =>
    dsimp only
    rw [alone_bind, alone_getUnicycleID]
    dsimp only
    split_ifs with hallowed hsame
    · rw [alone_apply]
    · simp [alone_untrack, hsame]
    · simp [alone_untrack, hsame]

theorem alone_parseDelete :
    (alone (parseDelete pckt) c).2 = (BeamMP.parseDelete c pckt).client := by
  unfold parseDelete BeamMP.parseDelete
  rw [alone_bind, alone_ownedVehicle]
  cases BeamMP.ownedVehicle c (substr pckt 3 none) with
  | none => rfl
  | some vid => simp [alone_untrack]

theorem alone_parsePaint :
    (alone (parsePaint lib pckt) c).2 = (BeamMP.parsePaint lib c pckt).client := by
  unfold parsePaint BeamMP.parsePaint
  rw [alone_bind, alone_ownedVehicle]
  dsimp only
  cases BeamMP.ownedVehicle c (substr pckt 3 none) with
  | none => rfl
  | some vid =>
    dsimp only
    cases find (substr pckt 3 none) '[' 0 with
    | none => rfl
    | some bracketPos =>
      simp only [alone_bind, alone_getCarData]
      split_ifs
      · rfl
      · cases paintTarget (c.getCarData vid).1 with
        | none => rfl
        | some vcf =>
          cases lib.parse (substr (substr pckt 3 none) bracketPos none) <;> simp

/-- Without other threads, the program of a packet is its handler. -/
theorem alone_parseVehicle :
    (alone (parseVehicle lib maxCars answers pckt) c).2 =
      (BeamMP.parseVehicle lib maxCars answers c pckt).client := by
  match pckt with
  | [] | [_] | [_, _] | [_, _, _] | [_, _, _, _] | [_, _, _, _, _] => rfl
  | _ :: code :: _ :: subCode :: _ :: _ :: _ =>
    unfold parseVehicle BeamMP.parseVehicle
    dsimp only
    split_ifs
    · exact alone_parseSpawn
    · rfl
    · exact alone_parseEdit
    · exact alone_parseDelete
    · exact parseReset_client.symm
    · exact parseTransfer_client.symm
    · rfl
    · exact alone_parsePaint
    · rfl

theorem alone_removeVehicle (vid : ℤ) :
    (alone (removeVehicle vid) c).2 = (BeamMP.removeVehicle c vid).1.client := by
  unfold removeVehicle BeamMP.removeVehicle
  rw [alone_bind, alone_getCarData]
  split_ifs with h <;> simp [h]

end VehicleProgram
end BeamMP
