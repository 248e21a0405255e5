import BeamMP.Client.Vehicles

/-!
# Vehicle packets

`TServer::ParseVehicle` and the functions it is made of, together with
`MP.RemoveVehicle`, the Lua call that removes a vehicle from outside. A handler
takes the results of the Lua event it waits for as an argument and returns the
changed client, the packets and events it produced in order, and whether it was
left by an exception.
-/
namespace BeamMP

open Bytes

/-- `GetPidVid`. When there is no `'-'`, `IDSep + 1` wraps around to zero and both
halves are the whole string. -/
def getPidVid (str : Bytes) : Option (ℤ × ℤ) :=
  let idSep := find str '-' 0
  let pid := substr str 0 idSep
  let vid := match idSep with
    | none => str
    | some i => substr str (i + 1) none
  if pid.all isDigit && vid.all isDigit then do
    let p ← stoi pid
    let v ← stoi vid
    return (p, v)
  else none

theorem getPidVid_nonneg {str : Bytes} {p v : ℤ} (h : getPidVid str = some (p, v)) :
    0 ≤ p ∧ 0 ≤ v := by
  simp only [getPidVid] at h
  split_ifs at h
  obtain ⟨p', hp, h⟩ := Option.bind_eq_some_iff.mp h
  obtain ⟨v', hv, h⟩ := Option.bind_eq_some_iff.mp h
  obtain ⟨rfl, rfl⟩ : p' = p ∧ v' = v := by simpa using h
  exact ⟨stoi_nonneg hp, stoi_nonneg hv⟩

/-- The alternatives of a Lua result that its waiting callers tell apart. -/
inductive LuaResult where
  | error
  | int (n : ℤ)
  | string (s : Bytes)
  | other

/-- The `any_of` over the results of a cancellable event: some handler that did not
fail returned a nonzero integer. -/
def vetoed (results : List LuaResult) : Bool :=
  results.any fun
    | .int n => n != 0
    | _ => false

inductive LuaArg where
  | int (n : ℤ)
  | string (s : Bytes)
  | bool (b : Bool)

/-- What a handler does besides changing the client: trigger a Lua event, call
`SendToAll` (`self` is the `Self` argument, which is true exactly when no client is
passed), or call `Respond` for the sending client. -/
inductive Effect where
  | triggerEvent (name : String) (args : List LuaArg)
  | sendToAll (self rel : Bool) (packet : Bytes)
  | respond (packet : Bytes) (rel : Bool)

structure Handled where
  client : TClient
  effects : List Effect := []
  threw : Bool := false

/-- `"Od:" + to_string(PID) + "-" + to_string(VID)`. -/
def destroyPacket (pid vid : ℤ) : Bytes :=
  ascii "Od:" ++ toDecimal pid ++ ascii "-" ++ toDecimal vid

variable (lib : JsonText)

def isUnicycle (carJson : Bytes) : Bool :=
  match lib.parse carJson with
  | some car => car.isUnicycle
  | none => false

/-- `ShouldSpawn`: a first unicycle is tracked at once and always wanted, anything
else is wanted while the car count is below the limit. -/
def shouldSpawn (maxCars : ℤ) (c : TClient) (carJson : Bytes) (ident : ℤ) : TClient × Bool :=
  if isUnicycle lib carJson && c.unicycleID < 0 then (c.setUnicycleID ident, true)
  else (c, c.getCarCount < maxCars)

def apply (c : TClient) (vid : ℤ) (pckt : Bytes) : TClient :=
  match find pckt '{' 0 with
  | none => c
  | some foundPos =>
    let packet := substr pckt foundPos none
    let (vd, c) := c.getCarData vid
    if vd.isNull then c
    else match lib.parse packet with
      | none => c
      | some pack => c.setCarData vid pack

/-- The test that the cases of `ParseVehicle` share: the header names a vehicle of
the sender. It yields that vehicle's ID. -/
def ownedVehicle (c : TClient) (data : Bytes) : Option ℤ :=
  let (pid, vid) := (getPidVid (substr data 0 (find data ':' 1))).getD (-1, -1)
  if pid ≠ -1 ∧ vid ≠ -1 ∧ pid = c.id then some vid else none

theorem ownedVehicle_nonneg {c : TClient} {data : Bytes} {vid : ℤ}
    (h : ownedVehicle c data = some vid) : 0 ≤ vid := by
  unfold ownedVehicle at h
  cases hp : getPidVid (substr data 0 (find data ':' 1)) with
  | none => simp [hp] at h
  | some pv =>
    obtain ⟨p, v⟩ := pv
    simp only [hp, Option.getD_some] at h
    split_ifs at h
    cases h
    exact (getPidVid_nonneg hp).2

/-- Case `'s'`, a vehicle spawn. -/
def parseSpawn (maxCars : ℤ) (answers : List LuaResult) (c : TClient) (packet : Bytes) : Handled :=
  let carID := c.getOpenCarID
  let carJson := substr packet 5 none
  let packet := ascii "Os:" ++ c.role ++ ascii ":" ++ c.name ++ ascii ":" ++ toDecimal c.id ++
    ascii "-" ++ toDecimal carID ++ ascii ":" ++ carJson
  let onSpawn := Effect.triggerEvent "onVehicleSpawn"
    [.int c.id, .int carID, .string (substr packet 3 none)]
  let postSpawn := fun confirmed => Effect.triggerEvent "postVehicleSpawn"
    [.bool confirmed, .int c.id, .int carID, .string (substr packet 3 none)]
  let (c, should) := shouldSpawn lib maxCars c carJson carID
  let rejected : Handled :=
    { client := c
      effects := [onSpawn, .respond packet true,
        .triggerEvent "onVehicleDeleted" [.int c.id, .int carID],
        .respond (destroyPacket c.id carID) true, postSpawn false] }
  match lib.parse carJson with
  | none => rejected
  | some doc =>
    if should && !vetoed answers then
      { client := c.addNewCar carID doc
        effects := [onSpawn, .sendToAll true true packet, postSpawn true] }
    else rejected

/-- Case `'c'`, a vehicle edit. -/
def parseEdit (answers : List LuaResult) (c : TClient) (packet : Bytes) : Handled :=
  match ownedVehicle c (substr packet 3 none) with
  | none => { client := c }
  | some vid =>
    let onEdited := Effect.triggerEvent "onVehicleEdited"
      [.int c.id, .int vid, .string (substr packet 3 none)]
    let postEdited := fun allowed => Effect.triggerEvent "postVehicleEdited"
      [.bool allowed, .int c.id, .int vid, .string (substr packet 3 none)]
    let foundPos := (find packet '{' 0).getD 0
    if (c.unicycleID ≠ vid || isUnicycle lib (substr packet foundPos none)) && !vetoed answers then
      { client := apply lib c vid packet
        effects := [onEdited, .sendToAll false true packet, postEdited true] }
    else
      let c := if c.unicycleID = vid then c.setUnicycleID (-1) else c
      { client := c.deleteCar vid
        effects := [onEdited, .sendToAll true true (destroyPacket c.id vid),
          .triggerEvent "onVehicleDeleted" [.int c.id, .int vid], postEdited false] }

/-- Case `'d'`, a vehicle delete. -/
def parseDelete (c : TClient) (packet : Bytes) : Handled :=
  match ownedVehicle c (substr packet 3 none) with
  | none => { client := c }
  | some vid =>
    let c := if c.unicycleID = vid then c.setUnicycleID (-1) else c
    { client := c.deleteCar vid
      effects := [.sendToAll true true packet,
        .triggerEvent "onVehicleDeleted" [.int c.id, .int vid]] }

/-- Case `'r'`, a vehicle reset. -/
def parseReset (c : TClient) (packet : Bytes) : Handled :=
  let data := substr packet 3 none
  match ownedVehicle c data with
  | none => { client := c }
  | some vid =>
    match find data '{' 0 with
    | none => { client := c }
    | some bracketPos =>
      { client := c
        effects := [.triggerEvent "onVehicleReset"
            [.int c.id, .int vid, .string (substr data bracketPos none)],
          .sendToAll false true packet] }

/-- Case `'t'`. -/
def parseTransfer (c : TClient) (packet : Bytes) : Handled :=
  match ownedVehicle c (substr packet 3 none) with
  | none => { client := c }
  | some _ => { client := c, effects := [.sendToAll false true packet] }

/-- Replace `vcf.paints` of a stored configuration that has such an array. -/
def paintTarget (carData : Json) : Option Json :=
  match carData.member (ascii "vcf") with
  | some vcf =>
    if vcf.isObject then
      match vcf.member (ascii "paints") with
      | some paints => if paints.isArray then some vcf else none
      | none => none
    else none
  | none => none

/-- Case `'p'`, a paint change. The packet is relayed before its body is parsed, and
a body that is not JSON leaves the handler by an exception. -/
def parsePaint (c : TClient) (packet : Bytes) : Handled :=
  let data := substr packet 3 none
  match ownedVehicle c data with
  | none => { client := c }
  | some vid =>
    match find data '[' 0 with
    | none => { client := c }
    | some bracketPos =>
      let data := substr data bracketPos none
      let effects := [.triggerEvent "onVehiclePaintChanged" [.int c.id, .int vid, .string data],
        .sendToAll false true packet]
      let (carData, c) := c.getCarData vid
      if carData.isNull then { client := c, effects }
      else match paintTarget carData with
        | none => { client := c, effects }
        | some vcf =>
          match lib.parse data with
          | none => { client := c, effects, threw := true }
          | some paints =>
            let vcf := vcf.setMember (ascii "paints") paints
            { client := c.setCarData vid (carData.setMember (ascii "vcf") vcf), effects }

def parseVehicle (maxCars : ℤ) (answers : List LuaResult) (c : TClient) (pckt : Bytes) : Handled :=
  match pckt with
  | _ :: code :: _ :: subCode :: _ :: _ :: _ =>
    if code = 's'.toUInt8 then
      if subCode = '0'.toUInt8 then parseSpawn lib maxCars answers c pckt else { client := c }
    else if code = 'c'.toUInt8 then parseEdit lib answers c pckt
    else if code = 'd'.toUInt8 then parseDelete c pckt
    else if code = 'r'.toUInt8 then parseReset c pckt
    else if code = 't'.toUInt8 then parseTransfer c pckt
    else if code = 'm'.toUInt8 then { client := c, effects := [.sendToAll false true pckt] }
    else if code = 'p'.toUInt8 then parsePaint lib c pckt
    else { client := c }
  | _ => { client := c }

inductive RemoveResult where
  | removed
  | vehicleDoesNotExist
  deriving DecidableEq

/-- `LuaAPI::MP::RemoveVehicle` once the player has been found. -/
def removeVehicle (c : TClient) (vid : ℤ) : Handled × RemoveResult :=
  let (data, c) := c.getCarData vid
  if data.isNull then ({ client := c }, .vehicleDoesNotExist)
  else
    ({ client := c.deleteCar vid
       effects := [.triggerEvent "onVehicleDeleted" [.int c.id, .int vid],
        .sendToAll true true (destroyPacket c.id vid)] }, .removed)

/-- One operation on a client's vehicles: a packet handled by its receive thread with
the answers of the Lua handlers it waits for, or a `MP.RemoveVehicle` call. -/
inductive VehicleOp where
  | packet (pckt : Bytes) (answers : List LuaResult)
  | removeVehicle (vid : ℤ)

def VehicleOp.handle (maxCars : ℤ) (c : TClient) : VehicleOp → Handled
  | .packet pckt answers => parseVehicle lib maxCars answers c pckt
  | .removeVehicle vid => (BeamMP.removeVehicle c vid).1

/-- The system whose steps are whole operations; every operation is always possible. -/
def vehicleStep (maxCars : ℤ) (c : TClient) (op : VehicleOp) : Option TClient :=
  some (op.handle lib maxCars c).client

end BeamMP
