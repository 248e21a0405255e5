import BeamMP.Server.ServerState

/-!
# The handlers of `GlobalParser`

`ParseVehicle`, `HandleEvent`, the chat, `SyncClient` and `HandlePosition` as
computations on the server. A vehicle packet gets to the clients between the
changes of the vehicles, so that an exception of the network leaves the rest of
the handler undone.
-/
namespace BeamMP

open Bytes

/-- The test of a header for a vehicle of the sender; the branches of `GlobalParser` look for
the end of the header from another position on than `ParseVehicle`. -/
def ownedVehicleAt (pos : ℕ) (c : TClient) (data : Bytes) : Option ℤ :=
  let (pid, vid) := (getPidVid (substr data 0 (find data ':' pos))).getD (-1, -1)
  if pid ≠ -1 ∧ vid ≠ -1 ∧ pid = c.id then some vid else none

theorem ownedVehicle_eq (c : TClient) (data : Bytes) :
    ownedVehicle c data = ownedVehicleAt 1 c data := rfl

theorem ownedVehicleAt_eq_some_iff {pos : ℕ} {c : TClient} {data : Bytes} {vid : ℤ} :
    ownedVehicleAt pos c data = some vid ↔
      getPidVid (substr data 0 (find data ':' pos)) = some (c.id, vid) := by
  unfold ownedVehicleAt
  cases hheader : getPidVid (substr data 0 (find data ':' pos)) with
  | none => simp
  | some pv =>
    obtain ⟨pid, v⟩ := pv
    have hnonneg := getPidVid_nonneg hheader
    dsimp only [Option.getD_some]
    constructor
    · intro h
      split_ifs at h with howned
      cases h
      rw [howned.2.2]
    · intro h
      obtain ⟨rfl, rfl⟩ : pid = c.id ∧ v = vid := by simpa using h
      rw [if_pos ⟨by omega, by omega, rfl⟩]

structure PidVidData where
  PID : ℤ
  VID : ℤ
  Data : Bytes
deriving DecidableEq

def parsePositionPacket (Packet : Bytes) : Option PidVidData :=
  if Packet.length < 3 then none
  else
    let withoutCode := substr Packet 3 none
    match find withoutCode '{' 0 with
    | none | some 0 => none
    | some (DataBeginPos + 1) =>
      (getPidVid (substr withoutCode 0 (some DataBeginPos))).map fun pv =>
        ⟨pv.1, pv.2, substr withoutCode (DataBeginPos + 1) none⟩

/-- The names a client may not trigger an event under. -/
def excludedEvents : List Bytes :=
  ["onInit", "onFileChanged", "onVehicleDeleted", "onConsoleInput", "onPlayerAuth",
    "postPlayerAuth", "onPlayerDisconnect", "onPlayerConnecting", "onPlayerJoining",
    "onPlayerJoin", "onChatMessage", "postChatMessage", "onVehicleSpawn", "postVehicleSpawn",
    "onVehicleEdited", "postVehicleEdited", "onVehicleReset", "onVehiclePaintChanged",
    "onShutdown"].map ascii

/-- The name and the data of an event packet. Without a separator `NameDataSep + 1` wraps
around to zero. -/
def eventNameData (RawData : Bytes) : Bytes × Bytes :=
  match find RawData ':' 2 with
  | none => (substr RawData 2 none, RawData)
  | some NameDataSep =>
    (substr RawData 2 (some (NameDataSep - 2)), substr RawData (NameDataSep + 1) none)

/-- The message of a chat packet, which is empty for a packet that ends too early. -/
def chatMessage (Packet : Bytes) : Bytes :=
  match find Packet ':' 3 with
  | none => []
  | some ColonPos =>
    if ColonPos + 2 < Packet.length then substr Packet (ColonPos + 2) none else []

namespace ServerM

variable {κ : Type} [DecidableEq κ] (env : ServerEnv κ)

def handlePosition (c : κ) (Packet : Bytes) : ServerM κ Unit :=
  match parsePositionPacket Packet with
  | none => pure ()
  | some parsed => updateVehicles c (·.setCarPosition parsed.VID parsed.Data)

def handleEvent (c : κ) (RawData : Bytes) : ServerM κ Unit :=
  if RawData.length < 2 then pure ()
  else
    let (Name, Data) := eventNameData RawData
    if excludedEvents.contains Name then pure ()
    else do
      let d ← getClient c
      let _ ← triggerEvent env Name [.int d.id, .string Data]
      pure ()

def chat (c : κ) (Message : Bytes) : ServerM κ Unit := do
  let d ← getClient c
  let Futures ← triggerEvent env (ascii "onChatMessage")
    [.int d.id, .string d.name, .string Message]
  let Rejected := vetoed Futures
  if Rejected then pure ()
  else sendToAll env none (ascii "C:" ++ d.name ++ ascii ": " ++ Message) true true
  let _ ← triggerEvent env (ascii "postChatMessage")
    [.bool !Rejected, .int d.id, .string d.name, .string Message]
  pure ()

def getCarData (c : κ) (ident : ℤ) : ServerM κ Json := do
  let d ← getClient c
  updateVehicles c fun d => (d.getCarData ident).2
  pure (d.getCarData ident).1

def shouldSpawn (c : κ) (CarJson : Bytes) (ident : ℤ) : ServerM κ Bool := do
  let d ← getClient c
  updateVehicles c fun d => (BeamMP.shouldSpawn env.json env.maxCars d CarJson ident).1
  pure (BeamMP.shouldSpawn env.json env.maxCars d.toTClient CarJson ident).2

def apply (c : κ) (VID : ℤ) (pckt : Bytes) : ServerM κ Unit :=
  match find pckt '{' 0 with
  | none => pure ()
  | some FoundPos => do
    let VD ← getCarData c VID
    if VD.isNull then pure ()
    else
      match env.json.parse (substr pckt FoundPos none) with
      | none => pure ()
      | some Pack => updateVehicles c (·.setCarData VID Pack)

def rejectSpawn (c : κ) (d : TClient) (CarID : ℤ) (Packet : Bytes) : ServerM κ Bool := do
  let _ ← respond env c Packet true false
  let _ ← triggerEvent env (ascii "onVehicleDeleted") [.int d.id, .int CarID]
  let _ ← respond env c (destroyPacket d.id CarID) true false
  pure false

def confirmSpawn (c : κ) (d : TClient) (CarID : ℤ) (CarJson Packet : Bytes)
    (Futures : List LuaResult) : ServerM κ Bool := do
  let should ← shouldSpawn env c CarJson CarID
  match env.json.parse CarJson with
  | none => rejectSpawn env c d CarID Packet
  | some CarJsonDoc =>
    if should && !vetoed Futures then do
      updateVehicles c (·.addNewCar CarID CarJsonDoc)
      sendToAll env none Packet true true
      pure true
    else rejectSpawn env c d CarID Packet

def parseSpawn (c : κ) (Packet : Bytes) : ServerM κ Unit := do
  let d ← getClient c
  let CarID := d.getOpenCarID
  let CarJson := substr Packet 5 none
  let Packet := ascii "Os:" ++ d.role ++ ascii ":" ++ d.name ++ ascii ":" ++ toDecimal d.id ++
    ascii "-" ++ toDecimal CarID ++ ascii ":" ++ CarJson
  let Futures ← triggerEvent env (ascii "onVehicleSpawn")
    [.int d.id, .int CarID, .string (substr Packet 3 none)]
  let SpawnConfirmed ← confirmSpawn env c d.toTClient CarID CarJson Packet Futures
  let _ ← triggerEvent env (ascii "postVehicleSpawn")
    [.bool SpawnConfirmed, .int d.id, .int CarID, .string (substr Packet 3 none)]
  pure ()

/-- Forget the tracked unicycle if it is that vehicle. -/
def untrack (c : κ) (VID : ℤ) : ServerM κ Unit :=
  updateVehicles c fun d => if d.unicycleID = VID then d.setUnicycleID (-1) else d

def confirmEdit (c : κ) (d : TClient) (VID : ℤ) (Packet : Bytes) (Futures : List LuaResult) :
    ServerM κ Bool :=
  let FoundPos := (find Packet '{' 0).getD 0
  if (d.unicycleID ≠ VID || isUnicycle env.json (substr Packet FoundPos none)) &&
      !vetoed Futures then do
    sendToAll env (some c) Packet false true
    apply env c VID Packet
    pure true
  else do
    untrack c VID
    sendToAll env none (destroyPacket d.id VID) true true
    let _ ← triggerEvent env (ascii "onVehicleDeleted") [.int d.id, .int VID]
    updateVehicles c (·.deleteCar VID)
    pure false

def parseEdit (c : κ) (Packet : Bytes) (VID : ℤ) : ServerM κ Unit := do
  let d ← getClient c
  let Futures ← triggerEvent env (ascii "onVehicleEdited")
    [.int d.id, .int VID, .string (substr Packet 3 none)]
  let Allowed ← confirmEdit env c d.toTClient VID Packet Futures
  let _ ← triggerEvent env (ascii "postVehicleEdited")
    [.bool Allowed, .int d.id, .int VID, .string (substr Packet 3 none)]
  pure ()

def parseDelete (c : κ) (Packet : Bytes) (VID : ℤ) : ServerM κ Unit := do
  let d ← getClient c
  untrack c VID
  sendToAll env none Packet true true
  let _ ← triggerEvent env (ascii "onVehicleDeleted") [.int d.id, .int VID]
  updateVehicles c (·.deleteCar VID)

def parseReset (c : κ) (Packet : Bytes) (VID : ℤ) : ServerM κ Unit := do
  let d ← getClient c
  let Data := substr Packet 3 none
  match find Data '{' 0 with
  | none => pure ()
  | some BracketPos => do
    let _ ← triggerEvent env (ascii "onVehicleReset")
      [.int d.id, .int VID, .string (substr Data BracketPos none)]
    sendToAll env (some c) Packet false true

def repaint (c : κ) (Data : Bytes) (VID : ℤ) : ServerM κ Unit := do
  let CarData ← getCarData c VID
  if CarData.isNull then pure ()
  else
    match paintTarget CarData with
    | none => pure ()
    | some vcf => do
      let paints ← orThrow .json (env.json.parse Data)
      updateVehicles c (·.setCarData VID
        (CarData.setMember (ascii "vcf") (vcf.setMember (ascii "paints") paints)))

def parsePaint (c : κ) (Packet : Bytes) (VID : ℤ) : ServerM κ Unit := do
  let d ← getClient c
  let Data := substr Packet 3 none
  match find Data '[' 0 with
  | none => pure ()
  | some BracketPos => do
    let Data := substr Data BracketPos none
    let _ ← triggerEvent env (ascii "onVehiclePaintChanged") [.int d.id, .int VID, .string Data]
    sendToAll env (some c) Packet false true
    repaint env c Data VID

/-- A case of `ParseVehicle` that is for the owner of the vehicle only. -/
def ifOwned (c : κ) (Packet : Bytes) (handler : ℤ → ServerM κ Unit) : ServerM κ Unit := do
  let d ← getClient c
  match ownedVehicle d.toTClient (substr Packet 3 none) with
  | none => pure ()
  | some VID => handler VID

def parseVehicle (c : κ) (Pckt : Bytes) : ServerM κ Unit :=
  match Pckt with
  | _ :: Code :: _ :: Spawn :: _ :: _ :: _ =>
    if Code = 's'.toUInt8 then
      if Spawn = '0'.toUInt8 then parseSpawn env c Pckt else pure ()
    else if Code = 'c'.toUInt8 then ifOwned c Pckt (parseEdit env c Pckt)
    else if Code = 'd'.toUInt8 then ifOwned c Pckt (parseDelete env c Pckt)
    else if Code = 'r'.toUInt8 then ifOwned c Pckt (parseReset env c Pckt)
    else if Code = 't'.toUInt8 then
      ifOwned c Pckt fun _ => sendToAll env (some c) Pckt false true
    else if Code = 'm'.toUInt8 then sendToAll env (some c) Pckt false true
    else if Code = 'p'.toUInt8 then ifOwned c Pckt (parsePaint env c Pckt)
    else pure ()
  | _ => pure ()

/-- The vehicles of one client in `SyncClient`, until the client is found disconnected. -/
def syncVehicles (c : κ) (d : TClient) : List VehicleData → ServerM κ Bool
  | [] => pure true
  | v :: VehicleData => do
    let locked ← getClient c
    if locked.disconnected then pure false
    else do
      let packet ← dataAsPacket env v d
      let _ ← respond env c packet true true
      syncVehicles c d VehicleData

/-- The iteration of `SyncClient` over the clients, and whether it got to the end. -/
def syncClients (c : κ) : List κ → ServerM κ Bool
  | [] => pure true
  | d :: clients => do
    let client ← getClient d
    let goOn ← if d = c then pure true else syncVehicles env c client.toTClient client.vehicleData
    if goOn then syncClients c clients else pure false

def syncClient (c : κ) : ServerM κ Unit := do
  let locked ← getClient c
  if locked.mIsSynced then pure ()
  else do
    let sent ← respond env c (ascii "Sn" ++ locked.name) true false
    if sent then do
      sendToAll env (some c) (ascii "JWelcome " ++ locked.name ++ ascii "!") false true
      let _ ← triggerEvent env (ascii "onPlayerJoin") [.int locked.id]
      updateClient c fun d => { d with mIsSyncing := true }
      let s ← get
      let complete ← syncClients env c s.clients
      updateClient c fun d => { d with mIsSyncing := false }
      if complete then updateClient c fun d => { d with mIsSynced := true } else pure ()
    else pure ()

end ServerM
end BeamMP
