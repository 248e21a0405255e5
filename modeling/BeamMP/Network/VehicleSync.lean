import BeamMP.Foundation.Execution
import BeamMP.Foundation.Locals
import BeamMP.Foundation.Notices
import BeamMP.Foundation.RestartScan
import Mathlib.Data.Fintype.Defs
import Mathlib.Data.Int.Basic

/-!
# Vehicles that come and go while a client joins

One client joins with `SyncClient` while the receive threads of other clients spawn
and remove vehicles, and Lua threads call `MP.RemoveVehicle`. Every write of a
flag, every access to a vehicle table and the iteration of `SendToAll` for the
joining client is one atomic step. Only the `Os` and `Od` packets to the joining
client are kept.
-/
namespace BeamMP

open Notices (Notice)

/-- `Os` and `Od` packets for a vehicle, which a client ID and a vehicle ID name. -/
abbrev VehiclePacket (κ : Type*) := Notice (κ × ℤ)

@[match_pattern] abbrev Os {κ : Type*} (pid : κ) (vid : ℤ) : VehiclePacket κ := .appear (pid, vid)

@[match_pattern] abbrev Od {κ : Type*} (pid : κ) (vid : ℤ) : VehiclePacket κ := .vanish (pid, vid)

/-- The place of the joining client's thread in `SyncClient`. -/
inductive JoinPhase (κ : Type*)
  | unsynced
  | started
  | iterating (clients : List κ)
  | sending (client : κ) (VehicleData : List ℤ) (clients : List κ)
  | aborting
  | aborted
  | handover
  | synced
deriving DecidableEq

/-- The snapshot packets that have been copied and not yet sent. -/
def JoinPhase.pending {κ : Type*} : JoinPhase κ → List (κ × ℤ)
  | .sending client VehicleData _ => VehicleData.map (client, ·)
  | _ => []

/-- The broadcast of an `Od` packet and the `DeleteCar` after it. `due` says that the
broadcast was issued after `SetIsSyncing(true)`, `reached` that it got to the queue. -/
inductive RemovalStage
  | broadcasting
  | casting (due : Bool)
  | deleting (reached : Bool)
deriving DecidableEq

/-- What the receive thread of a client is doing: the `Os` branch of `ParseVehicle`, its `Od`
branch or a rejected `Oc`, or `OnDisconnect`. -/
inductive ReceiveTask
  | spawning (CarID : ℤ)
  | added (CarID : ℤ)
  | castingOs (CarID : ℤ) (due : Bool)
  | removing (VID : ℤ) (stage : RemovalStage)
  | leaving (VehicleData : List ℤ) (told : List (ℤ × Bool))
  | telling (VID : ℤ) (due : Bool) (VehicleData : List ℤ) (told : List (ℤ × Bool))
  | cleared
deriving DecidableEq

/-- What a Lua thread is doing in `MP.RemoveVehicle`; `dropping` is the `DeleteCar` at the end
of a `GetCarData` that found no vehicle. -/
inductive LuaTask (κ : Type*)
  | looking (PID : κ) (VID : ℤ)
  | removing (PID : κ) (VID : ℤ) (stage : RemovalStage)
  | dropping (PID : κ) (VID : ℤ)
deriving DecidableEq

/-- The server while one client joins. `mClients` lists the other clients, `left` those that
have been erased from it, and `sent` is the packet order of the joining client. -/
structure Join (κ τ : Type*) where
  joined : Bool
  mIsSyncing : Bool
  mIsSynced : Bool
  disconnected : Bool
  sync : JoinPhase κ
  mPacketsSync : List (VehiclePacket κ)
  looper : Option (VehiclePacket κ)
  sent : List (VehiclePacket κ)
  mClients : List κ
  left : List κ
  cars : κ → List ℤ
  receive : κ → Option ReceiveTask
  lua : τ → Option (LuaTask κ)

inductive JoinAction (κ τ : Type*)
  | join
  | sync (sent : Bool)
  | looper (sent : Bool)
  | disconnect
  | insertClient (pid : κ)
  | startSpawn (pid : κ)
  | startRemoval (pid : κ) (VID : ℤ)
  | startLeaving (pid : κ)
  | receive (pid : κ) (accepted : Bool)
  | removeVehicle (t : τ) (PID : κ) (VID : ℤ)
  | lua (t : τ)

namespace Join

variable {κ τ : Type*}

def start (κ τ : Type*) : Join κ τ where
  joined := false
  mIsSyncing := false
  mIsSynced := false
  disconnected := false
  sync := .unsynced
  mPacketsSync := []
  looper := none
  sent := []
  mClients := []
  left := []
  cars _ := []
  receive _ := none
  lua _ := none

/-- The test `IsSynced() || IsSyncing()` of `SendToAll`. -/
def reaches (s : Join κ τ) : Bool := s.mIsSynced || s.mIsSyncing

def due (s : Join κ τ) : Bool :=
  match s.sync with
  | .unsynced => false
  | _ => !s.disconnected

/-- The iteration of `SendToAll` for the joining client. -/
def sendToClient (s : Join κ τ) (Packet : VehiclePacket κ) : Join κ τ :=
  if s.reaches then { s with mPacketsSync := s.mPacketsSync ++ [Packet] } else s

/-- `SyncClient`: the flag, a copy of `mClients`, then for every client a copy of its vehicle
table and a packet for each vehicle in the copy. -/
def syncStep (s : Join κ τ) (sent : Bool) : Option (Join κ τ) :=
  match s.sync with
  | .unsynced =>
    if s.joined then some { s with mIsSyncing := true, sync := .started } else none
  | .started => some { s with sync := .iterating s.mClients }
  | .iterating (client :: clients) =>
    some { s with sync := .sending client (s.cars client) clients }
  | .sending client (v :: VehicleData) clients =>
    if s.disconnected then some { s with sync := .aborting }
    else if sent then
      some { s with sent := s.sent ++ [Os client v], sync := .sending client VehicleData clients }
    else some { s with disconnected := true, sync := .sending client VehicleData clients }
  | .sending _ [] clients => some { s with sync := .iterating clients }
  | .iterating [] => some { s with mIsSyncing := false, sync := .handover }
  | .aborting => some { s with mIsSyncing := false, sync := .aborted }
  | .handover => some { s with mIsSynced := true, sync := .synced }
  | .aborted | .synced => none

/-- `Looper`; a failed `TCPSend` disconnects the client and clears the queue. -/
def looperStep (s : Join κ τ) (sent : Bool) : Option (Join κ τ) :=
  match s.looper with
  | none =>
    if !s.disconnected && !s.mIsSyncing && s.mIsSynced then
      match s.mPacketsSync with
      | [] => none
      | QData :: rest => some { s with mPacketsSync := rest, looper := some QData }
    else none
  | some QData =>
    if sent then some { s with sent := s.sent ++ [QData], looper := none }
    else some { s with disconnected := true, mPacketsSync := [], looper := none }

variable [DecidableEq κ]

def addNewCar (s : Join κ τ) (pid : κ) (vid : ℤ) : Join κ τ :=
  { s with cars := Function.update s.cars pid (s.cars pid ++ [vid]) }

def deleteCar (s : Join κ τ) (pid : κ) (vid : ℤ) : Join κ τ :=
  { s with cars := Function.update s.cars pid ((s.cars pid).filter (· ≠ vid)) }

def clearCars (s : Join κ τ) (pid : κ) : Join κ τ :=
  { s with cars := Function.update s.cars pid [] }

def eraseClient (s : Join κ τ) (pid : κ) : Join κ τ :=
  { s with mClients := s.mClients.filter (· ≠ pid), left := pid :: s.left }

/-- A broadcast of `Od` and the `DeleteCar` after it. `SendToAll` does not get to a client that
was not in `mClients` when it copied them. -/
def removalStep (s : Join κ τ) (pid : κ) (vid : ℤ) :
    RemovalStage → Join κ τ × Option RemovalStage
  | .broadcasting => (s, some (if s.joined then .casting s.due else .deleting false))
  | .casting _ => (s.sendToClient (Od pid vid), some (.deleting s.reaches))
  | .deleting _ => (s.deleteCar pid vid, none)

/-- A step of the receive thread of a client; `accepted` is the verdict on a spawn. -/
def receiveStep (s : Join κ τ) (pid : κ) (accepted : Bool) :
    ReceiveTask → Join κ τ × Option ReceiveTask
  | .spawning CarID =>
    if accepted then (s.addNewCar pid CarID, some (.added CarID)) else (s, none)
  | .added CarID => (s, if s.joined then some (.castingOs CarID s.due) else none)
  | .castingOs CarID _ => (s.sendToClient (Os pid CarID), none)
  | .removing VID stage =>
    ((s.removalStep pid VID stage).1, (s.removalStep pid VID stage).2.map (.removing VID))
  | .leaving [] _ => (s.clearCars pid, some .cleared)
  | .leaving (v :: VehicleData) told =>
    (s, some (if s.joined then .telling v s.due VehicleData told
      else .leaving VehicleData ((v, false) :: told)))
  | .telling v _ VehicleData told =>
    (s.sendToClient (Od pid v), some (.leaving VehicleData ((v, s.reaches) :: told)))
  | .cleared => (s.eraseClient pid, none)

/-- A step of a Lua thread. -/
def luaStep (s : Join κ τ) : LuaTask κ → Join κ τ × Option (LuaTask κ)
  | .looking PID VID =>
    (s, some (if VID ∈ s.cars PID then .removing PID VID .broadcasting else .dropping PID VID))
  | .removing PID VID stage =>
    ((s.removalStep PID VID stage).1, (s.removalStep PID VID stage).2.map (.removing PID VID))
  | .dropping PID VID => (s.deleteCar PID VID, none)

def setReceive (s : Join κ τ) (pid : κ) (task : Option ReceiveTask) : Join κ τ :=
  { s with receive := Function.update s.receive pid task }

variable [DecidableEq τ]

def setLua (s : Join κ τ) (t : τ) (task : Option (LuaTask κ)) : Join κ τ :=
  { s with lua := Function.update s.lua t task }

/-- The receive thread of a client that is in `mClients` and has nothing to do. -/
def idle (s : Join κ τ) (pid : κ) : Bool := pid ∈ s.mClients && (s.receive pid).isNone

/-- One atomic step of any thread. -/
def step (s : Join κ τ) : JoinAction κ τ → Option (Join κ τ)
  | .join => some { s with joined := true }
  | .sync sent => s.syncStep sent
  | .looper sent => s.looperStep sent
  | .disconnect => some { s with disconnected := true }
  | .insertClient pid =>
    if pid ∉ s.mClients ∧ pid ∉ s.left then some { s with mClients := s.mClients ++ [pid] }
    else none
  | .startSpawn pid =>
    if s.idle pid then
      some (s.setReceive pid (some (.spawning
        (RestartScan.leastUnused Int.ofNat_injective (s.cars pid)))))
    else none
  | .startRemoval pid VID =>
    if s.idle pid then some (s.setReceive pid (some (.removing VID .broadcasting))) else none
  | .startLeaving pid =>
    if s.idle pid then some (s.setReceive pid (some (.leaving (s.cars pid) []))) else none
  | .receive pid accepted =>
    (s.receive pid).map fun task =>
      ((s.receiveStep pid accepted task).1).setReceive pid (s.receiveStep pid accepted task).2
  | .removeVehicle t PID VID =>
    if PID ∈ s.mClients ∧ s.lua t = none then some (s.setLua t (some (.looking PID VID))) else none
  | .lua t => (s.lua t).map fun task => ((s.luaStep task).1).setLua t (s.luaStep task).2

end Join
end BeamMP
