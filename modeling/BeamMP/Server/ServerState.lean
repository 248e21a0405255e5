import BeamMP.Foundation.Observables
import BeamMP.Network.Broadcast
import BeamMP.Network.Frames
import BeamMP.Server.ParseVehicle

/-!
# The server as its packet handlers see it

The clients with the fields the handlers read and write, and the functions by
which a handler gets to the network and to Lua. A handler is a computation on
this state that may throw. What Lua handlers answer and whether the system sends
what it is given is decided by the environment, which may go by everything that
has happened so far.
-/
namespace BeamMP

structure ServerClient extends TClient where
  mIsSynced : Bool := false
  mIsSyncing : Bool := false
  mIsUDPConnected : Bool := false
  disconnected : Bool := false
  mPacketsSync : List Bytes := []

inductive Transport
  | tcp
  | udp
deriving DecidableEq

/-- `clients` is `mClients` in an order of iteration. The events and what was given to the
sockets are history. -/
structure ServerState (κ : Type) where
  clients : List κ
  client : κ → ServerClient
  internalPPS : ℕ := 0
  events : List (Bytes × List LuaArg) := []
  sent : List (κ × Transport × Bytes) := []

/-- The libraries, the settings, and the answers of Lua and of the system. -/
structure ServerEnv (κ : Type) where
  zlib : Zlib
  json : JsonText
  maxCars : ℤ
  maxPlayers : ℤ
  luaAnswers : ServerState κ → List LuaResult
  udpSends : ServerState κ → Bool
  tcpWrites : ServerState κ → Bool

inductive ServerException
  | outOfRange
  | compression
  | json
deriving DecidableEq

abbrev ServerM (κ : Type) := EStateM ServerException (ServerState κ)

namespace ServerState

variable {κ : Type} [DecidableEq κ]

def update (s : ServerState κ) (d : κ) (f : ServerClient → ServerClient) : ServerState κ :=
  { s with client := Function.update s.client d (f (s.client d)) }

@[simp] theorem update_self (s : ServerState κ) (d : κ) (f : ServerClient → ServerClient) :
    (s.update d f).client d = f (s.client d) := Function.update_self _ _ _

theorem update_of_ne (s : ServerState κ) {c d : κ} (h : c ≠ d)
    (f : ServerClient → ServerClient) : (s.update d f).client c = s.client c :=
  Function.update_of_ne h _ _

end ServerState

namespace ServerM

variable {κ : Type}

def getClient (d : κ) : ServerM κ ServerClient := do
  let s ← get
  pure (s.client d)

def orThrow {α : Type} (e : ServerException) : Option α → ServerM κ α
  | some a => pure a
  | none => throw e

def incrementInternalPPS : ServerM κ Unit :=
  modify fun s => { s with internalPPS := s.internalPPS + 1 }

def transmit (d : κ) (transport : Transport) (Data : Bytes) : ServerM κ Unit :=
  modify fun s => { s with sent := s.sent ++ [(d, transport, Data)] }

def triggerEvent (env : ServerEnv κ) (name : Bytes) (args : List LuaArg) :
    ServerM κ (List LuaResult) := do
  modify fun s => { s with events := s.events ++ [(name, args)] }
  let s ← get
  pure (env.luaAnswers s)

variable [DecidableEq κ]

def updateClient (d : κ) (f : ServerClient → ServerClient) : ServerM κ Unit :=
  modify fun s => s.update d f

def updateVehicles (d : κ) (f : TClient → TClient) : ServerM κ Unit :=
  updateClient d fun c => { c with toTClient := f c.toTClient }

def enqueuePacket (d : κ) (Packet : Bytes) : ServerM κ Unit :=
  updateClient d fun c => { c with mPacketsSync := c.mPacketsSync ++ [Packet] }

def disconnectClient (d : κ) : ServerM κ Unit :=
  updateClient d fun c => { c with disconnected := true }

variable (env : ServerEnv κ)

def tcpSend (d : κ) (Data : Bytes) (IsSync : Bool) : ServerM κ Bool := do
  let c ← getClient d
  match BeamMP.tcpSend c.mIsSyncing Data IsSync with
  | .enqueue Data => do
    enqueuePacket d Data
    pure true
  | .drop => pure true
  | .write ToSend => do
    transmit d .tcp ToSend
    let s ← get
    if env.tcpWrites s then pure true
    else do
      disconnectClient d
      pure false

/-- Both `SendLarge` and `UDPSend` compress packets of more than 400 bytes. -/
def compressLarge (Data : Bytes) : ServerM κ Bytes :=
  if 400 < Data.length then orThrow .compression (compressProperly env.zlib Data) else pure Data

def sendLarge (d : κ) (Data : Bytes) (isSync : Bool) : ServerM κ Bool := do
  let Data ← compressLarge env Data
  tcpSend env d Data isSync

def udpSend (d : κ) (Data : Bytes) : ServerM κ Bool := do
  let c ← getClient d
  if !c.mIsUDPConnected || c.disconnected then pure true
  else do
    let Data ← compressLarge env Data
    transmit d .udp Data
    let s ← get
    if env.udpSends s then pure true
    else do
      disconnectClient d
      pure false

/-- The choice between TCP and UDP that `Respond` and `SendToAll` make alike. -/
def goesByTcp (MSG : Bytes) (C : UInt8) (Rel : Bool) : Bool :=
  Rel || C ∈ ascii "WYVE" || 1024 < env.zlib.compressBound MSG.length

def respond (d : κ) (MSG : Bytes) (Rel isSync : Bool) : ServerM κ Bool :=
  match MSG with
  | [] => throw .outOfRange
  | C :: _ =>
    if goesByTcp env MSG C Rel then
      if C ∈ ascii "OT" || 1000 < MSG.length then sendLarge env d MSG isSync
      else tcpSend env d MSG isSync
    else udpSend env d MSG

def clientKick (d : κ) (R : Bytes) : ServerM κ Unit := do
  let _ ← tcpSend env d (ascii "K" ++ R) false
  disconnectClient d

/-- What `SendToAll` does with a client that is synced or syncing. -/
def deliver (d : κ) : Option Route → ServerM κ Unit
  | none => throw .compression
  | some (.enqueue Packet) => enqueuePacket d Packet
  | some (.udp Data) => do
    let _ ← udpSend env d Data
    pure ()

/-- The iteration of `SendToAll` for one client. -/
def sendToClient (Data : Bytes) (Rel : Bool) (d : κ) : ServerM κ Unit := do
  let c ← getClient d
  if c.mIsSynced || c.mIsSyncing then deliver env d (sendToAllRoute env.zlib Data Rel)
  else pure ()

/-- `SendToAll`, where `none` is the null pointer. -/
def sendToAll (c : Option κ) (Data : Bytes) (Self Rel : Bool) : ServerM κ Unit :=
  if Data = [] then throw .outOfRange
  else do
    let s ← get
    s.clients.forM fun d =>
      if Self || c ≠ some d then sendToClient env Data Rel d else pure ()

/-- The packet `UpdatePlayer` builds, without its last byte. -/
def playersPacket (s : ServerState κ) : Bytes :=
  (ascii "Ss" ++ toDecimal s.clients.length ++ ascii "/" ++ toDecimal env.maxPlayers ++
    ascii ":" ++ s.clients.flatMap fun d => (s.client d).name ++ ascii ",").dropLast

def updatePlayer (d : κ) : ServerM κ Unit := do
  let s ← get
  enqueuePacket d (playersPacket env s)

/-- `DataAsPacket`, which throws when the vehicle cannot be dumped. -/
def dataAsPacket (v : VehicleData) (c : TClient) : ServerM κ Bytes := do
  let dumped ← orThrow .json (env.json.dump v.data)
  pure (ascii "Os:" ++ c.role ++ ascii ":" ++ c.name ++ ascii ":" ++ toDecimal c.id ++
    ascii "-" ++ toDecimal v.id ++ ascii ":" ++ dumped)

end ServerM
end BeamMP
