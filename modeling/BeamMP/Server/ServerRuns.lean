import BeamMP.Foundation.RestartScan
import BeamMP.Server.HandlerFrames
import BeamMP.Server.PluginCalls

/-!
# Runs of the server

Players connect, are read from over both transports and leave, and plugins send messages,
drop players and remove vehicles. A step is one whole call; calls that overlap in the server
are not modelled here. `Looper` is a call for each time it empties the queue of its client.
-/
namespace BeamMP

open Bytes Observables

variable {κ : Type} [DecidableEq κ]

namespace ServerM

variable (env : ServerEnv κ)

/-- `InsertClient` for a connection that has been authenticated. `order` is the order of
iteration of `mClients` from now on. -/
def insertClient (c : κ) (name role : Bytes) (order : List κ) : ServerM κ Unit := do
  modify fun s => { s with clients := order }
  updateClient c fun _ => { TClient.fresh name role (-1) with }

def openID : ServerM κ ℤ := do
  let s ← get
  pure (RestartScan.leastUnused Int.ofNat_injective (s.clients.map fun d => (s.client d).id) : ℕ)

/-- `OnConnect` until `SyncResources` reads. -/
def onConnect (c : κ) : ServerM κ Unit := do
  let ID ← openID
  updateVehicles c fun d => { d with id := ID }
  let _ ← triggerEvent env (ascii "onPlayerConnecting") [.int ID]
  let _ ← tcpSend env c (ascii "P" ++ toDecimal ID) false
  pure ()

/-- `OnConnect` after `SyncResources`, where `none` says that there are no random bytes. -/
def resourcesSynced (c : κ) (random : Option Bytes) (Map : Bytes) : ServerM κ Unit := do
  let d ← getClient c
  if d.disconnected then pure ()
  else
    match random with
    | none => pure ()
    | some buf => do
      let _ ← respond env c (ascii "U" ++ buf) true false
      let _ ← respond env c (ascii "M" ++ Map) true false
      let _ ← triggerEvent env (ascii "onPlayerJoining") [.int d.id]
      pure ()

/-- What the receive loop of `TCPClient` does with a packet. -/
def receive (c : κ) (Packet : Bytes) : ServerM κ Unit :=
  tryCatch (globalParser env c Packet false) fun _ => disconnectClient c

/-- The queue of a client is sent until something cannot be sent. -/
def sendMissed (c : κ) : List Bytes → ServerM κ Unit
  | [] => pure ()
  | QData :: rest => do
    updateClient c fun d => { d with mPacketsSync := rest }
    if ← tcpSend env c QData true then sendMissed c rest
    else do
      disconnectClient c
      updateClient c fun d => { d with mPacketsSync := [] }

def looper (c : κ) : ServerM κ Unit := do
  let d ← getClient c
  if d.disconnected || d.mIsSyncing || !d.mIsSynced then pure ()
  else sendMissed env c d.mPacketsSync

def removeClient (c : κ) : ServerM κ Unit := do
  updateVehicles c (·.clearCars)
  modify fun s => { s with clients := s.clients.filter (· ≠ c) }

/-- The farewell to one vehicle in `OnDisconnect`. -/
def vehicleGone (c : κ) (PID : ℤ) (v : VehicleData) : ServerM κ Unit := do
  let _ ← triggerEvent env (ascii "onVehicleDeleted") [.int PID, .int v.id]
  sendToAll env (some c) (destroyPacket PID v.id) false true

/-- `OnDisconnect` up to `RemoveClient`. -/
def farewell (c : κ) : ServerM κ Unit := do
  let d ← getClient c
  d.vehicleData.forM (vehicleGone env c d.id)
  sendToAll env (some c) (ascii "L" ++ d.name ++ ascii " left the server!") false true
  let _ ← triggerEvent env (ascii "onPlayerDisconnect") [.int d.id]
  disconnectClient c

def onDisconnect (c : κ) : ServerM κ Unit := do
  farewell env c
  removeClient c

end ServerM

inductive ServerCall (κ : Type)
  | insertClient (c : κ) (name role : Bytes) (order : List κ)
  | onConnect (c : κ)
  | resourcesSynced (c : κ) (random : Option Bytes) (Map : Bytes)
  | receive (c : κ) (Packet : Bytes)
  | bindUDP (c : κ)
  | receiveUDP (c : κ) (Packet : Bytes)
  | looper (c : κ)
  | disconnectClient (c : κ)
  | removeClient (c : κ)
  | onDisconnect (c : κ)
  | message (a : MessageCall)
  | removeVehicle (PID VID : ℤ)

namespace ServerCall

variable (env : ServerEnv κ)

def run : ServerCall κ → ServerM κ Unit
  | .insertClient c name role order => ServerM.insertClient c name role order
  | .onConnect c => ServerM.onConnect env c
  | .resourcesSynced c random Map => ServerM.resourcesSynced env c random Map
  | .receive c Packet => ServerM.receive env c Packet
  | .bindUDP c => ServerM.updateClient c fun d => { d with mIsUDPConnected := true }
  | .receiveUDP c Packet => ServerM.globalParser env c Packet true
  | .looper c => ServerM.looper env c
  | .disconnectClient c => ServerM.disconnectClient c
  | .removeClient c => ServerM.removeClient c
  | .onDisconnect c => ServerM.onDisconnect env c
  | .message a => discard (a.run env)
  | .removeVehicle PID VID => discard (ServerM.removeVehicle env PID VID)

/-- A connection is inserted once, and gets its ID before it is read from. A client without an
ID leaves by `RemoveClient` alone, any other one by `OnDisconnect`. -/
def enabled (s : ServerState κ) : ServerCall κ → Bool
  | .insertClient c _ _ order => c ∉ s.clients && order.isPerm (c :: s.clients)
  | .onConnect c | .removeClient c => c ∈ s.clients && (s.client c).id = -1
  | .receive c _ | .onDisconnect c => c ∈ s.clients && 0 ≤ (s.client c).id
  | .resourcesSynced c _ _ | .bindUDP c | .receiveUDP c _ | .looper c | .disconnectClient c =>
    c ∈ s.clients
  | .message _ | .removeVehicle _ _ => true

def step (s : ServerState κ) (a : ServerCall κ) : Option (ServerState κ) :=
  if a.enabled s then some (final (a.run env) s) else none

end ServerCall

section Frames

variable {ω : Type*} {f : ServerState κ → ω} {c : κ} {env : ServerEnv κ}

theorem sendMissed_core (c : κ) (missed : List Bytes) :
    Fixes ServerState.core (ServerM.sendMissed env c missed) := by
  induction missed with
  | nil => exact fixes_pure ()
  | cons QData rest ih =>
    refine Fixes.bind (ServerM.updateClient_core ?_) fun _ => ?_
    · exact fun _ => rfl
    apply (ServerM.tcpSend_core env c QData true).bind
    intro sent
    split_ifs
    · exact ih
    · refine (ServerM.disconnectClient_core c).bind fun _ => ServerM.updateClient_core ?_
      exact fun _ => rfl

theorem looper_core (c : κ) : Fixes ServerState.core (ServerM.looper env c) := by
  apply (ServerM.fixes_getClient c).bind
  intro d
  split_ifs
  · exact fixes_pure ()
  · exact sendMissed_core c d.mPacketsSync

theorem Frame.resourcesSynced (hf : Frame f) (c : κ) (random : Option Bytes) (Map : Bytes) :
    Fixes f (ServerM.resourcesSynced env c random Map) := by
  apply (ServerM.fixes_getClient c).bind
  intro d
  split_ifs
  · exact fixes_pure ()
  · cases random with
    | none => exact fixes_pure ()
    | some buf =>
      apply (hf.respond c _ true false).bind
      intro _
      apply (hf.respond c _ true false).bind
      intro _
      exact (hf.triggerEvent rfl).bind fun _ => fixes_pure ()

/-- Of a call of `OnConnect` the ID shows, and nothing else. -/
theorem Frame.onConnect (hf : Frame f) (c : κ) (s : ServerState κ) :
    f (final (ServerM.onConnect env c) s) =
      f (s.update c fun d => { d with toTClient := { d.toTClient with
        id := (RestartScan.leastUnused Int.ofNat_injective
          (s.clients.map fun d => (s.client d).id) : ℕ) } }) := by
  let ID : ℕ := RestartScan.leastUnused Int.ofNat_injective
    (s.clients.map fun d => (s.client d).id)
  have hrest : Fixes f (do
      let _ ← ServerM.triggerEvent env (ascii "onPlayerConnecting") [.int ID]
      let _ ← ServerM.tcpSend env c (ascii "P" ++ toDecimal ID) false
      pure ()) := by
    apply (hf.triggerEvent rfl).bind
    intro _
    exact (hf.fixes (ServerM.tcpSend_core env c _ false)).bind fun _ => fixes_pure ()
  exact hrest _

theorem Frame.message (hf : Frame f) (a : MessageCall) : Fixes f (discard (a.run env)) :=
  (hf.fixes a.run_core).discard

theorem FrameBut.receive (hf : FrameBut c f) (Packet : Bytes) :
    Fixes f (ServerM.receive env c Packet) := by
  refine (hf.globalParser Packet false).tryCatch fun _ => ?_
  exact hf.toFrame.updateClient c fun _ => rfl

theorem FrameBut.vehicleGone (hf : FrameBut c f) (PID : ℤ) (v : VehicleData) :
    Fixes f (ServerM.vehicleGone env c PID v) :=
  (hf.triggerEvent _ _).bind fun _ => hf.toFrame.sendToAll _ _ _ _

theorem toTClient_of_flags (s : ServerState κ) (c : κ) {g : ServerClient → ServerClient}
    (hg : ∀ d, (g d).toTClient = d.toTClient) (d : κ) :
    ((s.update c g).client d).toTClient = (s.client d).toTClient := by
  by_cases hdc : d = c
  · rw [hdc, s.update_self, hg]
  · rw [s.update_of_ne hdc]

theorem frame_client (c : κ) (g : TClient → ω) :
    Frame fun s : ServerState κ => g (s.client c).toTClient where
  core s t h := by
    have hclient : (s.core.client c).toTClient = (t.core.client c).toTClient := by rw [h]
    exact congrArg g hclient
  pps _ _ := rfl
  flags s d u hu := congrArg g (toTClient_of_flags s d hu c)
  event _ _ _ := rfl

theorem frameBut_client {d : κ} (hne : d ≠ c) (g : TClient → ω) :
    FrameBut d fun s : ServerState κ => g (s.client c).toTClient where
  toFrame := frame_client c g
  events _ _ := rfl
  vehicles s u _ := by rw [s.update_of_ne hne.symm]

theorem updateClient_of_ne {d : κ} (hne : d ≠ c) (g : TClient → ω)
    (u : ServerClient → ServerClient) :
    Fixes (fun s : ServerState κ => g (s.client c).toTClient) (ServerM.updateClient d u) := by
  apply fixes_modify
  intro s
  rw [s.update_of_ne hne.symm]

theorem removeClient_of_ne {d : κ} (hne : d ≠ c) (g : TClient → ω) :
    Fixes (fun s : ServerState κ => g (s.client c).toTClient) (ServerM.removeClient d) := by
  refine Fixes.bind (updateClient_of_ne hne g _) fun _ => fixes_modify ?_
  exact fun _ => rfl

theorem FrameBut.removeVehicleOf (hf : FrameBut c f) (PID VID : ℤ) :
    Fixes f (ServerM.removeVehicleOf env PID VID c) := by
  apply (hf.getCarData VID).bind
  intro data
  split_ifs
  · exact fixes_pure _
  · apply (hf.triggerEvent _ _).bind
    intro _
    apply (hf.toFrame.sendToAll _ _ _ _).bind
    intro _
    refine Fixes.bind (hf.updateVehicles ?_) fun _ => fixes_pure _
    exact fun _ => rfl

theorem FrameBut.vehiclesGone (hf : FrameBut c f) (PID : ℤ) (vehicles : List VehicleData) :
    Fixes f (vehicles.forM (ServerM.vehicleGone env c PID)) :=
  fixes_forM (hf.vehicleGone PID) vehicles

theorem FrameBut.farewell (hf : FrameBut c f) : Fixes f (ServerM.farewell env c) := by
  apply (ServerM.fixes_getClient c).bind
  intro d
  apply (hf.vehiclesGone d.id d.vehicleData).bind
  intro _
  apply (hf.toFrame.sendToAll _ _ _ _).bind
  intro _
  apply (hf.triggerEvent _ _).bind
  intro _
  exact hf.toFrame.fixes (ServerM.disconnectClient_core c)

end Frames

namespace ServerCall

variable {env : ServerEnv κ} {s t : ServerState κ} {c : κ}

/-- Whether a call may change the vehicles of a client: what is done with a packet of the client,
its coming and going, and the removal of a vehicle under its ID. -/
def concerns (s : ServerState κ) (c : κ) : ServerCall κ → Bool
  | .insertClient d _ _ _ | .receive d _ | .receiveUDP d _ | .removeClient d | .onDisconnect d =>
    d = c
  | .removeVehicle PID _ => PID = (s.client c).id
  | .onConnect _ | .resourcesSynced _ _ _ | .bindUDP _ | .looper _ | .disconnectClient _
  | .message _ => false

theorem onConnect_vehicleFields (d : κ) :
    Fixes (fun s : ServerState κ => (s.client c).vehicleFields) (ServerM.onConnect env d) := by
  have hframe : Frame fun s : ServerState κ => (s.client c).vehicleFields :=
    frame_client c TClient.vehicleFields
  intro s
  dsimp only
  rw [hframe.onConnect d s]
  by_cases hdc : d = c
  · subst hdc
    rw [s.update_self]
    rfl
  · rw [s.update_of_ne (Ne.symm hdc)]

theorem run_vehicleFields {a : ServerCall κ} (h : a.concerns s c = false) :
    ((final (a.run env) s).client c).vehicleFields = (s.client c).vehicleFields := by
  have hframe : Frame fun s : ServerState κ => (s.client c).vehicleFields :=
    frame_client c TClient.vehicleFields
  have hother : ∀ d, d ≠ c → FrameBut d fun s : ServerState κ => (s.client c).vehicleFields :=
    fun d hne => frameBut_client hne TClient.vehicleFields
  cases a with
  | insertClient d name role order =>
    have hne : d ≠ c := by simpa [concerns] using h
    have horder : Fixes (fun s : ServerState κ => (s.client c).vehicleFields)
        (modify fun s => { s with clients := order } : ServerM κ Unit) := fixes_modify fun _ => rfl
    exact horder.bind (fun _ => updateClient_of_ne hne TClient.vehicleFields _) s
  | onConnect d => exact onConnect_vehicleFields d s
  | resourcesSynced d random Map => exact hframe.resourcesSynced d random Map s
  | receive d Packet => exact (hother d (by simpa [concerns] using h)).receive Packet s
  | bindUDP d =>
    have hbind : Fixes (fun s : ServerState κ => (s.client c).vehicleFields)
        (ServerM.updateClient d fun e => { e with mIsUDPConnected := true }) :=
      hframe.updateClient d fun _ => rfl
    exact hbind s
  | receiveUDP d Packet => exact (hother d (by simpa [concerns] using h)).globalParser Packet true s
  | looper d => exact hframe.fixes (looper_core d) s
  | disconnectClient d => exact hframe.fixes (ServerM.disconnectClient_core d) s
  | removeClient d =>
    exact removeClient_of_ne (by simpa [concerns] using h) TClient.vehicleFields s
  | onDisconnect d =>
    have hne : d ≠ c := by simpa [concerns] using h
    have hremove := removeClient_of_ne hne TClient.vehicleFields
    exact (hother d hne).farewell.bind (fun _ => hremove) s
  | message a => exact hframe.message a s
  | removeVehicle PID VID =>
    unfold run
    rw [final_discard]
    refine ServerM.findClient_bind_fixes (f := fun s => (s.client c).vehicleFields)
      (fixes_pure _) ?_
    intro e he
    have hne : e ≠ c := by
      rintro rfl
      simp [concerns, he] at h
    exact (hother e hne).removeVehicleOf PID VID s

/-- Over any run, the vehicles of a player are what they were unless the server has handled a
packet of the player, the player has come or gone, or a plugin has removed a vehicle under the
ID of the player. -/
theorem vehicles_change_by_owner (env : ServerEnv κ) (s t : ServerState κ) (c : κ)
    (calls : List (ServerCall κ))
    (halong : Execution.Along (step env) (fun s a => a.concerns s c = false) s calls)
    (hrun : Execution.run (step env) s calls = some t) :
    (t.client c).vehicleFields = (s.client c).vehicleFields := by
  refine Execution.run_invariant
    (I := fun m : ServerState κ => (m.client c).vehicleFields = (s.client c).vehicleFields)
    ?_ rfl halong hrun
  intro m a m' hm hguard hstep
  unfold step at hstep
  split_ifs at hstep
  cases hstep
  exact (run_vehicleFields hguard).trans hm

/-- The player with ID 1 deletes a vehicle of its own and leaves, and a plugin removes a vehicle
of the player that has left, under the ID of nobody. -/
theorem vehicles_change_by_owner_sample :
    ∃ t, Execution.run (step quietEnv) twoClients
        [.receive true (ascii "Od:1-0"), .onDisconnect true, .removeVehicle 1 0] = some t ∧
      (t.client false).vehicleFields = (twoClients.client false).vehicleFields :=
  ⟨_, rfl, vehicles_change_by_owner quietEnv twoClients _ false
    [.receive true (ascii "Od:1-0"), .onDisconnect true, .removeVehicle 1 0] (by decide) rfl⟩

end ServerCall

def ServerState.start (κ : Type) : ServerState κ where
  clients := []
  client _ := {}

end BeamMP
