import BeamMP.Server.GlobalParser

/-!
# What the network functions can change

Sending to clients, kicking and disconnecting them changes the queues, the connection
states and the history of the sockets, and nothing else. `ServerState.core` is the
server without these.
-/
namespace BeamMP

open Observables

variable {κ : Type}

/-- A client apart from its queue and its connection. -/
def ServerClient.core (c : ServerClient) : ServerClient :=
  { c with disconnected := false, mPacketsSync := [] }

/-- The server apart from what the network functions change. -/
def ServerState.core (s : ServerState κ) : ServerState κ :=
  { s with client := fun d => (s.client d).core, sent := [] }

namespace ServerM

theorem fixes_getClient {ω : Type*} {f : ServerState κ → ω} (d : κ) : Fixes f (getClient d) :=
  fixes_get_bind fun _ => fixes_pure _

theorem fixes_orThrow {ω : Type*} {f : ServerState κ → ω} {α : Type} (e : ServerException)
    (a : Option α) : Fixes f (orThrow e a) := by
  cases a with
  | none => exact fixes_throw e
  | some a => exact fixes_pure a

theorem fixes_compressLarge {ω : Type*} {f : ServerState κ → ω} (env : ServerEnv κ)
    (Data : Bytes) : Fixes f (compressLarge env Data) := by
  unfold compressLarge
  split_ifs
  · exact fixes_orThrow _ _
  · exact fixes_pure Data

theorem fixes_headerVehicle {ω : Type*} {f : ServerState κ → ω} (c : κ) (StringPacket : Bytes) :
    Fixes f (headerVehicle c StringPacket) := by
  unfold headerVehicle
  split_ifs
  · exact fixes_throw _
  · exact (fixes_getClient c).bind fun _ => fixes_pure _

theorem transmit_core (d : κ) (transport : Transport) (Data : Bytes) :
    Fixes ServerState.core (transmit d transport Data) := fixes_modify fun _ => rfl

variable [DecidableEq κ]

theorem updateClient_core {d : κ} {g : ServerClient → ServerClient}
    (h : ∀ c, (g c).core = c.core) : Fixes ServerState.core (updateClient d g) := by
  apply fixes_modify
  intro s
  have hclient : ∀ c, ((s.update d g).client c).core = (s.client c).core := by
    intro c
    by_cases hc : c = d
    · subst hc
      rw [ServerState.update_self, h]
    · rw [s.update_of_ne hc]
  unfold ServerState.core
  simp only [funext hclient]
  rfl

theorem enqueuePacket_core (d : κ) (Packet : Bytes) :
    Fixes ServerState.core (enqueuePacket d Packet) := updateClient_core fun _ => rfl

theorem disconnectClient_core (d : κ) : Fixes ServerState.core (disconnectClient d) :=
  updateClient_core fun _ => rfl

variable (env : ServerEnv κ)

theorem sent_core (d : κ) {sends : ServerState κ → Bool} :
    Fixes ServerState.core
      (do
        let s ← get
        if sends s then pure true
        else do
          disconnectClient d
          pure false : ServerM κ Bool) := by
  apply fixes_get_bind
  intro s
  split_ifs
  · exact fixes_pure true
  · exact (disconnectClient_core d).bind fun _ => fixes_pure false

theorem tcpSend_core (d : κ) (Data : Bytes) (IsSync : Bool) :
    Fixes ServerState.core (tcpSend env d Data IsSync) := by
  apply (fixes_getClient d).bind
  intro c
  cases BeamMP.tcpSend c.mIsSyncing Data IsSync with
  | enqueue Data => exact (enqueuePacket_core d Data).bind fun _ => fixes_pure true
  | drop => exact fixes_pure true
  | write ToSend => exact (transmit_core d .tcp ToSend).bind fun _ => sent_core d

theorem sendLarge_core (d : κ) (Data : Bytes) (isSync : Bool) :
    Fixes ServerState.core (sendLarge env d Data isSync) :=
  (fixes_compressLarge env Data).bind fun _ => tcpSend_core env d _ isSync

theorem udpSend_core (d : κ) (Data : Bytes) : Fixes ServerState.core (udpSend env d Data) := by
  apply (fixes_getClient d).bind
  intro c
  split_ifs
  · exact fixes_pure true
  · apply (fixes_compressLarge env Data).bind
    intro Data
    exact (transmit_core d .udp Data).bind fun _ => sent_core d

theorem respond_core (d : κ) (MSG : Bytes) (Rel isSync : Bool) :
    Fixes ServerState.core (respond env d MSG Rel isSync) := by
  unfold respond
  cases MSG with
  | nil => exact fixes_throw _
  | cons C rest =>
    dsimp only
    split_ifs
    · exact sendLarge_core env d _ isSync
    · exact tcpSend_core env d _ isSync
    · exact udpSend_core env d _

theorem clientKick_core (d : κ) (R : Bytes) : Fixes ServerState.core (clientKick env d R) :=
  (tcpSend_core env d _ false).bind fun _ => disconnectClient_core d

theorem deliver_core (d : κ) (route : Option Route) :
    Fixes ServerState.core (deliver env d route) := by
  cases route with
  | none => exact fixes_throw _
  | some route =>
    cases route with
    | enqueue Packet => exact enqueuePacket_core d Packet
    | udp Data => exact (udpSend_core env d Data).bind fun _ => fixes_pure ()

theorem sendToClient_core (Data : Bytes) (Rel : Bool) (d : κ) :
    Fixes ServerState.core (sendToClient env Data Rel d) := by
  apply (fixes_getClient d).bind
  intro c
  split_ifs
  · exact deliver_core env d _
  · exact fixes_pure ()

theorem sendToAll_core (c : Option κ) (Data : Bytes) (Self Rel : Bool) :
    Fixes ServerState.core (sendToAll env c Data Self Rel) := by
  unfold sendToAll
  split_ifs
  · exact fixes_throw _
  · apply fixes_get_bind
    intro s
    apply fixes_forM
    intro d
    split_ifs
    · exact sendToClient_core env Data Rel d
    · exact fixes_pure ()

theorem updatePlayer_core (d : κ) : Fixes ServerState.core (updatePlayer env d) :=
  fixes_get_bind fun _ => enqueuePacket_core d _

theorem ping_core (c : κ) : Fixes ServerState.core (ping env c) := by
  apply (respond_core env c _ false false).bind
  intro sent
  split_ifs
  · exact updatePlayer_core env c
  · exact disconnectClient_core c

/-- The two kinds of relayed vehicle packets leave alone what their parts leave alone. -/
theorem fixes_relayVehiclePacket {ω : Type*} {f : ServerState κ → ω} {c : κ} {Packet : Bytes}
    (hcount : Fixes f (incrementInternalPPS : ServerM κ Unit))
    (hsend : Fixes f (sendToAll env (some c) Packet false false)) :
    Fixes f (relayVehiclePacket env c Packet) := by
  apply (fixes_headerVehicle c Packet).bind
  intro MaybeVid
  cases MaybeVid with
  | none => exact fixes_pure ()
  | some _ => exact hcount.bind fun _ => hsend

theorem fixes_positionPacket {ω : Type*} {f : ServerState κ → ω} {c : κ} {Packet : Bytes}
    (hcount : Fixes f (incrementInternalPPS : ServerM κ Unit))
    (hsend : Fixes f (sendToAll env (some c) Packet false false))
    (hposition : Fixes f (handlePosition c Packet)) : Fixes f (positionPacket env c Packet) := by
  apply hcount.bind
  intro _
  apply (fixes_headerVehicle c Packet).bind
  intro MaybeVid
  cases MaybeVid with
  | none => exact fixes_pure ()
  | some _ => exact hsend.bind fun _ => hposition

end ServerM
end BeamMP
