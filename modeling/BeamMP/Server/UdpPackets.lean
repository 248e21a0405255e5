import BeamMP.Server.NetworkEffects

/-!
# Packets that arrive over UDP

UDP packets are not authenticated beyond their source address. They reach the relay
of vehicle packets, the ping and the positions, but no handler that decides about
vehicles, players or Lua events.
-/
namespace BeamMP

open Observables

/-- What the server keeps about a client and lets only TCP packets change. -/
structure ClientAuthority where
  vehicleData : List VehicleData
  unicycleID : ℤ
  name : Bytes
  role : Bytes
  id : ℤ
  mIsSynced : Bool
  mIsSyncing : Bool

def ServerClient.authority (c : ServerClient) : ClientAuthority where
  vehicleData := c.vehicleData
  unicycleID := c.unicycleID
  name := c.name
  role := c.role
  id := c.id
  mIsSynced := c.mIsSynced
  mIsSyncing := c.mIsSyncing

variable {κ : Type}

/-- The members of `mClients`, the Lua events so far, and what is kept about every client. -/
structure Authority (κ : Type) where
  clients : List κ
  events : List (Bytes × List LuaArg)
  client : κ → ClientAuthority

def ServerState.authority (s : ServerState κ) : Authority κ where
  clients := s.clients
  events := s.events
  client d := (s.client d).authority

namespace ServerM

theorem fixes_authority {α : Type} {m : ServerM κ α} (h : Fixes ServerState.core m) :
    Fixes ServerState.authority m := h.map ServerState.authority

theorem incrementInternalPPS_authority :
    Fixes ServerState.authority (incrementInternalPPS : ServerM κ Unit) := fixes_modify fun _ => rfl

variable [DecidableEq κ] (env : ServerEnv κ)

theorem handlePosition_authority (c : κ) (Packet : Bytes) :
    Fixes ServerState.authority (handlePosition c Packet) := by
  unfold handlePosition
  cases parsePositionPacket Packet with
  | none => exact fixes_pure ()
  | some parsed =>
    apply fixes_modify
    intro s
    have hclient : ∀ d, ((s.update c fun d =>
        { d with toTClient := d.setCarPosition parsed.VID parsed.Data }).client d).authority =
          (s.client d).authority := by
      intro d
      by_cases hd : d = c
      · subst hd
        rw [ServerState.update_self]
        rfl
      · rw [s.update_of_ne hd]
    unfold ServerState.authority
    simp only [funext hclient]
    rfl

/-- Every branch that does not test for UDP stays within the frame. -/
theorem dispatch_udp_authority (c : κ) (Packet : Bytes) :
    Fixes ServerState.authority (dispatch env c Packet true) := by
  unfold dispatch
  cases Packet with
  | nil => exact fixes_pure ()
  | cons Code rest =>
    have hsend : ∀ Rel, Fixes ServerState.authority
        (sendToAll env (some c) (Code :: rest) false Rel) :=
      fun Rel => fixes_authority (sendToAll_core env _ _ _ Rel)
    simp only [if_true]
    split_ifs
    · exact fixes_relayVehiclePacket env incrementInternalPPS_authority (hsend false)
    · exact fixes_pure ()
    · exact fixes_authority (ping_core env c)
    · exact fixes_pure ()
    · exact fixes_pure ()
    · exact fixes_pure ()
    · exact hsend true
    · exact fixes_positionPacket env incrementInternalPPS_authority (hsend false)
        (handlePosition_authority c _)
    · exact fixes_pure ()

/-- Whatever arrives over UDP, and whether the call returns or throws: no Lua event, no client
more or less, and no change of what only TCP packets may change. -/
theorem globalParser_udp_authority (s : ServerState κ) (c : κ) (Packet : Bytes) :
    (final (globalParser env c Packet true) s).authority = s.authority := by
  have hfixes : Fixes ServerState.authority (globalParser env c Packet true) := by
    unfold globalParser
    cases decodePacket env.zlib Packet with
    | error e => exact fixes_authority (clientKick_core env c _)
    | ok Packet => exact dispatch_udp_authority env c Packet
  exact hfixes s

end ServerM
end BeamMP
