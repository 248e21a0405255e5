import BeamMP.Server.PacketHandlers

/-!
# The packet dispatcher

`GlobalParser` gets the packets of a client over TCP and over UDP. A compressed
packet is decompressed first; then the first byte selects the handler.
-/
namespace BeamMP

open Bytes Observables

/-- The packet the dispatcher looks at. -/
def decodePacket (z : Zlib) (Packet : Bytes) : Except DeCompError Bytes :=
  if ascii "ABG:" <+: Packet then deComp z (Packet.drop 4) else .ok Packet

/-- The reason of the kick for a packet that cannot be decompressed. -/
def DeCompError.kickReason : DeCompError → Bytes
  | .invalidData => ascii "Sent invalid compressed packet (this is likely a bug on your end)"
  | .sizeExceeded | .uncompressFailed =>
    ascii "Decompression failed (likely a server-side problem)"

namespace ServerM

variable {κ : Type} [DecidableEq κ] (env : ServerEnv κ)

/-- The vehicle of the sender that the header of a packet with a code from `V` to `Z` names. A
packet of less than three bytes has no header, and `substr` throws. -/
def headerVehicle (c : κ) (StringPacket : Bytes) : ServerM κ (Option ℤ) :=
  if StringPacket.length < 3 then throw .outOfRange
  else do
    let d ← getClient c
    pure (ownedVehicleAt 0 d.toTClient (substr StringPacket 3 none))

/-- The codes from `V` to `Y`. -/
def relayVehiclePacket (c : κ) (Packet : Bytes) : ServerM κ Unit := do
  let MaybeVid ← headerVehicle c Packet
  match MaybeVid with
  | none => pure ()
  | some _ => do
    incrementInternalPPS
    sendToAll env (some c) Packet false false

/-- The code `Z`, which is counted before the header is checked. -/
def positionPacket (c : κ) (Packet : Bytes) : ServerM κ Unit := do
  incrementInternalPPS
  let MaybeVid ← headerVehicle c Packet
  match MaybeVid with
  | none => pure ()
  | some _ => do
    sendToAll env (some c) Packet false false
    handlePosition c Packet

/-- The code `p`. -/
def ping (c : κ) : ServerM κ Unit := do
  let sent ← respond env c (ascii "p") false false
  if sent then updatePlayer env c else disconnectClient c

/-- The code `C`. -/
def chatPacket (c : κ) (Packet : Bytes) : ServerM κ Unit :=
  if Packet.length < 4 || find Packet ':' 3 = none then pure ()
  else if chatMessage Packet = [] || 500 < (chatMessage Packet).length then pure ()
  else chat env c (chatMessage Packet)

def dispatch (c : κ) (Packet : Bytes) (udp : Bool) : ServerM κ Unit :=
  match Packet with
  | [] => pure ()
  | Code :: _ =>
    if 86 ≤ Code ∧ Code ≤ 89 then relayVehiclePacket env c Packet
    else if Code = 'H'.toUInt8 then if udp then pure () else syncClient env c
    else if Code = 'p'.toUInt8 then ping env c
    else if Code = 'O'.toUInt8 then if udp then pure () else parseVehicle env c Packet
    else if Code = 'C'.toUInt8 then if udp then pure () else chatPacket env c Packet
    else if Code = 'E'.toUInt8 then if udp then pure () else handleEvent env c Packet
    else if Code = 'N'.toUInt8 then sendToAll env (some c) Packet false true
    else if Code = 'Z'.toUInt8 then positionPacket env c Packet
    else pure ()

def globalParser (c : κ) (Packet : Bytes) (udp : Bool) : ServerM κ Unit :=
  match decodePacket env.zlib Packet with
  | .error e => clientKick env c e.kickReason
  | .ok Packet => dispatch env c Packet udp

end ServerM
end BeamMP
