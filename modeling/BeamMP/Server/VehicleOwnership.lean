import BeamMP.Server.NetworkEffects

/-!
# Who may change a vehicle

A vehicle packet names a client and one of its vehicles in its header. The handlers
compare the client with the sender, each in a branch of its own.
-/
namespace BeamMP

open Bytes Observables

/-- The packets that are for the owner of a vehicle: the codes from `V` to `Z`, and `O` with
one of its sub-codes. -/
def isVehiclePacket : Bytes → Bool
  | [] => false
  | Code :: rest =>
    (86 ≤ Code && Code ≤ 90) ||
      (Code = 'O'.toUInt8 && rest.head?.any fun SubCode => SubCode ∈ ascii "cdrtp")

/-- The field of a vehicle packet that `GetPidVid` gets. -/
def headerField (Packet : Bytes) : Bytes :=
  let Data := substr Packet 3 none
  substr Data 0 (find Data ':' (if Packet.head? = some 'O'.toUInt8 then 1 else 0))

structure VehicleFields where
  vehicleData : List VehicleData
  vehiclePosition : ℕ → Option Bytes
  unicycleID : ℤ

def TClient.vehicleFields (c : TClient) : VehicleFields where
  vehicleData := c.vehicleData
  vehiclePosition := c.vehiclePosition
  unicycleID := c.unicycleID

variable {κ : Type}

def ServerState.othersVehicles (c : κ) (s : ServerState κ) : { d // d ≠ c } → VehicleFields :=
  fun d => (s.client d).vehicleFields

namespace ServerM

variable {c : κ}

theorem fixes_othersVehicles {α : Type} {m : ServerM κ α} (h : Fixes ServerState.core m) :
    Fixes (ServerState.othersVehicles c) m := h.map (ServerState.othersVehicles c)

theorem triggerEvent_others (env : ServerEnv κ) (name : Bytes) (args : List LuaArg) :
    Fixes (ServerState.othersVehicles c) (triggerEvent env name args) := by
  have hevent : Fixes (ServerState.othersVehicles c)
      (modify fun s => { s with events := s.events ++ [(name, args)] } : ServerM κ Unit) :=
    fixes_modify fun _ => rfl
  exact hevent.bind fun _ => fixes_get_bind fun _ => fixes_pure _

theorem incrementInternalPPS_others :
    Fixes (ServerState.othersVehicles c) (incrementInternalPPS : ServerM κ Unit) :=
  fixes_modify fun _ => rfl

theorem ifOwned_others (Packet : Bytes) {handler : ℤ → ServerM κ Unit}
    (h : ∀ VID, Fixes (ServerState.othersVehicles c) (handler VID)) :
    Fixes (ServerState.othersVehicles c) (ifOwned c Packet handler) := by
  apply (fixes_getClient c).bind
  intro d
  cases ownedVehicle d.toTClient (substr Packet 3 none) with
  | none => exact fixes_pure ()
  | some VID => exact h VID

variable [DecidableEq κ]

theorem updateVehicles_others (f : TClient → TClient) :
    Fixes (ServerState.othersVehicles c) (updateVehicles c f) := by
  apply fixes_modify
  intro s
  funext d
  unfold ServerState.othersVehicles
  rw [s.update_of_ne d.property]

theorem getCarData_others (ident : ℤ) :
    Fixes (ServerState.othersVehicles c) (getCarData c ident) := by
  apply (fixes_getClient c).bind
  intro d
  exact (updateVehicles_others _).bind fun _ => fixes_pure _

theorem handlePosition_others (Packet : Bytes) :
    Fixes (ServerState.othersVehicles c) (handlePosition c Packet) := by
  unfold handlePosition
  cases parsePositionPacket Packet with
  | none => exact fixes_pure ()
  | some parsed => exact updateVehicles_others _

variable (env : ServerEnv κ)

theorem sendToAll_others (d : Option κ) (Data : Bytes) (Self Rel : Bool) :
    Fixes (ServerState.othersVehicles c) (sendToAll env d Data Self Rel) :=
  fixes_othersVehicles (sendToAll_core env d Data Self Rel)

theorem apply_others (VID : ℤ) (pckt : Bytes) :
    Fixes (ServerState.othersVehicles c) (apply env c VID pckt) := by
  unfold apply
  cases find pckt '{' 0 with
  | none => exact fixes_pure ()
  | some FoundPos =>
    apply (getCarData_others VID).bind
    intro VD
    split_ifs
    · exact fixes_pure ()
    · cases env.json.parse (substr pckt FoundPos none) with
      | none => exact fixes_pure ()
      | some Pack => exact updateVehicles_others _

theorem confirmEdit_others (d : TClient) (VID : ℤ) (Packet : Bytes) (Futures : List LuaResult) :
    Fixes (ServerState.othersVehicles c) (confirmEdit env c d VID Packet Futures) := by
  unfold confirmEdit
  dsimp only
  split_ifs
  · apply (sendToAll_others env _ _ _ _).bind
    intro _
    exact (apply_others env VID Packet).bind fun _ => fixes_pure true
  · apply (updateVehicles_others _ : Fixes _ (untrack c VID)).bind
    intro _
    apply (sendToAll_others env _ _ _ _).bind
    intro _
    apply (triggerEvent_others env _ _).bind
    intro _
    exact (updateVehicles_others _).bind fun _ => fixes_pure false

theorem parseEdit_others (Packet : Bytes) (VID : ℤ) :
    Fixes (ServerState.othersVehicles c) (parseEdit env c Packet VID) := by
  apply (fixes_getClient c).bind
  intro d
  apply (triggerEvent_others env _ _).bind
  intro Futures
  apply (confirmEdit_others env _ VID Packet Futures).bind
  intro Allowed
  exact (triggerEvent_others env _ _).bind fun _ => fixes_pure ()

theorem parseDelete_others (Packet : Bytes) (VID : ℤ) :
    Fixes (ServerState.othersVehicles c) (parseDelete env c Packet VID) := by
  apply (fixes_getClient c).bind
  intro d
  apply (updateVehicles_others _ : Fixes _ (untrack c VID)).bind
  intro _
  apply (sendToAll_others env _ _ _ _).bind
  intro _
  exact (triggerEvent_others env _ _).bind fun _ => updateVehicles_others _

theorem parseReset_others (Packet : Bytes) (VID : ℤ) :
    Fixes (ServerState.othersVehicles c) (parseReset env c Packet VID) := by
  apply (fixes_getClient c).bind
  intro d
  dsimp only
  cases find (substr Packet 3 none) '{' 0 with
  | none => exact fixes_pure ()
  | some BracketPos =>
    exact (triggerEvent_others env _ _).bind fun _ => sendToAll_others env _ _ _ _

theorem repaint_others (Data : Bytes) (VID : ℤ) :
    Fixes (ServerState.othersVehicles c) (repaint env c Data VID) := by
  apply (getCarData_others VID).bind
  intro CarData
  split_ifs
  · exact fixes_pure ()
  · cases paintTarget CarData with
    | none => exact fixes_pure ()
    | some vcf => exact (fixes_orThrow _ _).bind fun _ => updateVehicles_others _

theorem parsePaint_others (Packet : Bytes) (VID : ℤ) :
    Fixes (ServerState.othersVehicles c) (parsePaint env c Packet VID) := by
  apply (fixes_getClient c).bind
  intro d
  dsimp only
  cases find (substr Packet 3 none) '[' 0 with
  | none => exact fixes_pure ()
  | some BracketPos =>
    apply (triggerEvent_others env _ _).bind
    intro _
    apply (sendToAll_others env _ _ _ _).bind
    exact fun _ => repaint_others env _ VID

theorem dispatch_relay {Code : UInt8} (h : 86 ≤ Code ∧ Code ≤ 89) (rest : Bytes) (udp : Bool) :
    dispatch env c (Code :: rest) udp = relayVehiclePacket env c (Code :: rest) := if_pos h

theorem dispatch_position (rest : Bytes) (udp : Bool) :
    dispatch env c ('Z'.toUInt8 :: rest) udp = positionPacket env c ('Z'.toUInt8 :: rest) := rfl

theorem dispatch_vehicle (rest : Bytes) (udp : Bool) :
    dispatch env c ('O'.toUInt8 :: rest) udp =
      if udp then pure () else parseVehicle env c ('O'.toUInt8 :: rest) := rfl

/-- The cases of `ParseVehicle` for the owner of a vehicle, which differ in what the owner may
do; a packet that is too short is ignored. -/
theorem parseVehicle_owned {SubCode : UInt8} (h : SubCode ∈ ascii "cdrtp") (rest : Bytes) :
    parseVehicle env c ('O'.toUInt8 :: SubCode :: rest) = pure () ∨
      ∃ handler, (∀ VID, Fixes (ServerState.othersVehicles c) (handler VID)) ∧
        parseVehicle env c ('O'.toUInt8 :: SubCode :: rest) =
          ifOwned c ('O'.toUInt8 :: SubCode :: rest) handler := by
  match rest with
  | [] | [_] | [_, _] | [_, _, _] => exact Or.inl rfl
  | a :: b :: d :: e :: rest =>
    right
    have hcases : SubCode = 'c'.toUInt8 ∨ SubCode = 'd'.toUInt8 ∨ SubCode = 'r'.toUInt8 ∨
        SubCode = 't'.toUInt8 ∨ SubCode = 'p'.toUInt8 := by simpa [ascii] using h
    rcases hcases with rfl | rfl | rfl | rfl | rfl
    · exact ⟨_, parseEdit_others env _, rfl⟩
    · exact ⟨_, parseDelete_others env _, rfl⟩
    · exact ⟨_, parseReset_others env _, rfl⟩
    · exact ⟨_, fun _ => sendToAll_others env _ _ _ _, rfl⟩
    · exact ⟨_, parsePaint_others env _, rfl⟩

end ServerM

theorem isVehiclePacket_cases {Packet : Bytes} (h : isVehiclePacket Packet = true) :
    (∃ Code rest, Packet = Code :: rest ∧ 86 ≤ Code ∧ Code ≤ 89) ∨
      (∃ rest, Packet = 'Z'.toUInt8 :: rest) ∨
      ∃ SubCode rest, Packet = 'O'.toUInt8 :: SubCode :: rest ∧ SubCode ∈ ascii "cdrtp" := by
  cases Packet with
  | nil => cases h
  | cons Code rest =>
    simp only [isVehiclePacket, Bool.or_eq_true, Bool.and_eq_true, decide_eq_true_eq] at h
    rcases h with ⟨hlow, hhigh⟩ | ⟨hO, hsub⟩
    · by_cases hZ : Code = 'Z'.toUInt8
      · exact Or.inr (Or.inl ⟨rest, by rw [hZ]⟩)
      · refine Or.inl ⟨Code, rest, rfl, hlow, ?_⟩
        have hne : Code.toNat ≠ 90 := fun heq => hZ (UInt8.toNat_inj.mp heq)
        rw [UInt8.le_iff_toNat_le] at hhigh ⊢
        have hbound : (90 : UInt8).toNat = 90 := rfl
        have hgoal : (89 : UInt8).toNat = 89 := rfl
        omega
    · cases rest with
      | nil => cases hsub
      | cons SubCode rest => exact Or.inr (Or.inr ⟨SubCode, rest, by rw [hO], by simpa using hsub⟩)

namespace ServerM

variable {c : κ}

theorem ownedVehicleAt_eq_none {pos : ℕ} {d : TClient} {data : Bytes}
    (h : ∀ vid, getPidVid (substr data 0 (find data ':' pos)) ≠ some (d.id, vid)) :
    ownedVehicleAt pos d data = none := by
  rw [Option.eq_none_iff_forall_ne_some]
  intro vid hvid
  exact h vid (ownedVehicleAt_eq_some_iff.mp hvid)

theorem headerVehicle_bind_refused {s : ServerState κ} {Packet : Bytes}
    {k : Option ℤ → ServerM κ Unit} (hk : k none = pure ())
    (h : ownedVehicleAt 0 (s.client c).toTClient (substr Packet 3 none) = none) :
    final (headerVehicle c Packet >>= k) s = s := by
  rw [final_bind]
  by_cases hshort : Packet.length < 3
  · have hthrow : headerVehicle c Packet s = .error .outOfRange s := by
      simp only [headerVehicle, if_pos hshort]
      rfl
    rw [hthrow]
  · have hheader : headerVehicle c Packet s = .ok none s := by
      simp only [headerVehicle, if_neg hshort]
      rw [← h]
      rfl
    rw [hheader]
    simp [hk]

theorem ifOwned_refused {s : ServerState κ} {Packet : Bytes} {handler : ℤ → ServerM κ Unit}
    (h : ownedVehicle (s.client c).toTClient (substr Packet 3 none) = none) :
    final (ifOwned c Packet handler) s = s := by
  have hread : getClient c s = .ok (s.client c) s := rfl
  unfold ifOwned
  rw [final_bind, hread]
  dsimp only
  rw [h]
  rfl

variable [DecidableEq κ] (env : ServerEnv κ)

/-- A vehicle packet changes no vehicles but those of the sender. -/
theorem dispatch_others {Packet : Bytes} (h : isVehiclePacket Packet = true) (udp : Bool) :
    Fixes (ServerState.othersVehicles c) (dispatch env c Packet udp) := by
  rcases isVehiclePacket_cases h with ⟨Code, rest, rfl, hcode⟩ | ⟨rest, rfl⟩ |
    ⟨SubCode, rest, rfl, hsub⟩
  · rw [dispatch_relay env hcode]
    exact fixes_relayVehiclePacket env incrementInternalPPS_others (sendToAll_others env _ _ _ _)
  · rw [dispatch_position]
    exact fixes_positionPacket env incrementInternalPPS_others (sendToAll_others env _ _ _ _)
      (handlePosition_others _)
  · rw [dispatch_vehicle]
    split_ifs
    · exact fixes_pure ()
    · rcases parseVehicle_owned env hsub rest with hshort | ⟨handler, hfixes, hparse⟩
      · rw [hshort]
        exact fixes_pure ()
      · rw [hparse]
        exact ifOwned_others _ hfixes

/-- Where the header names no vehicle of the sender, nothing happens but that a position packet
is counted. -/
theorem dispatch_refused {s : ServerState κ} {Packet : Bytes} (h : isVehiclePacket Packet = true)
    (hrefused : ∀ VID, getPidVid (headerField Packet) ≠ some ((s.client c).id, VID)) (udp : Bool) :
    ∃ n, final (dispatch env c Packet udp) s = { s with internalPPS := n } := by
  rcases isVehiclePacket_cases h with ⟨Code, rest, rfl, hcode⟩ | ⟨rest, rfl⟩ |
    ⟨SubCode, rest, rfl, hsub⟩
  · have hO : Code ≠ 'O'.toUInt8 := by
      rintro rfl
      exact absurd hcode.1 (by decide)
    have hnone : ownedVehicleAt 0 (s.client c).toTClient (substr (Code :: rest) 3 none) = none := by
      apply ownedVehicleAt_eq_none
      simpa [headerField, hO] using hrefused
    rw [dispatch_relay env hcode]
    exact ⟨s.internalPPS, headerVehicle_bind_refused rfl hnone⟩
  · have hnone : ownedVehicleAt 0 (s.client c).toTClient
        (substr ('Z'.toUInt8 :: rest) 3 none) = none := ownedVehicleAt_eq_none hrefused
    rw [dispatch_position]
    refine ⟨s.internalPPS + 1, ?_⟩
    unfold positionPacket incrementInternalPPS
    rw [final_bind]
    exact headerVehicle_bind_refused rfl hnone
  · have hnone : ownedVehicle (s.client c).toTClient
        (substr ('O'.toUInt8 :: SubCode :: rest) 3 none) = none := by
      rw [ownedVehicle_eq]
      exact ownedVehicleAt_eq_none hrefused
    refine ⟨s.internalPPS, ?_⟩
    rw [dispatch_vehicle]
    split_ifs
    · rfl
    · rcases parseVehicle_owned env hsub rest with hshort | ⟨handler, -, hparse⟩
      · rw [hshort]
        rfl
      · rw [hparse]
        exact ifOwned_refused hnone

/-- A vehicle packet, over TCP or UDP, compressed or not. Unless its header names a vehicle of
the sender it is relayed to nobody, triggers no event and changes nothing but the packet
count; in any case it changes no vehicles but those of the sender. -/
theorem globalParser_vehicle_ownership (s : ServerState κ) (c : κ) (Packet data : Bytes)
    (udp : Bool) (hdecode : decodePacket env.zlib Packet = .ok data)
    (hvehicle : isVehiclePacket data = true) :
    ((∀ VID, getPidVid (headerField data) ≠ some ((s.client c).id, VID)) →
      ∃ n, final (globalParser env c Packet udp) s = { s with internalPPS := n }) ∧
    ∀ d, d ≠ c → ((final (globalParser env c Packet udp) s).client d).vehicleFields =
      (s.client d).vehicleFields := by
  have hparse : globalParser env c Packet udp = dispatch env c data udp := by
    unfold globalParser
    rw [hdecode]
  rw [hparse]
  constructor
  · exact fun hrefused => dispatch_refused env hvehicle hrefused udp
  · intro d hd
    exact congrFun (dispatch_others env hvehicle udp s) ⟨d, hd⟩

end ServerM

/-- A server whose Lua handlers answer nothing and whose sockets take everything. -/
def quietEnv : ServerEnv Bool where
  zlib := storingZlib
  json := ⟨fun _ => none, fun _ => none⟩
  maxCars := 1
  maxPlayers := 10
  luaAnswers _ := []
  udpSends _ := true
  tcpWrites _ := true

/-- Two synced clients with the IDs 0 and 1, each with a vehicle. -/
def twoClients : ServerState Bool where
  clients := [false, true]
  client d := { id := d.toNat, vehicleData := [⟨0, .null⟩], mIsSynced := true }

/-- The client with ID 1 deletes its own vehicle, and then tries the one of the client with
ID 0. -/
theorem globalParser_delete_ownership :
    (∀ d : Bool, d ≠ true →
      ((final (ServerM.globalParser quietEnv true (ascii "Od:1-0") false) twoClients).client
        d).vehicleFields = (twoClients.client d).vehicleFields) ∧
    ∃ n, final (ServerM.globalParser quietEnv true (ascii "Od:0-0") false) twoClients =
      { twoClients with internalPPS := n } := by
  constructor
  · exact (ServerM.globalParser_vehicle_ownership quietEnv twoClients true (ascii "Od:1-0")
      (ascii "Od:1-0") false (by rfl) (by decide)).2
  · refine (ServerM.globalParser_vehicle_ownership quietEnv twoClients true (ascii "Od:0-0")
      (ascii "Od:0-0") false (by rfl) (by decide)).1 fun VID h => ?_
    have hheader : getPidVid (headerField (ascii "Od:0-0")) = some (0, 0) := by decide
    rw [hheader] at h
    have hid : (0 : ℤ) = 1 := congrArg Prod.fst (Option.some.inj h)
    exact absurd hid (by decide)

end BeamMP
