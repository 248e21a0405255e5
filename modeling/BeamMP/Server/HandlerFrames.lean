import BeamMP.Server.HandlerAgreement

/-!
# What the handlers leave alone

A handler sends packets, triggers events, counts packets, and changes the sender: the flags
of the sender in `SyncClient`, and its vehicles in the handlers of vehicle packets. An
observation that none of these moves is the same before and after the handler.
-/
namespace BeamMP

open Bytes Observables

/-- What an event says about a vehicle, given by the ID of its player and its own: that there
is such a vehicle, or that there is none. -/
def vehicleMark : Bytes × List LuaArg → Option ((ℤ × ℤ) × Bool)
  | (name, args) =>
    if name = ascii "postVehicleSpawn" then
      match args with
      | .bool true :: .int PID :: .int VID :: _ => some ((PID, VID), true)
      | _ => none
    else if name = ascii "onVehicleDeleted" then
      match args with
      | .int PID :: .int VID :: _ => some ((PID, VID), false)
      | _ => none
    else none

theorem vehicleMark_of_ne {name : Bytes} {args : List LuaArg}
    (hspawn : name ≠ ascii "postVehicleSpawn") (hdelete : name ≠ ascii "onVehicleDeleted") :
    vehicleMark (name, args) = none := by
  dsimp only [vehicleMark]
  rw [if_neg hspawn, if_neg hdelete]

theorem TClient.getCarData_id (d : TClient) (ident : ℤ) : (d.getCarData ident).2.id = d.id := by
  rw [getCarData_snd]

theorem TClient.setCarData_id (d : TClient) (VID : ℤ) (data : Json) :
    (d.setCarData VID data).id = d.id := by
  unfold setCarData
  cases KeyedList.lookup VehicleData.id VID d.vehicleData <;> rfl

variable {κ : Type} [DecidableEq κ] {ω : Type*}

/-- The observation shows no connections, no packet counts, no flags of clients, and of the
events only those about vehicles. -/
structure Frame (f : ServerState κ → ω) : Prop where
  core : ∀ s t : ServerState κ, s.core = t.core → f s = f t
  pps : ∀ (s : ServerState κ) internalPPS, f { s with internalPPS } = f s
  flags : ∀ (s : ServerState κ) (c : κ) (g : ServerClient → ServerClient),
    (∀ d, (g d).toTClient = d.toTClient) → f (s.update c g) = f s
  event : ∀ (s : ServerState κ) (e : Bytes × List LuaArg), vehicleMark e = none →
    f { s with events := s.events ++ [e] } = f s

/-- The observation shows no events and no vehicles of `c` either. -/
structure FrameBut (c : κ) (f : ServerState κ → ω) : Prop extends Frame f where
  events : ∀ (s : ServerState κ) events, f { s with events } = f s
  vehicles : ∀ (s : ServerState κ) (g : TClient → TClient), (∀ d, (g d).id = d.id) →
    f (s.update c fun d => { d with toTClient := g d.toTClient }) = f s

variable {f : ServerState κ → ω} {c : κ} {env : ServerEnv κ}

namespace Frame

theorem fixes {α : Type} {m : ServerM κ α} (hf : Frame f) (h : Fixes ServerState.core m) :
    Fixes f m := fun s => hf.core _ _ (h s)

theorem triggerEvent (hf : Frame f) {name : Bytes} {args : List LuaArg}
    (h : vehicleMark (name, args) = none) : Fixes f (ServerM.triggerEvent env name args) := by
  have hevent : Fixes f
      (modify fun s => { s with events := s.events ++ [(name, args)] } : ServerM κ Unit) :=
    fixes_modify fun s => hf.event s _ h
  exact hevent.bind fun _ => fixes_get_bind fun _ => fixes_pure _

theorem incrementInternalPPS (hf : Frame f) :
    Fixes f (ServerM.incrementInternalPPS : ServerM κ Unit) := fixes_modify fun s => hf.pps s _

theorem updateClient (hf : Frame f) (c : κ) {g : ServerClient → ServerClient}
    (hg : ∀ d, (g d).toTClient = d.toTClient) : Fixes f (ServerM.updateClient c g) :=
  fixes_modify fun s => hf.flags s c g hg

theorem sendToAll (hf : Frame f) (c : Option κ) (Data : Bytes) (Self Rel : Bool) :
    Fixes f (ServerM.sendToAll env c Data Self Rel) :=
  hf.fixes (ServerM.sendToAll_core env c Data Self Rel)

theorem respond (hf : Frame f) (c : κ) (MSG : Bytes) (Rel isSync : Bool) :
    Fixes f (ServerM.respond env c MSG Rel isSync) :=
  hf.fixes (ServerM.respond_core env c MSG Rel isSync)

/-- The names that clients may use do not tell of vehicles. -/
theorem handleEvent (hf : Frame f) (c : κ) (RawData : Bytes) :
    Fixes f (ServerM.handleEvent env c RawData) := by
  unfold ServerM.handleEvent
  split_ifs
  · exact fixes_pure ()
  · dsimp only
    split_ifs with hexcluded
    · exact fixes_pure ()
    · apply (ServerM.fixes_getClient c).bind
      intro d
      have hmark : ∀ args, vehicleMark ((eventNameData RawData).1, args) = none := by
        intro args
        apply vehicleMark_of_ne
        · intro hname
          exact hexcluded (by rw [hname]; decide)
        · intro hname
          exact hexcluded (by rw [hname]; decide)
      exact (hf.triggerEvent (hmark _)).bind fun _ => fixes_pure ()

theorem chatPacket (hf : Frame f) (c : κ) (Packet : Bytes) :
    Fixes f (ServerM.chatPacket env c Packet) := by
  unfold ServerM.chatPacket
  split_ifs
  · exact fixes_pure ()
  · exact fixes_pure ()
  · apply (ServerM.fixes_getClient c).bind
    intro d
    apply (hf.triggerEvent rfl).bind
    intro Futures
    dsimp only
    have hpost : Fixes f (do
        let _ ← ServerM.triggerEvent env (ascii "postChatMessage")
          [.bool !vetoed Futures, .int d.id, .string d.name, .string (chatMessage Packet)]
        pure ()) := (hf.triggerEvent rfl).bind fun _ => fixes_pure ()
    split_ifs
    · exact hpost
    · exact (hf.sendToAll none _ true true).bind fun _ => hpost

theorem syncVehicles (hf : Frame f) (c : κ) (d : TClient) (VehicleData : List VehicleData) :
    Fixes f (ServerM.syncVehicles env c d VehicleData) := by
  induction VehicleData with
  | nil => exact fixes_pure true
  | cons v VehicleData ih =>
    apply (ServerM.fixes_getClient c).bind
    intro locked
    split_ifs
    · exact fixes_pure false
    · have hpacket : Fixes f (ServerM.dataAsPacket env v d) :=
        (ServerM.fixes_orThrow _ _).bind fun _ => fixes_pure _
      apply hpacket.bind
      intro packet
      exact (hf.respond c packet true true).bind fun _ => ih

theorem syncClients (hf : Frame f) (c : κ) (clients : List κ) :
    Fixes f (ServerM.syncClients env c clients) := by
  induction clients with
  | nil => exact fixes_pure true
  | cons d clients ih =>
    have hrest : ∀ goOn : Bool,
        Fixes f (if goOn then ServerM.syncClients env c clients else pure false) := by
      intro goOn
      split_ifs
      · exact ih
      · exact fixes_pure false
    apply (ServerM.fixes_getClient d).bind
    intro client
    dsimp only
    split_ifs
    · exact (fixes_pure true).bind hrest
    · exact (hf.syncVehicles c _ _).bind hrest

theorem syncClient (hf : Frame f) (c : κ) : Fixes f (ServerM.syncClient env c) := by
  apply (ServerM.fixes_getClient c).bind
  intro locked
  split_ifs
  · exact fixes_pure ()
  · apply (hf.respond c _ true false).bind
    intro sent
    split_ifs
    · apply (hf.sendToAll (some c) _ false true).bind
      intro _
      apply (hf.triggerEvent rfl).bind
      intro _
      refine Fixes.bind (hf.updateClient c ?_) fun _ => ?_
      · exact fun _ => rfl
      apply fixes_get_bind
      intro s
      apply (hf.syncClients c s.clients).bind
      intro complete
      refine Fixes.bind (hf.updateClient c ?_) fun _ => ?_
      · exact fun _ => rfl
      split_ifs
      · exact hf.updateClient c fun _ => rfl
      · exact fixes_pure ()
    · exact fixes_pure ()

theorem relayVehiclePacket (hf : Frame f) (c : κ) (Packet : Bytes) :
    Fixes f (ServerM.relayVehiclePacket env c Packet) :=
  ServerM.fixes_relayVehiclePacket env hf.incrementInternalPPS (hf.sendToAll _ _ _ _)

end Frame

namespace FrameBut

theorem updateVehicles (hf : FrameBut c f) {g : TClient → TClient} (hid : ∀ d, (g d).id = d.id) :
    Fixes f (ServerM.updateVehicles c g) := fixes_modify fun s => hf.vehicles s g hid

theorem triggerEvent (hf : FrameBut c f) (name : Bytes) (args : List LuaArg) :
    Fixes f (ServerM.triggerEvent env name args) := by
  have hevent : Fixes f
      (modify fun s => { s with events := s.events ++ [(name, args)] } : ServerM κ Unit) :=
    fixes_modify fun s => hf.events s _
  exact hevent.bind fun _ => fixes_get_bind fun _ => fixes_pure _

theorem getCarData (hf : FrameBut c f) (ident : ℤ) : Fixes f (ServerM.getCarData c ident) := by
  apply (ServerM.fixes_getClient c).bind
  intro d
  exact (hf.updateVehicles fun d => d.getCarData_id ident).bind fun _ => fixes_pure _

theorem shouldSpawn (hf : FrameBut c f) (CarJson : Bytes) (ident : ℤ) :
    Fixes f (ServerM.shouldSpawn env c CarJson ident) := by
  apply (ServerM.fixes_getClient c).bind
  intro d
  exact (hf.updateVehicles fun d => shouldSpawn_id _ _ d CarJson ident).bind fun _ => fixes_pure _

theorem handlePosition (hf : FrameBut c f) (Packet : Bytes) :
    Fixes f (ServerM.handlePosition c Packet) := by
  unfold ServerM.handlePosition
  cases parsePositionPacket Packet with
  | none => exact fixes_pure ()
  | some parsed => exact hf.updateVehicles fun _ => rfl

theorem apply (hf : FrameBut c f) (VID : ℤ) (pckt : Bytes) :
    Fixes f (ServerM.apply env c VID pckt) := by
  unfold ServerM.apply
  cases find pckt '{' 0 with
  | none => exact fixes_pure ()
  | some FoundPos =>
    apply (hf.getCarData VID).bind
    intro VD
    split_ifs
    · exact fixes_pure ()
    · cases env.json.parse (substr pckt FoundPos none) with
      | none => exact fixes_pure ()
      | some Pack => exact hf.updateVehicles fun d => d.setCarData_id VID Pack

theorem rejectSpawn (hf : FrameBut c f) (d : TClient) (CarID : ℤ) (Packet : Bytes) :
    Fixes f (ServerM.rejectSpawn env c d CarID Packet) := by
  apply (hf.toFrame.respond c _ true false).bind
  intro _
  apply (hf.triggerEvent _ _).bind
  intro _
  exact (hf.toFrame.respond c _ true false).bind fun _ => fixes_pure false

theorem confirmSpawn (hf : FrameBut c f) (d : TClient) (CarID : ℤ) (CarJson Packet : Bytes)
    (Futures : List LuaResult) :
    Fixes f (ServerM.confirmSpawn env c d CarID CarJson Packet Futures) := by
  apply (hf.shouldSpawn CarJson CarID).bind
  intro should
  cases env.json.parse CarJson with
  | none => exact hf.rejectSpawn d CarID Packet
  | some CarJsonDoc =>
    dsimp only
    split_ifs
    · refine Fixes.bind (hf.updateVehicles ?_) fun _ => ?_
      · exact fun _ => rfl
      exact (hf.toFrame.sendToAll none _ true true).bind fun _ => fixes_pure true
    · exact hf.rejectSpawn d CarID Packet

theorem parseSpawn (hf : FrameBut c f) (Packet : Bytes) :
    Fixes f (ServerM.parseSpawn env c Packet) := by
  apply (ServerM.fixes_getClient c).bind
  intro d
  apply (hf.triggerEvent _ _).bind
  intro Futures
  apply (hf.confirmSpawn _ _ _ _ Futures).bind
  intro SpawnConfirmed
  exact (hf.triggerEvent _ _).bind fun _ => fixes_pure ()

theorem untrack (hf : FrameBut c f) (VID : ℤ) :
    Fixes f (ServerM.untrack c VID) := hf.updateVehicles fun d => untracked_id d VID

theorem confirmEdit (hf : FrameBut c f) (d : TClient) (VID : ℤ) (Packet : Bytes)
    (Futures : List LuaResult) : Fixes f (ServerM.confirmEdit env c d VID Packet Futures) := by
  unfold ServerM.confirmEdit
  dsimp only
  split_ifs
  · apply (hf.toFrame.sendToAll _ _ _ _).bind
    intro _
    exact (hf.apply VID Packet).bind fun _ => fixes_pure true
  · apply (hf.untrack VID).bind
    intro _
    apply (hf.toFrame.sendToAll _ _ _ _).bind
    intro _
    apply (hf.triggerEvent _ _).bind
    intro _
    refine Fixes.bind (hf.updateVehicles ?_) fun _ => fixes_pure false
    exact fun _ => rfl

theorem parseEdit (hf : FrameBut c f) (Packet : Bytes) (VID : ℤ) :
    Fixes f (ServerM.parseEdit env c Packet VID) := by
  apply (ServerM.fixes_getClient c).bind
  intro d
  apply (hf.triggerEvent _ _).bind
  intro Futures
  apply (hf.confirmEdit _ VID Packet Futures).bind
  intro Allowed
  exact (hf.triggerEvent _ _).bind fun _ => fixes_pure ()

theorem parseDelete (hf : FrameBut c f) (Packet : Bytes) (VID : ℤ) :
    Fixes f (ServerM.parseDelete env c Packet VID) := by
  apply (ServerM.fixes_getClient c).bind
  intro d
  apply (hf.untrack VID).bind
  intro _
  apply (hf.toFrame.sendToAll _ _ _ _).bind
  intro _
  refine Fixes.bind (hf.triggerEvent _ _) fun _ => hf.updateVehicles ?_
  exact fun _ => rfl

theorem parseReset (hf : FrameBut c f) (Packet : Bytes) (VID : ℤ) :
    Fixes f (ServerM.parseReset env c Packet VID) := by
  apply (ServerM.fixes_getClient c).bind
  intro d
  dsimp only
  cases find (substr Packet 3 none) '{' 0 with
  | none => exact fixes_pure ()
  | some BracketPos =>
    exact (hf.triggerEvent _ _).bind fun _ => hf.toFrame.sendToAll _ _ _ _

theorem repaint (hf : FrameBut c f) (Data : Bytes) (VID : ℤ) :
    Fixes f (ServerM.repaint env c Data VID) := by
  apply (hf.getCarData VID).bind
  intro CarData
  split_ifs
  · exact fixes_pure ()
  · cases paintTarget CarData with
    | none => exact fixes_pure ()
    | some vcf =>
      apply (ServerM.fixes_orThrow _ _).bind
      intro paints
      exact hf.updateVehicles fun d => d.setCarData_id VID _

theorem parsePaint (hf : FrameBut c f) (Packet : Bytes) (VID : ℤ) :
    Fixes f (ServerM.parsePaint env c Packet VID) := by
  apply (ServerM.fixes_getClient c).bind
  intro d
  dsimp only
  cases find (substr Packet 3 none) '[' 0 with
  | none => exact fixes_pure ()
  | some BracketPos =>
    apply (hf.triggerEvent _ _).bind
    intro _
    apply (hf.toFrame.sendToAll _ _ _ _).bind
    exact fun _ => hf.repaint _ VID

omit [DecidableEq κ] in
theorem ifOwned (Packet : Bytes) {handler : ℤ → ServerM κ Unit} (h : ∀ VID, Fixes f (handler VID)) :
    Fixes f (ServerM.ifOwned c Packet handler) := by
  apply (ServerM.fixes_getClient c).bind
  intro d
  cases ownedVehicle d.toTClient (substr Packet 3 none) with
  | none => exact fixes_pure ()
  | some VID => exact h VID

omit [DecidableEq κ] in
theorem ite {p : Prop} [Decidable p] {m m' : ServerM κ Unit} (hm : Fixes f m)
    (hm' : Fixes f m') : Fixes f (if p then m else m') := by
  split_ifs
  · exact hm
  · exact hm'

theorem parseVehicle (hf : FrameBut c f) (Pckt : Bytes) :
    Fixes f (ServerM.parseVehicle env c Pckt) := by
  have hskip : Fixes f (pure () : ServerM κ Unit) := fixes_pure ()
  unfold ServerM.parseVehicle
  match Pckt with
  | [] | [_] | [_, _] | [_, _, _] | [_, _, _, _] | [_, _, _, _, _] => exact hskip
  | C :: Code :: Colon :: Spawn :: fifth :: sixth :: rest =>
    have hrelay : Fixes f (ServerM.sendToAll env (some c)
        (C :: Code :: Colon :: Spawn :: fifth :: sixth :: rest) false true) :=
      hf.toFrame.sendToAll _ _ _ _
    refine ite (ite (hf.parseSpawn _) hskip) ?_
    refine ite (ifOwned _ (hf.parseEdit _)) ?_
    refine ite (ifOwned _ (hf.parseDelete _)) ?_
    refine ite (ifOwned _ (hf.parseReset _)) ?_
    refine ite (ifOwned _ fun _ => hrelay) ?_
    refine ite hrelay ?_
    exact ite (ifOwned _ (hf.parsePaint _)) hskip

end FrameBut

/-- Whatever a client sends, and over whatever transport, it is only its own vehicles that
change. -/
theorem FrameBut.globalParser (hf : FrameBut c f) (Packet : Bytes) (udp : Bool) :
    Fixes f (ServerM.globalParser env c Packet udp) := by
  unfold ServerM.globalParser
  cases decodePacket env.zlib Packet with
  | error e => exact hf.toFrame.fixes (ServerM.clientKick_core env c _)
  | ok Packet =>
    dsimp only
    unfold ServerM.dispatch
    cases Packet with
    | nil => exact fixes_pure ()
    | cons Code rest =>
      dsimp only
      split_ifs
      · exact hf.toFrame.relayVehiclePacket c _
      · exact fixes_pure ()
      · exact hf.toFrame.syncClient c
      · exact hf.toFrame.fixes (ServerM.ping_core env c)
      · exact fixes_pure ()
      · exact hf.parseVehicle _
      · exact fixes_pure ()
      · exact hf.toFrame.chatPacket c _
      · exact fixes_pure ()
      · exact hf.toFrame.handleEvent c _
      · exact hf.toFrame.sendToAll _ _ _ _
      · exact ServerM.fixes_positionPacket env hf.toFrame.incrementInternalPPS
          (hf.toFrame.sendToAll _ _ _ _) (hf.handlePosition _)
      · exact fixes_pure ()

end BeamMP
