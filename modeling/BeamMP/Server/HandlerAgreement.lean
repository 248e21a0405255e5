import BeamMP.Server.NetworkEffects
import BeamMP.Server.VehicleChanges

/-!
# The vehicle handlers without a failing network

`ParseVehicle` as a function of one client does not model that a broadcast can throw in
the middle of a handler. Where zlib works, no broadcast throws, and the computation on the
server does to the client and to Lua what the function says.
-/
namespace BeamMP

open Bytes Observables

def Effect.event : Effect → Option (Bytes × List LuaArg)
  | .triggerEvent name args => some (ascii name, args)
  | .sendToAll _ _ _ | .respond _ _ => none

/-- A client apart from its connection, and the Lua events so far. -/
def ServerState.view {κ : Type} (c : κ) (s : ServerState κ) :
    TClient × List (Bytes × List LuaArg) :=
  ((s.client c).toTClient, s.events)

def Handled.view (h : Handled) (events : List (Bytes × List LuaArg)) :
    TClient × List (Bytes × List LuaArg) :=
  (h.client, events ++ h.effects.filterMap Effect.event)

/-- A handler ends as the function says. -/
def Handled.Leaves (h : Handled) (events : List (Bytes × List LuaArg)) (threw : Bool)
    (w : TClient × List (Bytes × List LuaArg)) : Prop :=
  h.threw = threw ∧ w = h.view events

@[simp] theorem Handled.leaves_iff {h : Handled} {events : List (Bytes × List LuaArg)}
    {threw : Bool} {d : TClient} {es : List (Bytes × List LuaArg)} :
    h.Leaves events threw (d, es) ↔
      h.threw = threw ∧ d = h.client ∧ es = events ++ h.effects.filterMap Effect.event := by
  unfold Handled.Leaves Handled.view
  rw [Prod.mk.injEq]

@[simp] theorem Effect.event_triggerEvent (name : String) (args : List LuaArg) :
    (Effect.triggerEvent name args).event = some (ascii name, args) := rfl

@[simp] theorem Effect.event_sendToAll (self rel : Bool) (packet : Bytes) :
    (Effect.sendToAll self rel packet).event = none := rfl

@[simp] theorem Effect.event_respond (packet : Bytes) (rel : Bool) :
    (Effect.respond packet rel).event = none := rfl

theorem untracked_id (c : TClient) (vid : ℤ) :
    (if c.unicycleID = vid then c.setUnicycleID (-1) else c).id = c.id := by
  split_ifs <;> rfl

theorem shouldSpawn_id (lib : JsonText) (maxCars : ℤ) (c : TClient) (carJson : Bytes) (ident : ℤ) :
    (shouldSpawn lib maxCars c carJson ident).1.id = c.id := by
  unfold shouldSpawn
  split_ifs <;> rfl

namespace ServerM

variable {κ : Type} {env : ServerEnv κ}

theorem returns_compressLarge (hz : env.zlib.Lawful) (Data : Bytes) :
    Returns (compressLarge env Data) := by
  unfold compressLarge
  split_ifs
  · obtain ⟨y, hy, -⟩ := hz.exists_comp Data
    have hcompress : compressProperly env.zlib Data = some (ascii "ABG:" ++ y) := by
      simp [compressProperly, hy]
    rw [hcompress]
    exact returns_pure _
  · exact returns_pure Data

theorem returns_getClient (d : κ) : Returns (getClient d) :=
  returns_get.bind fun _ => returns_pure _

variable {c : κ} {d : TClient} {es : List (Bytes × List LuaArg)}

theorem fixes_view {α : Type} {m : ServerM κ α} (h : Fixes ServerState.core m) :
    Fixes (ServerState.view c) m := h.map (ServerState.view c)

theorem moves_getClient : Moves (ServerState.view c) (d, es) (getClient c)
    fun e w => e.toTClient = d ∧ w = (d, es) := by
  intro s hs
  exact ⟨s.client c, s, rfl, congrArg Prod.fst hs, hs⟩

theorem moves_orThrow_some {α : Type} (e : ServerException) (a : α) :
    Moves (ServerState.view c) (d, es) (orThrow e (some a)) fun b w => b = a ∧ w = (d, es) :=
  moves_pure ⟨rfl, rfl⟩

theorem moves_triggerEvent (name : Bytes) (args : List LuaArg) :
    Moves (ServerState.view c) (d, es) (triggerEvent env name args)
      fun _ w => w = (d, es ++ [(name, args)]) := by
  intro s hs
  refine ⟨_, _, rfl, ?_⟩
  have hd : (s.client c).toTClient = d := congrArg Prod.fst hs
  have hes : s.events = es := congrArg Prod.snd hs
  simp [ServerState.view, hd, hes]

/-- For some answers of Lua the computation ends as the function says. -/
def Agrees (c : κ) (d : TClient) (es : List (Bytes × List LuaArg)) (m : ServerM κ Unit)
    (handled : List LuaResult → Handled) : Prop :=
  Ends (ServerState.view c) (d, es) m fun threw w =>
    ∃ answers, (handled answers).Leaves es threw w

theorem agrees_of_ends {m : ServerM κ Unit} {h : Handled}
    (hm : Ends (ServerState.view c) (d, es) m (h.Leaves es)) : Agrees c d es m fun _ => h :=
  hm.mono fun _ _ hleaves => ⟨[], hleaves⟩

theorem Agrees.ite {p : Prop} [Decidable p] {m m' : ServerM κ Unit}
    {h h' : List LuaResult → Handled} (hm : Agrees c d es m h) (hm' : Agrees c d es m' h') :
    Agrees c d es (if p then m else m') fun answers => if p then h answers else h' answers := by
  split_ifs
  · exact hm
  · exact hm'

theorem ends_ifOwned {Packet : Bytes} {handler : ℤ → ServerM κ Unit}
    {R : Bool → TClient × List (Bytes × List LuaArg) → Prop}
    (hnone : ownedVehicle d (substr Packet 3 none) = none → R false (d, es))
    (hsome : ∀ VID, ownedVehicle d (substr Packet 3 none) = some VID →
      Ends (ServerState.view c) (d, es) (handler VID) R) :
    Ends (ServerState.view c) (d, es) (ifOwned c Packet handler) R := by
  refine Moves.bind_ends moves_getClient ?_
  rintro e w ⟨rfl, rfl⟩
  cases howned : ownedVehicle e.toTClient (substr Packet 3 none) with
  | none => exact ends_pure () (hnone howned)
  | some VID => exact hsome VID howned

variable [DecidableEq κ]

theorem returns_sent (d : κ) {sends : ServerState κ → Bool} :
    Returns
      (do
        let s ← get
        if sends s then pure true
        else do
          disconnectClient d
          pure false : ServerM κ Bool) := by
  apply returns_get.bind
  intro s
  split_ifs
  · exact returns_pure true
  · exact (returns_modify _).bind fun _ => returns_pure false

theorem returns_tcpSend (d : κ) (Data : Bytes) (IsSync : Bool) :
    Returns (tcpSend env d Data IsSync) := by
  apply (returns_getClient d).bind
  intro c
  cases BeamMP.tcpSend c.mIsSyncing Data IsSync with
  | enqueue Data => exact (returns_modify _).bind fun _ => returns_pure true
  | drop => exact returns_pure true
  | write ToSend => exact (returns_modify _).bind fun _ => returns_sent d

theorem returns_udpSend (hz : env.zlib.Lawful) (d : κ) (Data : Bytes) :
    Returns (udpSend env d Data) := by
  apply (returns_getClient d).bind
  intro c
  split_ifs
  · exact returns_pure true
  · apply (returns_compressLarge hz Data).bind
    intro Data
    exact (returns_modify _).bind fun _ => returns_sent d

theorem returns_respond (hz : env.zlib.Lawful) (d : κ) {MSG : Bytes} (hne : MSG ≠ [])
    (Rel isSync : Bool) : Returns (respond env d MSG Rel isSync) := by
  unfold respond
  cases MSG with
  | nil => exact absurd rfl hne
  | cons C rest =>
    dsimp only
    split_ifs
    · exact (returns_compressLarge hz _).bind fun _ => returns_tcpSend d _ isSync
    · exact returns_tcpSend d _ isSync
    · exact returns_udpSend hz d _

theorem returns_sendToClient (hz : env.zlib.Lawful) {Data : Bytes} (hne : Data ≠ []) (d : κ) :
    Returns (sendToClient env Data true d) := by
  obtain ⟨Packet, hroute⟩ := hz.exists_sendToAllRoute hne
  apply (returns_getClient d).bind
  intro c
  split_ifs
  · rw [hroute]
    exact returns_modify _
  · exact returns_pure ()

theorem returns_sendToAll (hz : env.zlib.Lawful) (c : Option κ) {Data : Bytes} (hne : Data ≠ [])
    (Self : Bool) : Returns (sendToAll env c Data Self true) := by
  unfold sendToAll
  rw [if_neg hne]
  apply returns_get.bind
  intro s
  apply returns_forM
  intro d
  split_ifs
  · exact returns_sendToClient hz hne d
  · exact returns_pure ()

theorem moves_sendToAll (hz : env.zlib.Lawful) (c' : Option κ) {Data : Bytes} (hne : Data ≠ [])
    (Self : Bool) : Moves (ServerState.view c) (d, es) (sendToAll env c' Data Self true)
      fun _ w => w = (d, es) :=
  (returns_sendToAll hz c' hne Self).moves (fixes_view (sendToAll_core env _ _ _ _))

theorem moves_respond (hz : env.zlib.Lawful) {MSG : Bytes} (hne : MSG ≠ []) (isSync : Bool) :
    Moves (ServerState.view c) (d, es) (respond env c MSG true isSync) fun _ w => w = (d, es) :=
  (returns_respond hz c hne true isSync).moves (fixes_view (respond_core env _ _ _ _))

theorem moves_updateVehicles (f : TClient → TClient) :
    Moves (ServerState.view c) (d, es) (updateVehicles c f) fun _ w => w = (f d, es) := by
  intro s hs
  refine ⟨_, _, rfl, ?_⟩
  have hd : (s.client c).toTClient = d := congrArg Prod.fst hs
  have hes : s.events = es := congrArg Prod.snd hs
  simp [ServerState.view, ServerState.update, hd, hes]

theorem moves_getCarData (ident : ℤ) :
    Moves (ServerState.view c) (d, es) (getCarData c ident)
      fun data w => data = (d.getCarData ident).1 ∧ w = ((d.getCarData ident).2, es) := by
  apply moves_getClient.bind
  rintro e w ⟨rfl, rfl⟩
  apply (moves_updateVehicles _).bind
  rintro _ w rfl
  exact moves_pure ⟨rfl, rfl⟩

theorem moves_apply (VID : ℤ) (pckt : Bytes) :
    Moves (ServerState.view c) (d, es) (apply env c VID pckt)
      fun _ w => w = (BeamMP.apply env.json d VID pckt, es) := by
  unfold apply BeamMP.apply
  cases find pckt '{' 0 with
  | none => exact moves_pure rfl
  | some FoundPos =>
    apply (moves_getCarData VID).bind
    rintro VD w ⟨rfl, rfl⟩
    dsimp only
    split_ifs
    · exact moves_pure rfl
    · cases env.json.parse (substr pckt FoundPos none) with
      | none => exact moves_pure rfl
      | some Pack => exact moves_updateVehicles _

theorem destroyPacket_ne_nil (pid vid : ℤ) : destroyPacket pid vid ≠ [] := by
  simp [destroyPacket, ascii]

theorem moves_shouldSpawn (CarJson : Bytes) (ident : ℤ) :
    Moves (ServerState.view c) (d, es) (shouldSpawn env c CarJson ident) fun should w =>
      should = (BeamMP.shouldSpawn env.json env.maxCars d CarJson ident).2 ∧
        w = ((BeamMP.shouldSpawn env.json env.maxCars d CarJson ident).1, es) := by
  apply moves_getClient.bind
  rintro e w ⟨rfl, rfl⟩
  apply (moves_updateVehicles _).bind
  rintro _ w rfl
  exact moves_pure ⟨rfl, rfl⟩

theorem moves_rejectSpawn (hz : env.zlib.Lawful) (d' : TClient) (CarID : ℤ) {Packet : Bytes}
    (hne : Packet ≠ []) :
    Moves (ServerState.view c) (d, es) (rejectSpawn env c d' CarID Packet) fun confirmed w =>
      confirmed = false ∧
        w = (d, es ++ [(ascii "onVehicleDeleted", [.int d'.id, .int CarID])]) := by
  apply (moves_respond hz hne false).bind
  rintro _ w rfl
  apply (moves_triggerEvent _ _).bind
  rintro _ w rfl
  apply (moves_respond hz (destroyPacket_ne_nil d'.id CarID) false).bind
  rintro _ w rfl
  exact moves_pure ⟨rfl, rfl⟩

theorem moves_confirmSpawn (hz : env.zlib.Lawful) (d' : TClient) (CarID : ℤ) (CarJson : Bytes)
    {Packet : Bytes} (hne : Packet ≠ []) (Futures : List LuaResult) :
    Moves (ServerState.view c) (d, es) (confirmSpawn env c d' CarID CarJson Packet Futures)
      fun confirmed w =>
        let (e, should) := BeamMP.shouldSpawn env.json env.maxCars d CarJson CarID
        match env.json.parse CarJson, should && !vetoed Futures with
        | some doc, true => confirmed = true ∧ w = (e.addNewCar CarID doc, es)
        | _, _ => confirmed = false ∧
            w = (e, es ++ [(ascii "onVehicleDeleted", [.int d'.id, .int CarID])]) := by
  unfold confirmSpawn
  apply (moves_shouldSpawn CarJson CarID).bind
  rintro should w ⟨rfl, rfl⟩
  cases env.json.parse CarJson with
  | none => exact moves_rejectSpawn hz d' CarID hne
  | some CarJsonDoc =>
    dsimp only
    cases (BeamMP.shouldSpawn env.json env.maxCars d CarJson CarID).2 && !vetoed Futures with
    | false => exact moves_rejectSpawn hz d' CarID hne
    | true =>
      apply (moves_updateVehicles _).bind
      rintro _ w rfl
      apply (moves_sendToAll hz none hne true).bind
      rintro _ w rfl
      exact moves_pure ⟨rfl, rfl⟩

/-- What the two ways to end an edit do, which also answer differently. -/
theorem moves_confirmEdit (hz : env.zlib.Lawful) (VID : ℤ) {Packet : Bytes} (hne : Packet ≠ [])
    (Futures : List LuaResult) :
    Moves (ServerState.view c) (d, es) (confirmEdit env c d VID Packet Futures) fun allowed w =>
      if (d.unicycleID ≠ VID ||
          isUnicycle env.json (substr Packet ((find Packet '{' 0).getD 0) none)) &&
          !vetoed Futures then
        allowed = true ∧ w = (BeamMP.apply env.json d VID Packet, es)
      else
        allowed = false ∧
          w = ((if d.unicycleID = VID then d.setUnicycleID (-1) else d).deleteCar VID,
            es ++ [(ascii "onVehicleDeleted", [.int d.id, .int VID])]) := by
  unfold confirmEdit
  dsimp only
  by_cases hallowed : (d.unicycleID ≠ VID ||
      isUnicycle env.json (substr Packet ((find Packet '{' 0).getD 0) none)) && !vetoed Futures
  · simp only [if_pos hallowed]
    apply (moves_sendToAll hz (some c) hne false).bind
    rintro _ w rfl
    apply (moves_apply VID Packet).bind
    rintro _ w rfl
    exact moves_pure ⟨rfl, rfl⟩
  · simp only [if_neg hallowed]
    apply (moves_updateVehicles _ : Moves _ _ (untrack c VID) _).bind
    rintro _ w rfl
    apply (moves_sendToAll hz none (destroyPacket_ne_nil d.id VID) true).bind
    rintro _ w rfl
    apply (moves_triggerEvent _ _).bind
    rintro _ w rfl
    apply (moves_updateVehicles _).bind
    rintro _ w rfl
    exact moves_pure ⟨rfl, rfl⟩

theorem agrees_parseSpawn (hz : env.zlib.Lawful) (Packet : Bytes) :
    Agrees c d es (parseSpawn env c Packet) fun answers =>
      BeamMP.parseSpawn env.json env.maxCars answers d Packet := by
  refine Moves.bind_ends moves_getClient ?_
  rintro e w ⟨rfl, rfl⟩
  refine Moves.bind_ends (moves_triggerEvent _ _) ?_
  rintro Futures w rfl
  refine Moves.bind_ends (moves_confirmSpawn hz e.toTClient _ _ (by simp [ascii]) Futures) ?_
  rintro confirmed ⟨e', es'⟩ hconfirmed
  refine Moves.bind_ends (moves_triggerEvent _ _) ?_
  rintro _ w rfl
  refine ends_pure () ⟨Futures, ?_⟩
  have hid := shouldSpawn_id env.json env.maxCars e.toTClient (substr Packet 5 none) e.getOpenCarID
  unfold BeamMP.parseSpawn
  dsimp only at hconfirmed ⊢
  cases hparse : env.json.parse (substr Packet 5 none) with
  | none =>
    simp only [hparse] at hconfirmed
    obtain ⟨rfl, h⟩ := hconfirmed
    cases h
    simp [List.filterMap_cons, hid]
  | some doc =>
    simp only [hparse] at hconfirmed
    cases hshould : (BeamMP.shouldSpawn env.json env.maxCars e.toTClient (substr Packet 5 none)
        e.getOpenCarID).2 && !vetoed Futures with
    | false =>
      simp only [hshould] at hconfirmed
      obtain ⟨rfl, h⟩ := hconfirmed
      cases h
      simp [List.filterMap_cons, hid]
    | true =>
      simp only [hshould] at hconfirmed
      obtain ⟨rfl, h⟩ := hconfirmed
      cases h
      simp [List.filterMap_cons]

theorem agrees_parseEdit (hz : env.zlib.Lawful) {Packet : Bytes} (hne : Packet ≠ []) :
    Agrees c d es (ifOwned c Packet (parseEdit env c Packet)) fun answers =>
      BeamMP.parseEdit env.json answers d Packet := by
  apply ends_ifOwned
  · intro howned
    refine ⟨[], ?_⟩
    unfold BeamMP.parseEdit
    simp [howned]
  intro VID howned
  refine Moves.bind_ends moves_getClient ?_
  rintro e w ⟨rfl, rfl⟩
  refine Moves.bind_ends (moves_triggerEvent _ _) ?_
  rintro Futures w rfl
  refine Moves.bind_ends (moves_confirmEdit hz VID hne Futures) ?_
  intro allowed w hw
  by_cases hallowed : (e.unicycleID ≠ VID ||
      isUnicycle env.json (substr Packet ((find Packet '{' 0).getD 0) none)) && !vetoed Futures
  · simp only [if_pos hallowed] at hw
    obtain ⟨rfl, rfl⟩ := hw
    refine Moves.bind_ends (moves_triggerEvent _ _) ?_
    rintro _ w rfl
    refine ends_pure () ⟨Futures, ?_⟩
    unfold BeamMP.parseEdit
    simp only [howned, if_pos hallowed]
    simp [List.filterMap_cons]
  · simp only [if_neg hallowed] at hw
    obtain ⟨rfl, rfl⟩ := hw
    refine Moves.bind_ends (moves_triggerEvent _ _) ?_
    rintro _ w rfl
    refine ends_pure () ⟨Futures, ?_⟩
    unfold BeamMP.parseEdit
    simp only [howned, if_neg hallowed]
    simp [List.filterMap_cons, untracked_id]

theorem ends_parseDelete (hz : env.zlib.Lawful) {Packet : Bytes} (hne : Packet ≠ []) :
    Ends (ServerState.view c) (d, es) (ifOwned c Packet (parseDelete env c Packet))
      ((BeamMP.parseDelete d Packet).Leaves es) := by
  apply ends_ifOwned
  · intro howned
    unfold BeamMP.parseDelete
    simp [howned]
  intro VID howned
  refine Moves.bind_ends moves_getClient ?_
  rintro e w ⟨rfl, rfl⟩
  refine Moves.bind_ends (moves_updateVehicles _ : Moves _ _ (untrack c VID) _) ?_
  rintro _ w rfl
  refine Moves.bind_ends (moves_sendToAll hz none hne true) ?_
  rintro _ w rfl
  refine Moves.bind_ends (moves_triggerEvent _ _) ?_
  rintro _ w rfl
  refine Moves.ends (moves_updateVehicles _) ?_
  rintro _ w rfl
  unfold BeamMP.parseDelete
  simp [howned, List.filterMap_cons, untracked_id]

theorem ends_parseReset (hz : env.zlib.Lawful) {Packet : Bytes} (hne : Packet ≠ []) :
    Ends (ServerState.view c) (d, es) (ifOwned c Packet (parseReset env c Packet))
      ((BeamMP.parseReset d Packet).Leaves es) := by
  apply ends_ifOwned
  · intro howned
    unfold BeamMP.parseReset
    simp [howned]
  intro VID howned
  refine Moves.bind_ends moves_getClient ?_
  rintro e w ⟨rfl, rfl⟩
  unfold BeamMP.parseReset
  simp only [howned]
  cases find (substr Packet 3 none) '{' 0 with
  | none => exact ends_pure () (by simp)
  | some BracketPos =>
    refine Moves.bind_ends (moves_triggerEvent _ _) ?_
    rintro _ w rfl
    refine Moves.ends (moves_sendToAll hz (some c) hne false) ?_
    rintro _ w rfl
    simp [List.filterMap_cons]

/-- A relay to the other clients shows nowhere in the client and the events. -/
theorem ends_relay (hz : env.zlib.Lawful) {Packet : Bytes} (hne : Packet ≠ []) :
    Ends (ServerState.view c) (d, es) (sendToAll env (some c) Packet false true)
      (Handled.Leaves { client := d, effects := [.sendToAll false true Packet] } es) := by
  refine Moves.ends (moves_sendToAll hz (some c) hne false) ?_
  rintro _ w rfl
  simp

theorem ends_parseTransfer (hz : env.zlib.Lawful) {Packet : Bytes} (hne : Packet ≠ []) :
    Ends (ServerState.view c) (d, es)
      (ifOwned c Packet fun _ => sendToAll env (some c) Packet false true)
      ((BeamMP.parseTransfer d Packet).Leaves es) := by
  apply ends_ifOwned
  · intro howned
    unfold parseTransfer
    simp [howned]
  intro VID howned
  unfold parseTransfer
  simp only [howned]
  exact ends_relay hz hne

theorem ends_parsePaint (hz : env.zlib.Lawful) {Packet : Bytes} (hne : Packet ≠ []) :
    Ends (ServerState.view c) (d, es) (ifOwned c Packet (parsePaint env c Packet))
      ((BeamMP.parsePaint env.json d Packet).Leaves es) := by
  apply ends_ifOwned
  · intro howned
    unfold BeamMP.parsePaint
    simp [howned]
  intro VID howned
  refine Moves.bind_ends moves_getClient ?_
  rintro e w ⟨rfl, rfl⟩
  unfold BeamMP.parsePaint
  simp only [howned, TClient.getCarData_snd]
  cases find (substr Packet 3 none) '[' 0 with
  | none => exact ends_pure () (by simp)
  | some BracketPos =>
    refine Moves.bind_ends (moves_triggerEvent _ _) ?_
    rintro _ w rfl
    refine Moves.bind_ends (moves_sendToAll hz (some c) hne false) ?_
    rintro _ w rfl
    refine Moves.bind_ends (moves_getCarData VID) ?_
    rintro CarData w ⟨rfl, rfl⟩
    simp only [TClient.getCarData_snd]
    split_ifs
    · exact ends_pure () (by simp)
    · cases paintTarget (e.getCarData VID).1 with
      | none => exact ends_pure () (by simp)
      | some vcf =>
        dsimp only
        cases env.json.parse (substr (substr Packet 3 none) BracketPos none) with
        | none => exact ends_throw _ (by simp)
        | some paints =>
          refine Moves.bind_ends (moves_orThrow_some .json paints) ?_
          rintro _ w ⟨rfl, rfl⟩
          refine Moves.ends (moves_updateVehicles _) ?_
          rintro _ w rfl
          simp

/-- Where zlib works, `ParseVehicle` ends as the function of the client says, for some
answers of Lua. -/
theorem parseVehicle_agrees (hz : env.zlib.Lawful) (Pckt : Bytes) :
    Agrees c d es (parseVehicle env c Pckt) fun answers =>
      BeamMP.parseVehicle env.json env.maxCars answers d Pckt := by
  have hskip : Agrees c d es (pure () : ServerM κ Unit) fun _ => { client := d } :=
    agrees_of_ends (ends_pure () (by simp))
  unfold parseVehicle BeamMP.parseVehicle
  match Pckt with
  | [] | [_] | [_, _] | [_, _, _] | [_, _, _, _] | [_, _, _, _, _] => exact hskip
  | C :: Code :: Colon :: Spawn :: fifth :: sixth :: rest =>
    have hne : C :: Code :: Colon :: Spawn :: fifth :: sixth :: rest ≠ [] := List.cons_ne_nil _ _
    refine .ite (.ite (agrees_parseSpawn hz _) hskip) ?_
    refine .ite (agrees_parseEdit hz hne) ?_
    refine .ite (agrees_of_ends (ends_parseDelete hz hne)) ?_
    refine .ite (agrees_of_ends (ends_parseReset hz hne)) ?_
    refine .ite (agrees_of_ends (ends_parseTransfer hz hne)) ?_
    refine .ite (agrees_of_ends (ends_relay hz hne)) ?_
    exact .ite (agrees_of_ends (ends_parsePaint hz hne)) hskip

/-- On the server a vehicle packet changes the vehicles of its sender in one of the listed
ways. -/
theorem parseVehicle_change (hz : env.zlib.Lawful) (Pckt : Bytes) (s : ServerState κ) :
    ∃ answers, VehicleChange env.json env.maxCars (s.client c).toTClient (.packet Pckt answers)
      ((final (parseVehicle env c Pckt) s).client c).toTClient := by
  obtain ⟨answers, -, hview⟩ := parseVehicle_agrees hz Pckt s rfl
  have hclient : ((final (parseVehicle env c Pckt) s).client c).toTClient =
      (BeamMP.parseVehicle env.json env.maxCars answers (s.client c).toTClient Pckt).client :=
    congrArg Prod.fst hview
  refine ⟨answers, ?_⟩
  rw [hclient]
  exact BeamMP.parseVehicle_change

end ServerM
end BeamMP
