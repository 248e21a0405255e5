import BeamMP.Server.ServerRuns
import BeamMP.Server.VehicleRoster

/-!
# The vehicles that plugins know of

Clients cannot trigger `postVehicleSpawn` and `onVehicleDeleted` themselves, and an ID is free
again only after the vehicles under it are gone: the roster of the server is sound in every
reachable state.
-/
namespace BeamMP

open Bytes Observables Replay

section Server

variable {κ : Type}

/-- A limit of cars below zero is as good as none at all. -/
def ServerEnv.carLimit (env : ServerEnv κ) : ℤ := max env.maxCars 0

theorem ServerEnv.carLimit_nonneg (env : ServerEnv κ) : 0 ≤ env.carLimit := le_max_right _ _

def TClient.withoutPositions (c : TClient) : TClient := { c with vehiclePosition := fun _ => none }

def ServerState.roster (s : ServerState κ) : Roster κ where
  clients := s.clients
  client d := (s.client d).withoutPositions
  told := toldVehicles s.events

theorem roster_client (s : ServerState κ) (d : κ) :
    s.roster.client d = (s.client d).withoutPositions := rfl

/-- What only calls for `c` cannot change. -/
def ServerState.others (s : ServerState κ) (c : κ) : List κ × ℤ × ({ d // d ≠ c } → TClient) :=
  (s.clients, (s.client c).id, fun d => (s.client d).toTClient)

variable {s t : ServerState κ} {c : κ}

theorem clients_of_others (h : t.others c = s.others c) : t.clients = s.clients :=
  congrArg Prod.fst h

theorem id_of_others (h : t.others c = s.others c) : (t.client c).id = (s.client c).id :=
  congrArg (fun o => o.2.1) h

theorem roster_client_of_others (h : t.others c = s.others c) {d : κ} (hd : d ≠ c) :
    t.roster.client d = s.roster.client d := by
  have hclient : (t.client d).toTClient = (s.client d).toTClient :=
    congrFun (congrArg (fun o => o.2.2) h) ⟨d, hd⟩
  rw [roster_client, roster_client, hclient]

variable [DecidableEq κ] {env : ServerEnv κ}

theorem frame_roster : Frame (ServerState.roster : ServerState κ → Roster κ) where
  core s t h := by
    have hroster : s.core.roster = t.core.roster := by rw [h]
    exact hroster
  pps _ _ := rfl
  flags s c g hg := by
    unfold ServerState.roster
    simp only [toTClient_of_flags s c hg]
    rfl
  event s e he := by
    unfold ServerState.roster toldVehicles
    rw [told_append, List.foldl_cons, tell_of_unmarked he]
    rfl

theorem frameBut_others (c : κ) : FrameBut c fun s : ServerState κ => s.others c where
  core s t h := by
    have hothers : s.core.others c = t.core.others c := by rw [h]
    exact hothers
  pps _ _ := rfl
  flags s d g hg := by
    unfold ServerState.others
    simp only [toTClient_of_flags s d hg]
    rfl
  event _ _ _ := rfl
  events _ _ := rfl
  vehicles s g hg := by
    have hclient : ∀ d : { d // d ≠ c },
        ((s.update c fun d => { d with toTClient := g d.toTClient }).client d).toTClient =
          (s.client d).toTClient := by
      intro d
      rw [s.update_of_ne d.property]
    unfold ServerState.others
    simp only [hclient, s.update_self, hg]
    rfl

omit [DecidableEq κ] in
theorem registered_of_sound {maxCars : ℤ} (hs : s.roster.Sound maxCars) (hc : c ∈ s.clients) :
    (s.client c).Registered maxCars :=
  (hs.registered c hc).congr rfl rfl rfl

omit [DecidableEq κ] in
/-- A handler whose events tell what it does to the vehicles of its client. -/
theorem sound_of_handled (hs : s.roster.Sound env.carLimit) (hc : c ∈ s.clients)
    (hothers : t.others c = s.others c) {h : Handled} (hview : t.view c = h.view s.events)
    (htells : h.Tells (s.client c).toTClient) {op : VehicleOp}
    (hchange : VehicleChange env.json env.maxCars (s.client c).toTClient op h.client)
    (hunnamed : (s.client c).id = -1 → h.client.vehicleIDs = []) :
    t.roster.Sound env.carLimit := by
  have hclient : (t.client c).toTClient = h.client := congrArg Prod.fst hview
  have hevents : t.events = s.events ++ h.effects.filterMap Effect.event := congrArg Prod.snd hview
  have hregistered : (s.client c).Registered env.carLimit := registered_of_sound hs hc
  have hids : (t.roster.client c).vehicleIDs = h.client.vehicleIDs := by
    rw [← hclient]
    rfl
  have hunicycle : (t.roster.client c).unicycleID = h.client.unicycleID := by
    rw [← hclient]
    rfl
  have hid : (t.roster.client c).id = (s.client c).id := id_of_others hothers
  apply hs.change hc (clients_of_others hothers)
    (fun d hd => roster_client_of_others hothers hd) hid
  · constructor
    · exact hid ▸ hregistered.known
    · exact (hchange.tableWellFormed hregistered.table).of_vehicleIDs_eq hids
    · rw [TClient.getCarCount_congr hids hunicycle]
      exact hchange.getCarCount_le hregistered.table (le_max_left _ _) hregistered.counted
    · rw [hid, hids]
      exact hunnamed
  · have htold : t.roster.told =
        (h.effects.filterMap Effect.event).foldl (tell vehicleMark) s.roster.told := by
      have happend : toldVehicles (s.events ++ h.effects.filterMap Effect.event) =
          (h.effects.filterMap Effect.event).foldl (tell vehicleMark) (toldVehicles s.events) :=
        told_append
      rw [← hevents] at happend
      exact happend
    rw [hids, htold]
    exact htells s.roster.told (hs.row hc)

theorem setCarPosition_roster (c : κ) (Packet : Bytes) :
    Fixes ServerState.roster (ServerM.handlePosition c Packet) := by
  unfold ServerM.handlePosition
  cases parsePositionPacket Packet with
  | none => exact fixes_pure ()
  | some parsed =>
    apply fixes_modify
    intro s
    have hclient : ∀ d, ((s.update c fun d =>
        { d with toTClient := d.setCarPosition parsed.VID parsed.Data }).client
          d).withoutPositions = (s.client d).withoutPositions := by
      intro d
      by_cases hd : d = c
      · rw [hd, s.update_self]
        rfl
      · rw [s.update_of_ne hd]
    unfold ServerState.roster
    simp only [hclient]
    rfl

/-- Nothing but a vehicle packet over TCP changes a vehicle table. -/
theorem globalParser_roster (c : κ) (Packet : Bytes) (udp : Bool) :
    Fixes ServerState.roster (ServerM.globalParser env c Packet udp) ∨
      udp = false ∧ ∃ data, ServerM.globalParser env c Packet udp =
        ServerM.parseVehicle env c data := by
  unfold ServerM.globalParser
  cases decodePacket env.zlib Packet with
  | error e => exact Or.inl (frame_roster.fixes (ServerM.clientKick_core env c _))
  | ok data =>
    dsimp only
    unfold ServerM.dispatch
    cases data with
    | nil => exact Or.inl (fixes_pure ())
    | cons Code rest =>
      dsimp only
      split_ifs with _ _ _ _ _ hudp
      · exact Or.inl (frame_roster.relayVehiclePacket c _)
      · exact Or.inl (fixes_pure ())
      · exact Or.inl (frame_roster.syncClient c)
      · exact Or.inl (frame_roster.fixes (ServerM.ping_core env c))
      · exact Or.inl (fixes_pure ())
      · exact Or.inr ⟨by simpa using hudp, _, rfl⟩
      · exact Or.inl (fixes_pure ())
      · exact Or.inl (frame_roster.chatPacket c _)
      · exact Or.inl (fixes_pure ())
      · exact Or.inl (frame_roster.handleEvent c _)
      · exact Or.inl (frame_roster.sendToAll _ _ _ _)
      · exact Or.inl (ServerM.fixes_positionPacket env frame_roster.incrementInternalPPS
          (frame_roster.sendToAll _ _ _ _) (setCarPosition_roster c _))
      · exact Or.inl (fixes_pure ())

theorem parseVehicle_sound (hz : env.zlib.Lawful) (hs : s.roster.Sound env.carLimit)
    (hc : c ∈ s.clients) (hnamed : 0 ≤ (s.client c).id) (data : Bytes) :
    (final (ServerM.parseVehicle env c data) s).roster.Sound env.carLimit := by
  have hwf : (s.client c).TableWellFormed := (registered_of_sound hs hc).table
  obtain ⟨answers, -, hview⟩ := ServerM.parseVehicle_agrees hz data s rfl
  apply sound_of_handled hs hc ((frameBut_others c).parseVehicle data s) hview
  · exact parseVehicle_tells hwf
  · exact parseVehicle_change
  · intro hnone
    omega

theorem receive_sound (hz : env.zlib.Lawful) (hs : s.roster.Sound env.carLimit)
    (hc : c ∈ s.clients) (hnamed : 0 ≤ (s.client c).id) (Packet : Bytes) :
    (final (ServerM.receive env c Packet) s).roster.Sound env.carLimit := by
  have hcatch : (final (ServerM.receive env c Packet) s).roster =
      (final (ServerM.globalParser env c Packet false) s).roster :=
    final_tryCatch (fun _ => frame_roster.fixes (ServerM.disconnectClient_core c)) s
  rw [hcatch]
  rcases globalParser_roster c Packet false with hfixes | ⟨-, data, hparse⟩
  · rw [hfixes s]
    exact hs
  · rw [hparse]
    exact parseVehicle_sound hz hs hc hnamed data

theorem moves_removeVehicleOf (hz : env.zlib.Lawful) {d : TClient}
    {es : List (Bytes × List LuaArg)} {PID : ℤ} (hid : d.id = PID) (VID : ℤ) :
    Moves (ServerState.view c) (d, es) (ServerM.removeVehicleOf env PID VID c)
      fun _ w => w = (removeVehicle d VID).1.view es := by
  unfold removeVehicle
  apply (ServerM.moves_getCarData VID).bind
  rintro data w ⟨rfl, rfl⟩
  simp only [TClient.getCarData_snd]
  split_ifs
  · exact moves_pure (by simp [Handled.view])
  · apply (ServerM.moves_triggerEvent _ _).bind
    rintro _ w rfl
    apply (ServerM.moves_sendToAll hz none (ServerM.destroyPacket_ne_nil PID VID) true).bind
    rintro _ w rfl
    apply (ServerM.moves_updateVehicles _).bind
    rintro _ w rfl
    exact moves_pure (by simp [Handled.view, List.filterMap_cons, hid])

theorem removeVehicle_vehicleIDs {d : TClient} (h : d.vehicleIDs = []) (VID : ℤ) :
    (removeVehicle d VID).1.client.vehicleIDs = [] := by
  simp only [removeVehicle, TClient.getCarData_snd]
  split_ifs
  · exact h
  · rw [TClient.deleteCar_vehicleIDs, h]
    rfl

theorem removeVehicle_sound (hz : env.zlib.Lawful) (hs : s.roster.Sound env.carLimit)
    (PID VID : ℤ) : (final (ServerM.removeVehicle env PID VID) s).roster.Sound env.carLimit := by
  have hread : ServerM.findClient PID s = .ok (s.clients.find? fun e => (s.client e).id = PID) s :=
    rfl
  unfold ServerM.removeVehicle
  rw [final_bind, hread]
  dsimp only
  cases hfound : s.clients.find? fun e => (s.client e).id = PID with
  | none => exact hs
  | some e =>
    have hid : (s.client e).id = PID := by simpa using List.find?_some hfound
    have hmem : e ∈ s.clients := List.mem_of_find?_eq_some hfound
    have hregistered : (s.client e).Registered env.carLimit := registered_of_sound hs hmem
    have hothers : (final (ServerM.removeVehicleOf env PID VID e) s).others e = s.others e :=
      (frameBut_others e).removeVehicleOf PID VID s
    obtain ⟨answer, t, ht, hview⟩ := moves_removeVehicleOf hz hid VID s rfl
    have hfinal : final (ServerM.removeVehicleOf env PID VID e) s = t := by
      unfold final
      rw [ht]
    rw [hfinal] at hothers
    dsimp only
    rw [hfinal]
    apply sound_of_handled hs hmem hothers hview (removeVehicle_tells hregistered.table VID)
      (removeVehicle_change VID)
    intro hnone
    exact removeVehicle_vehicleIDs (hregistered.unnamed hnone) VID

/-- The event for one vehicle of a player that leaves. -/
def vehicleGoneEvent (PID : ℤ) (v : VehicleData) : Bytes × List LuaArg :=
  (ascii "onVehicleDeleted", [.int PID, .int v.id])

theorem moves_vehiclesGone (hz : env.zlib.Lawful) {d : TClient}
    {es : List (Bytes × List LuaArg)} (PID : ℤ) (vehicles : List VehicleData) :
    Moves (ServerState.view c) (d, es) (vehicles.forM (ServerM.vehicleGone env c PID))
      fun _ w => w = (d, es ++ vehicles.map (vehicleGoneEvent PID)) := by
  induction vehicles generalizing es with
  | nil => exact moves_pure (by simp)
  | cons v vehicles ih =>
    have hgone : Moves (ServerState.view c) (d, es) (ServerM.vehicleGone env c PID v)
        fun _ w => w = (d, es ++ [vehicleGoneEvent PID v]) := by
      apply (ServerM.moves_triggerEvent _ _).bind
      rintro _ w rfl
      exact ServerM.moves_sendToAll hz (some c) (ServerM.destroyPacket_ne_nil PID v.id) false
    apply hgone.bind
    rintro _ w rfl
    have hrest := @ih (es ++ [vehicleGoneEvent PID v])
    simpa using hrest

theorem moves_farewell (hz : env.zlib.Lawful) {d : TClient} {es : List (Bytes × List LuaArg)} :
    Moves (ServerState.view c) (d, es) (ServerM.farewell env c) fun _ w =>
      w = (d, es ++ d.vehicleData.map (vehicleGoneEvent d.id) ++
        [(ascii "onPlayerDisconnect", [.int d.id])]) := by
  apply ServerM.moves_getClient.bind
  rintro e w ⟨rfl, rfl⟩
  apply (moves_vehiclesGone hz _ _).bind
  rintro _ w rfl
  apply (ServerM.moves_sendToAll hz (some c) (by simp [ascii]) false).bind
  rintro _ w rfl
  apply (ServerM.moves_triggerEvent _ _).bind
  rintro _ w rfl
  have hreturns : Returns (ServerM.disconnectClient c) := returns_modify _
  exact hreturns.moves (ServerM.fixes_view (ServerM.disconnectClient_core c))

theorem removeClient_sound (hs : s.roster.Sound env.carLimit) (hc : c ∈ s.clients)
    (hothers : t.others c = s.others c)
    (htold : RowIs (s.client c).id [] s.roster.told t.roster.told) :
    (final (ServerM.removeClient c) t).roster.Sound env.carLimit := by
  have hfinal : final (ServerM.removeClient c) t =
      { t.update c fun d => { d with toTClient := d.clearCars } with
        clients := t.clients.filter (· ≠ c) } := rfl
  rw [hfinal]
  apply hs.leave hc
  · intro d
    have hclients := clients_of_others hothers
    simp [ServerState.roster, hclients]
  · intro d hd
    rw [← roster_client_of_others hothers hd]
    rw [roster_client, roster_client]
    dsimp only
    rw [t.update_of_ne hd]
  · exact htold

theorem onDisconnect_sound (hz : env.zlib.Lawful) (hs : s.roster.Sound env.carLimit)
    (hc : c ∈ s.clients) : (final (ServerM.onDisconnect env c) s).roster.Sound env.carLimit := by
  have hothers : (final (ServerM.farewell env c) s).others c = s.others c :=
    (frameBut_others c).farewell s
  obtain ⟨answer, t, ht, hview⟩ := moves_farewell hz s rfl
  have hfinal : final (ServerM.farewell env c) s = t := by
    unfold final
    rw [ht]
  rw [hfinal] at hothers
  unfold ServerM.onDisconnect
  rw [final_bind, ht]
  apply removeClient_sound hs hc hothers
  have hevents : t.events = s.events ++ (s.client c).vehicleData.map (vehicleGoneEvent
      (s.client c).id) ++ [(ascii "onPlayerDisconnect", [.int (s.client c).id])] :=
    congrArg Prod.snd hview
  have htold : t.roster.told = ((s.client c).vehicleData.map (vehicleGoneEvent
      (s.client c).id)).foldl (tell vehicleMark) s.roster.told := by
    unfold ServerState.roster toldVehicles
    dsimp only
    rw [hevents, told_append, told_append, List.foldl_cons, List.foldl_nil]
    exact tell_of_unmarked rfl
  have hgone : ∀ w ∈ (s.client c).vehicleData, vehicleMark (vehicleGoneEvent (s.client c).id w) =
      some (((s.client c).id, w.id), false) := fun _ _ => rfl
  rw [htold]
  intro p v
  rw [mem_foldl_tell_erased hgone]
  split_ifs with hp
  · constructor
    · rintro ⟨hmem, hnot⟩
      rw [hp] at hmem hnot
      have hv : v ∈ (s.client c).vehicleIDs := (hs.row hc v).mp hmem
      obtain ⟨w, hw, rfl⟩ := List.mem_map.mp hv
      exact absurd rfl (hnot w hw)
    · exact fun hv => absurd hv List.not_mem_nil
  · constructor
    · exact And.left
    · exact fun hmem => ⟨hmem, fun w _ heq => hp (congrArg Prod.fst heq).symm⟩

theorem insertClient_sound (hs : s.roster.Sound env.carLimit)
    (hc : c ∉ s.clients) (name role : Bytes) {order : List κ}
    (horder : order.Perm (c :: s.clients)) :
    (final (ServerM.insertClient c name role order) s).roster.Sound env.carLimit := by
  have hfinal : final (ServerM.insertClient c name role order) s =
      ({ s with clients := order } : ServerState κ).update c fun _ =>
        { TClient.fresh name role (-1) with } := rfl
  rw [hfinal]
  apply hs.join env.carLimit_nonneg hc (fun d => horder.mem_iff.trans List.mem_cons)
  · intro d hd
    rw [roster_client, ServerState.update_of_ne _ hd]
    rfl
  · rw [roster_client, ServerState.update_self]
    rfl
  · rw [roster_client, ServerState.update_self]
    rfl
  · rfl

theorem named_sound (hs : s.roster.Sound env.carLimit)
    (hc : c ∈ s.clients) (hnone : (s.client c).id = -1) {ID : ℕ}
    (hfree : (ID : ℤ) ∉ s.clients.map fun d => (s.client d).id) :
    (s.update c fun d =>
      { d with toTClient := { d.toTClient with id := ID } }).roster.Sound env.carLimit := by
  apply hs.name env.carLimit_nonneg hc
  · rfl
  · intro d hd
    rw [roster_client, s.update_of_ne hd, roster_client]
  · exact hnone
  · rw [roster_client, s.update_self]
    exact Int.natCast_nonneg ID
  · intro d hd
    rw [roster_client _ c, s.update_self]
    exact fun heq => hfree (List.mem_map.mpr ⟨d, hd, heq⟩)
  · rw [roster_client, s.update_self]
    rfl
  · rfl

theorem onConnect_sound (hs : s.roster.Sound env.carLimit)
    (hc : c ∈ s.clients) (hnone : (s.client c).id = -1) :
    (final (ServerM.onConnect env c) s).roster.Sound env.carLimit := by
  rw [frame_roster.onConnect c s]
  exact named_sound hs hc hnone (RestartScan.leastUnused_not_mem _ _)

/-- As `quietEnv`, with a JSON library that knows the configurations of `sampleJson`. -/
def sampleEnv : ServerEnv Bool := { quietEnv with json := sampleJson }

/-- Two clients join and spawn a vehicle each, and the first one deletes its own. -/
def twoSpawns : List (ServerCall Bool) :=
  [.insertClient true [] [] [true], .onConnect true, .insertClient false [] [] [true, false],
    .onConnect false, .receive true (ascii "Os:0:\x7b\x7d"),
    .receive false (ascii "Os:0:\x7b\x7d"), .receive true (ascii "Od:0-0")]

namespace ServerCall

theorem step_sound (hz : env.zlib.Lawful) {a : ServerCall κ}
    (hs : s.roster.Sound env.carLimit) (hstep : step env s a = some t) :
    t.roster.Sound env.carLimit := by
  have hframe : ∀ m : ServerM κ Unit, Fixes ServerState.roster m →
      (final m s).roster.Sound env.carLimit := by
    intro m hm
    rw [hm s]
    exact hs
  unfold step at hstep
  split_ifs at hstep with henabled
  cases hstep
  cases a with
  | insertClient c name role order =>
    obtain ⟨hc, horder⟩ : c ∉ s.clients ∧ order.isPerm (c :: s.clients) = true := by
      simpa [enabled] using henabled
    exact insertClient_sound hs hc name role (List.isPerm_iff.mp horder)
  | onConnect c =>
    obtain ⟨hc, hnone⟩ : c ∈ s.clients ∧ (s.client c).id = -1 := by simpa [enabled] using henabled
    exact onConnect_sound hs hc hnone
  | resourcesSynced c random Map => exact hframe _ (frame_roster.resourcesSynced c random Map)
  | receive c Packet =>
    obtain ⟨hc, hnamed⟩ : c ∈ s.clients ∧ 0 ≤ (s.client c).id := by
      simpa [enabled] using henabled
    exact receive_sound hz hs hc hnamed Packet
  | bindUDP c => exact hframe _ (frame_roster.updateClient c fun _ => rfl)
  | receiveUDP c Packet =>
    rcases globalParser_roster c Packet true with hfixes | ⟨hudp, -⟩
    · exact hframe _ hfixes
    · cases hudp
  | looper c => exact hframe _ (frame_roster.fixes (looper_core c))
  | disconnectClient c => exact hframe _ (frame_roster.fixes (ServerM.disconnectClient_core c))
  | removeClient c =>
    obtain ⟨hc, hnone⟩ : c ∈ s.clients ∧ (s.client c).id = -1 := by simpa [enabled] using henabled
    have hempty : (s.client c).vehicleIDs = [] := (registered_of_sound hs hc).unnamed hnone
    apply removeClient_sound hs hc rfl
    have hrow := RowIs.refl (hs.row hc)
    exact hempty ▸ hrow
  | onDisconnect c =>
    obtain ⟨hc, -⟩ : c ∈ s.clients ∧ 0 ≤ (s.client c).id := by simpa [enabled] using henabled
    exact onDisconnect_sound hz hs hc
  | message a => exact hframe _ (frame_roster.message a)
  | removeVehicle PID VID =>
    unfold run
    rw [final_discard]
    exact removeVehicle_sound hz hs PID VID

omit [DecidableEq κ] in
theorem start_sound {maxCars : ℤ} : (ServerState.start κ).roster.Sound maxCars where
  registered _ hc := absurd hc List.not_mem_nil
  alone _ hc := absurd hc List.not_mem_nil
  told p v := by
    have hnone : (p, v) ∉ (ServerState.start κ).roster.told := Finset.notMem_empty _
    constructor
    · exact fun hmem => absurd hmem hnone
    · rintro ⟨c, hc, -⟩
      exact absurd hc List.not_mem_nil

theorem run_sound (hz : env.zlib.Lawful) {calls : List (ServerCall κ)}
    (hrun : Execution.run (step env) (ServerState.start κ) calls = some s) :
    s.roster.Sound env.carLimit :=
  Execution.run_invariant_of_step (I := fun s : ServerState κ => s.roster.Sound env.carLimit)
    (fun _ _ _ hs hstep => step_sound hz hs hstep) start_sound hrun

/-- In every reachable state the events tell exactly which vehicles there are: a plugin that
listens to `postVehicleSpawn` and `onVehicleDeleted` knows the vehicle tables of all players. -/
theorem plugins_know_vehicles (env : ServerEnv κ) (hz : env.zlib.Lawful)
    (calls : List (ServerCall κ)) (s : ServerState κ)
    (hrun : Execution.run (step env) (ServerState.start κ) calls = some s) (PID VID : ℤ) :
    (PID, VID) ∈ toldVehicles s.events ↔
      ∃ c ∈ s.clients, (s.client c).id = PID ∧ VID ∈ (s.client c).vehicleIDs := by
  exact (run_sound hz hrun).told PID VID

theorem plugins_know_vehicles_sample :
    ∃ s, Execution.run (step sampleEnv) (ServerState.start Bool) twoSpawns = some s ∧
      ((1, 0) ∈ toldVehicles s.events ↔
        ∃ c ∈ s.clients, (s.client c).id = 1 ∧ 0 ∈ (s.client c).vehicleIDs) ∧
      (s.client false).id = 1 ∧ (s.client false).vehicleIDs = [0] :=
  ⟨_, rfl, plugins_know_vehicles sampleEnv storingZlib_lawful twoSpawns _ rfl 1 0,
    by decide, by decide⟩

/-- In every reachable state the header of a vehicle packet names at most one vehicle of all
players, and the count of every player keeps to the limit of cars: the unicycle, and whatever is
under its ID, is not counted. -/
theorem header_names_one_vehicle (env : ServerEnv κ) (hz : env.zlib.Lawful)
    (calls : List (ServerCall κ)) (s : ServerState κ)
    (hrun : Execution.run (step env) (ServerState.start κ) calls = some s) :
    (∀ c ∈ s.clients, ∀ d ∈ s.clients, ∀ v ∈ (s.client c).vehicleData,
      ∀ w ∈ (s.client d).vehicleData, (s.client c).id = (s.client d).id → v.id = w.id →
        c = d ∧ v = w) ∧
    ∀ c ∈ s.clients, (s.client c).getCarCount ≤ max env.maxCars 0 ∧
      (s.client c).vehicleData.length ≤ max env.maxCars 0 + 1 := by
  have hsound : s.roster.Sound env.carLimit := run_sound hz hrun
  constructor
  · intro c hc d hd v hv w hw hid hvid
    have hmem : v.id ∈ (s.client c).vehicleIDs := List.mem_map_of_mem hv
    obtain rfl : c = d := hsound.eq_of_mem hd hc hid hmem
    have hnodup : ((s.client c).vehicleData.map VehicleData.id).Nodup :=
      (registered_of_sound hsound hc).table.nodup
    exact ⟨rfl, List.inj_on_of_nodup_map hnodup hv hw hvid⟩
  · intro c hc
    have hcount : (s.client c).getCarCount ≤ max env.maxCars 0 :=
      (registered_of_sound hsound hc).counted
    have hbounds := (s.client c).getCarCount_bounds
    exact ⟨hcount, by omega⟩

theorem header_names_one_vehicle_sample :
    ∃ s, Execution.run (step sampleEnv) (ServerState.start Bool) twoSpawns = some s ∧
      (∀ c ∈ s.clients, ∀ d ∈ s.clients, ∀ v ∈ (s.client c).vehicleData,
        ∀ w ∈ (s.client d).vehicleData, (s.client c).id = (s.client d).id → v.id = w.id →
          c = d ∧ v = w) ∧
      ∀ c ∈ s.clients, (s.client c).getCarCount ≤ max sampleEnv.maxCars 0 ∧
        (s.client c).vehicleData.length ≤ max sampleEnv.maxCars 0 + 1 :=
  ⟨_, rfl, header_names_one_vehicle sampleEnv storingZlib_lawful twoSpawns _ rfl⟩

end ServerCall

end Server
end BeamMP
