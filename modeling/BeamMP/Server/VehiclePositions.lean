import BeamMP.Server.PositionPackets
import BeamMP.Server.UnicycleTracking

/-!
# The positions of vehicles

`mVehiclePosition` is filled by position packets and read by Lua. Nothing takes an
entry out of it again, and a position packet is accepted for any ID. The times at
which vehicles are spawned and positions are received are not in the code; they
are kept beside the client to say which vehicle a stored position is about.
-/
namespace BeamMP

open Bytes Execution

variable (lib : JsonText) (maxCars : ℤ)

def editAllowed (answers : List LuaResult) (c : TClient) (packet : Bytes) (vid : ℤ) : Bool :=
  let foundPos := (find packet '{' 0).getD 0
  (c.unicycleID ≠ vid || isUnicycle lib (substr packet foundPos none)) && !vetoed answers

/-- The vehicle that a packet asks to be taken from the table: one of an `Od` packet, or of an
`Oc` packet that is not allowed. -/
def deletedByPacket (answers : List LuaResult) (c : TClient) (pckt : Bytes) : Option ℤ :=
  match pckt with
  | _ :: code :: _ :: _ :: _ :: _ :: _ =>
    if code = 'c'.toUInt8 then
      (ownedVehicle c (substr pckt 3 none)).filter fun vid => !editAllowed lib answers c pckt vid
    else if code = 'd'.toUInt8 then ownedVehicle c (substr pckt 3 none)
    else none
  | _ => none

/-- `MP.RemoveVehicle` takes away a vehicle that has data. -/
def deletedVehicle (c : TClient) : VehicleOp → Option ℤ
  | .packet pckt answers => deletedByPacket lib answers c pckt
  | .removeVehicle vid => if (c.getCarData vid).1.isNull then none else some vid

variable {lib maxCars} {c : TClient} {pckt : Bytes} {answers : List LuaResult}

/-- The IDs after an operation: the deleted vehicle is gone, otherwise the table is as it was
or has one more vehicle. -/
inductive IDsAfter (c : TClient) : Option ℤ → List ℤ → Prop
  | same : IDsAfter c none c.vehicleIDs
  | spawned : IDsAfter c none (c.vehicleIDs ++ [c.getOpenCarID])
  | deleted (vid : ℤ) : IDsAfter c (some vid) (c.vehicleIDs.erase vid)

theorem IDsAfter.of_eq {c' : TClient} (h : c'.vehicleIDs = c.vehicleIDs) :
    IDsAfter c none c'.vehicleIDs := h ▸ .same

theorem IDsAfter.mem_of_ne {deleted : Option ℤ} {ids : List ℤ} {i : ℤ}
    (h : IDsAfter c deleted ids) (hi : i ∈ c.vehicleIDs) (hne : deleted ≠ some i) : i ∈ ids := by
  cases h with
  | same => exact hi
  | spawned => exact List.mem_append_left _ hi
  | deleted vid =>
    have hivid : i ≠ vid := fun heq => hne (congrArg some heq.symm)
    exact (List.mem_erase_of_ne hivid).mpr hi

theorem IDsAfter.not_mem {ids : List ℤ} {vid : ℤ} (h : IDsAfter c (some vid) ids)
    (hnodup : c.vehicleIDs.Nodup) : vid ∉ ids := by
  cases h with
  | deleted => exact hnodup.not_mem_erase

theorem parseSpawn_vehicleIDs :
    IDsAfter c none (parseSpawn lib maxCars answers c pckt).client.vehicleIDs := by
  have hchange : (shouldSpawn lib maxCars c (substr pckt 5 none) c.getOpenCarID).1.vehicleIDs =
      c.vehicleIDs := by
    unfold shouldSpawn
    split_ifs <;> rfl
  rw [parseSpawn_client]
  dsimp only
  cases lib.parse (substr pckt 5 none) with
  | none => exact .of_eq hchange
  | some doc =>
    dsimp only
    split_ifs
    · rw [TClient.addNewCar_vehicleIDs, hchange]
      exact .spawned
    · exact .of_eq hchange

theorem apply_vehicleIDs (vid : ℤ) : (apply lib c vid pckt).vehicleIDs = c.vehicleIDs := by
  rcases apply_eq lib c vid pckt with happly | ⟨pos, doc, -, -, happly⟩
  · rw [happly]
  · rw [happly, TClient.setCarData_vehicleIDs]

theorem untrack_vehicleIDs (vid : ℤ) :
    (if c.unicycleID = vid then c.setUnicycleID (-1) else c).vehicleIDs = c.vehicleIDs := by
  split_ifs <;> rfl

theorem parseEdit_vehicleIDs :
    IDsAfter c ((ownedVehicle c (substr pckt 3 none)).filter fun vid =>
        !editAllowed lib answers c pckt vid)
      (parseEdit lib answers c pckt).client.vehicleIDs := by
  unfold parseEdit
  cases ownedVehicle c (substr pckt 3 none) with
  | none => exact .same
  | some vid =>
    cases hallowed : editAllowed lib answers c pckt vid with
    | true =>
      rw [Option.filter_some_neg (by simp [hallowed])]
      unfold editAllowed at hallowed
      simp only [hallowed, if_true]
      exact .of_eq (apply_vehicleIDs vid)
    | false =>
      rw [Option.filter_some_pos (by simp [hallowed])]
      unfold editAllowed at hallowed
      simp only [hallowed, Bool.false_eq_true, if_false, TClient.deleteCar_vehicleIDs,
        untrack_vehicleIDs]
      exact .deleted vid

theorem parseDelete_vehicleIDs :
    IDsAfter c (ownedVehicle c (substr pckt 3 none)) (parseDelete c pckt).client.vehicleIDs := by
  unfold parseDelete
  cases ownedVehicle c (substr pckt 3 none) with
  | none => exact .same
  | some vid =>
    simp only [TClient.deleteCar_vehicleIDs, untrack_vehicleIDs]
    exact .deleted vid

theorem parsePaint_vehicleIDs : (parsePaint lib c pckt).client.vehicleIDs = c.vehicleIDs := by
  unfold parsePaint
  dsimp only
  cases ownedVehicle c (substr pckt 3 none) with
  | none => rfl
  | some vid =>
    cases find (substr pckt 3 none) '[' 0 with
    | none => rfl
    | some pos =>
      simp only [TClient.getCarData_snd]
      split_ifs
      · rfl
      · cases paintTarget (c.getCarData vid).1 with
        | none => rfl
        | some vcf =>
          cases lib.parse (substr (substr pckt 3 none) pos none) with
          | none => rfl
          | some paints => exact TClient.setCarData_vehicleIDs _ _

theorem parseVehicle_vehicleIDs :
    IDsAfter c (deletedByPacket lib answers c pckt)
      (parseVehicle lib maxCars answers c pckt).client.vehicleIDs := by
  have hcodes : 's'.toUInt8 ≠ 'c'.toUInt8 ∧ 's'.toUInt8 ≠ 'd'.toUInt8 := by decide
  unfold parseVehicle deletedByPacket
  match pckt with
  | _ :: code :: _ :: subCode :: _ :: _ :: _ =>
    dsimp only
    by_cases hs : code = 's'.toUInt8
    · subst hs
      rw [if_pos rfl, if_neg hcodes.1, if_neg hcodes.2]
      split_ifs
      · exact parseSpawn_vehicleIDs
      · exact .same
    rw [if_neg hs]
    by_cases hc : code = 'c'.toUInt8
    · rw [if_pos hc, if_pos hc]
      exact parseEdit_vehicleIDs
    rw [if_neg hc, if_neg hc]
    by_cases hd : code = 'd'.toUInt8
    · rw [if_pos hd, if_pos hd]
      exact parseDelete_vehicleIDs
    rw [if_neg hd, if_neg hd]
    split_ifs
    · rw [parseReset_client]
      exact .same
    · rw [parseTransfer_client]
      exact .same
    · exact .same
    · exact .of_eq parsePaint_vehicleIDs
    · exact .same
  | [] | [_] | [_, _] | [_, _, _] | [_, _, _, _] | [_, _, _, _, _] => exact .same

theorem handle_vehicleIDs (op : VehicleOp) :
    IDsAfter c (deletedVehicle lib c op) (op.handle lib maxCars c).client.vehicleIDs := by
  cases op with
  | packet pckt answers => exact parseVehicle_vehicleIDs
  | removeVehicle vid =>
    simp only [deletedVehicle, VehicleOp.handle, removeVehicle, TClient.getCarData_snd]
    split_ifs
    · exact .same
    · rw [TClient.deleteCar_vehicleIDs]
      exact .deleted vid

theorem deletedByPacket_nonneg {vid : ℤ} (h : deletedByPacket lib answers c pckt = some vid) :
    0 ≤ vid := by
  unfold deletedByPacket at h
  split at h
  · split_ifs at h
    · exact ownedVehicle_nonneg (Option.filter_eq_some_iff.mp h).1
    · exact ownedVehicle_nonneg h
  · cases h

theorem deletedVehicle_nonneg (hwf : c.TableWellFormed) {op : VehicleOp} {vid : ℤ}
    (h : deletedVehicle lib c op = some vid) : 0 ≤ vid := by
  cases op with
  | packet pckt answers => exact deletedByPacket_nonneg h
  | removeVehicle vid' =>
    simp only [deletedVehicle] at h
    split_ifs at h with hnull
    obtain rfl := Option.some.inj h
    obtain ⟨v, hv, rfl, -⟩ := TClient.exists_of_getCarData (by simpa using hnull)
    exact hwf.nonneg _ (TClient.mem_vehicleIDs_of_mem hv)

theorem parsePositionPacket_nonneg {Packet : Bytes} {parsed : PidVidData}
    (h : parsePositionPacket Packet = some parsed) : 0 ≤ parsed.VID := by
  unfold parsePositionPacket at h
  split_ifs at h
  dsimp only at h
  split at h
  · cases h
  · cases h
  · obtain ⟨⟨p, v⟩, hread, rfl⟩ := Option.map_eq_some_iff.mp h
    exact (getPidVid_nonneg hread).2

/-- No operation on the vehicles looks at the positions. -/
theorem VehicleChange.vehiclePosition {op : VehicleOp} {c' : TClient}
    (h : VehicleChange lib maxCars c op c') : c'.vehiclePosition = c.vehiclePosition := by
  have hset : ∀ (vid : ℤ) (doc : Json),
      (c.setCarData vid doc).vehiclePosition = c.vehiclePosition := by
    intro vid doc
    unfold TClient.setCarData
    split <;> rfl
  cases h with
  | edit => exact hset _ _
  | repaint => exact hset _ _
  | delete =>
    rw [TClient.deleteCar]
    split_ifs <;> rfl
  | _ => rfl

/-- An operation on a client: one on its vehicles, `ClearCars`, or a position packet. -/
inductive PositionOp where
  | vehicle (op : VehicleOp)
  | clearCars
  | position (Packet : Bytes)

/-- A client with the time of the next operation, the times at which the vehicles of the table
were spawned and the times at which the positions were received. -/
structure TimedClient where
  client : TClient
  now : ℕ := 0
  spawnedAt : ℤ → ℕ := fun _ => 0
  receivedAt : ℕ → ℕ := fun _ => 0

namespace TimedClient

/-- The client becomes `c'`; the vehicles it did not have before are spawned now. -/
def become (s : TimedClient) (c' : TClient) : TimedClient :=
  { s with
    client := c'
    now := s.now + 1
    spawnedAt := fun i =>
      if i ∈ c'.vehicleIDs ∧ i ∉ s.client.vehicleIDs then s.now else s.spawnedAt i }

def receive (s : TimedClient) (vid : ℤ) (data : Bytes) : TimedClient :=
  { s.become (s.client.setCarPosition vid data) with
    receivedAt := Function.update s.receivedAt vid.toNat s.now }

def handlePosition (s : TimedClient) (Packet : Bytes) : TimedClient :=
  match parsePositionPacket Packet with
  | none => s.become s.client
  | some parsed => s.receive parsed.VID parsed.Data

def accepts (c : TClient) (Packet : Bytes) : Bool :=
  Packet.head? = some 'Z'.toUInt8 && (ownedVehicleAt 0 c (substr Packet 3 none)).isSome

variable (lib maxCars) in
/-- The system whose steps are whole operations; a position packet must be accepted. -/
def step (s : TimedClient) : PositionOp → Option TimedClient
  | .vehicle op => some (s.become (op.handle lib maxCars s.client).client)
  | .clearCars => some (s.become s.client.clearCars)
  | .position Packet =>
    if accepts s.client Packet then some (s.handlePosition Packet) else none

def fresh (name role : Bytes) (id : ℤ) : TimedClient := { client := .fresh name role id }

/-- Every stored position belongs to a vehicle of the table and came after its spawn. -/
def PositionsOfVehicles (s : TimedClient) : Prop :=
  ∀ (k : ℕ) (data : Bytes), s.client.vehiclePosition k = some data →
    (k : ℤ) ∈ s.client.vehicleIDs ∧ s.spawnedAt k < s.receivedAt k

variable (lib) in
/-- What a step must not do: take a vehicle away while there is a position for it, or record
a position for an ID that no vehicle has. -/
def KeepsPositions (s : TimedClient) : PositionOp → Prop
  | .vehicle op =>
    ∀ vid, deletedVehicle lib s.client op = some vid →
      s.client.vehiclePosition vid.toNat = none
  | .clearCars => ∀ k, s.client.vehiclePosition k = none
  | .position Packet =>
    ∀ parsed, parsePositionPacket Packet = some parsed → parsed.VID ∈ s.client.vehicleIDs

structure WellTimed (s : TimedClient) : Prop where
  table : s.client.TableWellFormed
  spawned : ∀ i ∈ s.client.vehicleIDs, s.spawnedAt i < s.now
  positions : s.PositionsOfVehicles

theorem step_position_eq_some_iff {s t : TimedClient} {Packet : Bytes} :
    s.step lib maxCars (.position Packet) = some t ↔
      accepts s.client Packet = true ∧ s.handlePosition Packet = t := by
  rw [show s.step lib maxCars (.position Packet) =
    if accepts s.client Packet then some (s.handlePosition Packet) else none from rfl]
  split_ifs with haccepts
  · simp [haccepts]
  · simp [haccepts]

theorem fresh_wellTimed (name role : Bytes) (id : ℤ) : (fresh name role id).WellTimed where
  table := TClient.fresh_tableWellFormed name role id
  spawned _ hi := absurd hi List.not_mem_nil
  positions _ _ hk := by cases hk

variable {s t : TimedClient} {c' : TClient}

theorem become_spawnedAt_of_mem {i : ℤ} (hi : i ∈ s.client.vehicleIDs) :
    (s.become c').spawnedAt i = s.spawnedAt i := if_neg fun h => h.2 hi

theorem WellTimed.become_spawned (hs : s.WellTimed) :
    ∀ i ∈ (s.become c').client.vehicleIDs, (s.become c').spawnedAt i < (s.become c').now := by
  intro i hi
  by_cases hold : i ∈ s.client.vehicleIDs
  · rw [become_spawnedAt_of_mem hold]
    exact Nat.lt_succ_of_lt (hs.spawned i hold)
  · have hnow : (s.become c').spawnedAt i = s.now := if_pos ⟨hi, hold⟩
    rw [hnow]
    exact Nat.lt_succ_self _

/-- Positions that are kept stay those of their vehicles as long as these are kept too. -/
theorem WellTimed.become (hs : s.WellTimed) (htable : c'.TableWellFormed)
    (hposition : c'.vehiclePosition = s.client.vehiclePosition)
    (hkept : ∀ (k : ℕ) (data : Bytes), s.client.vehiclePosition k = some data →
      (k : ℤ) ∈ c'.vehicleIDs) : (s.become c').WellTimed where
  table := htable
  spawned := hs.become_spawned
  positions k data hk := by
    have hold : s.client.vehiclePosition k = some data := by
      rw [← hposition]
      exact hk
    obtain ⟨hmem, htime⟩ := hs.positions k data hold
    exact ⟨hkept k data hold, (become_spawnedAt_of_mem hmem).symm ▸ htime⟩

/-- A position is received after the spawn of every vehicle in the table. -/
theorem WellTimed.receive (hs : s.WellTimed) {vid : ℤ} (hmem : vid ∈ s.client.vehicleIDs)
    (data : Bytes) : (s.receive vid data).WellTimed where
  table := hs.table.of_vehicleIDs_eq rfl
  spawned := hs.become_spawned
  positions k stored hk := by
    have hnonneg := hs.table.nonneg _ hmem
    have hspawned : ∀ i ∈ s.client.vehicleIDs, (s.receive vid data).spawnedAt i = s.spawnedAt i :=
      fun i hi => become_spawnedAt_of_mem hi
    by_cases hkey : k = vid.toNat
    · obtain rfl : vid = k := by omega
      refine ⟨hmem, ?_⟩
      rw [hspawned _ hmem]
      simpa [TimedClient.receive] using hs.spawned _ hmem
    · have hold : s.client.vehiclePosition k = some stored := by
        simpa [TimedClient.receive, TimedClient.become, TClient.setCarPosition, hkey] using hk
      obtain ⟨hkmem, htime⟩ := hs.positions k stored hold
      refine ⟨hkmem, ?_⟩
      rw [hspawned _ hkmem]
      simpa [TimedClient.receive, hkey] using htime

theorem WellTimed.handlePosition (hs : s.WellTimed) {Packet : Bytes}
    (hguard : s.KeepsPositions lib (.position Packet)) : (s.handlePosition Packet).WellTimed := by
  unfold TimedClient.handlePosition
  cases hparse : parsePositionPacket Packet with
  | none => exact hs.become hs.table rfl fun k data hk => (hs.positions k data hk).1
  | some parsed => exact hs.receive (hguard parsed hparse) parsed.Data

theorem WellTimed.step (hs : s.WellTimed) {op : PositionOp} (hguard : s.KeepsPositions lib op)
    (hstep : s.step lib maxCars op = some t) : t.WellTimed := by
  cases op with
  | vehicle op =>
    obtain rfl := Option.some.inj hstep
    have hchange : VehicleChange lib maxCars s.client op (op.handle lib maxCars s.client).client :=
      handle_change op
    refine hs.become (hchange.tableWellFormed hs.table) hchange.vehiclePosition ?_
    intro k data hk
    refine (handle_vehicleIDs op).mem_of_ne (hs.positions k data hk).1 fun hdeleted => ?_
    have hnone := hguard k hdeleted
    rw [Int.toNat_natCast, hk] at hnone
    cases hnone
  | clearCars =>
    obtain rfl := Option.some.inj hstep
    refine hs.become ⟨List.nodup_nil, fun _ hi => absurd hi List.not_mem_nil⟩ rfl ?_
    intro k data hk
    rw [hguard k] at hk
    cases hk
  | position Packet =>
    obtain ⟨-, rfl⟩ := step_position_eq_some_iff.mp hstep
    exact hs.handlePosition hguard

theorem WellTimed.keepsPositions (hs : s.WellTimed) {op : PositionOp}
    (hstep : s.step lib maxCars op = some t) (ht : t.PositionsOfVehicles) :
    s.KeepsPositions lib op := by
  cases op with
  | vehicle op =>
    obtain rfl := Option.some.inj hstep
    intro vid hdeleted
    have hchange : VehicleChange lib maxCars s.client op (op.handle lib maxCars s.client).client :=
      handle_change op
    have hids : IDsAfter s.client (deletedVehicle lib s.client op)
        (op.handle lib maxCars s.client).client.vehicleIDs := handle_vehicleIDs op
    rw [hdeleted] at hids
    cases hstored : s.client.vehiclePosition vid.toNat with
    | none => rfl
    | some data =>
      have hkept := (ht vid.toNat data (hchange.vehiclePosition.symm ▸ hstored)).1
      rw [Int.toNat_of_nonneg (deletedVehicle_nonneg hs.table hdeleted)] at hkept
      exact (hids.not_mem hs.table.nodup hkept).elim
  | clearCars =>
    obtain rfl := Option.some.inj hstep
    intro k
    cases hstored : s.client.vehiclePosition k with
    | none => rfl
    | some data => exact absurd (ht k data hstored).1 List.not_mem_nil
  | position Packet =>
    obtain ⟨-, rfl⟩ := step_position_eq_some_iff.mp hstep
    intro parsed hparse
    have hhandle : s.handlePosition Packet = s.receive parsed.VID parsed.Data := by
      rw [TimedClient.handlePosition, hparse]
    have hstored : (s.receive parsed.VID parsed.Data).client.vehiclePosition parsed.VID.toNat =
        some parsed.Data := Function.update_self ..
    rw [hhandle] at ht
    have hmem := (ht _ _ hstored).1
    rwa [Int.toNat_of_nonneg (parsePositionPacket_nonneg hparse)] at hmem

/-- On the server `HandlePosition` does the same to the client. -/
theorem handlePosition_client {κ : Type} [DecidableEq κ] {c : κ} {server : ServerState κ}
    (h : (server.client c).toTClient = s.client) (Packet : Bytes) :
    ((Observables.final (ServerM.handlePosition c Packet) server).client c).toTClient =
      (s.handlePosition Packet).client := by
  unfold ServerM.handlePosition TimedClient.handlePosition
  cases parsePositionPacket Packet with
  | none => exact h
  | some parsed =>
    have hclient : ((Observables.final (ServerM.updateVehicles c
        (·.setCarPosition parsed.VID parsed.Data)) server).client c).toTClient =
        (server.client c).toTClient.setCarPosition parsed.VID parsed.Data :=
      congrArg ServerClient.toTClient (ServerState.update_self server c fun d =>
        { d with toTClient := d.toTClient.setCarPosition parsed.VID parsed.Data })
    rw [hclient, h]
    rfl

/-- The positions are those of the vehicles in every state of a run if and only if no step
takes away a vehicle with a position or records one for an ID without a vehicle. -/
theorem positionsOfVehicles_iff (lib : JsonText) (maxCars : ℤ) (name role : Bytes) (id : ℤ)
    (ops : List PositionOp) :
    (∀ s, Visits (step lib maxCars) (fresh name role id) ops s → s.PositionsOfVehicles) ↔
      Along (step lib maxCars) (KeepsPositions lib) (fresh name role id) ops := by
  apply always_iff_along (I := WellTimed)
  · exact fun s hs => hs.positions
  · exact fun s op t hs hguard hstep => hs.step hguard hstep
  · exact fun s op t hs hstep ht => hs.keepsPositions hstep ht
  · exact fresh_wellTimed name role id

/-- A position for a vehicle that does not exist is stored, and the position of a deleted
vehicle is still there for the next one with its ID. -/
theorem not_positionsOfVehicles :
    (∃ s, run (step sampleJson 1) (fresh [] [] 0) [.position (ascii "Zp:0-5:\x7b\x7d")] = some s ∧
      s.client.vehicleIDs = [] ∧ ¬s.PositionsOfVehicles) ∧
    ∃ s, run (step sampleJson 1) (fresh [] [] 0)
        [.vehicle (.packet (ascii "Os:0:\x7b\x7d") []), .position (ascii "Zp:0-0:\x7b\x7d"),
          .vehicle (.packet (ascii "Od:0-0") []), .vehicle (.packet (ascii "Os:0:\x7b\x7d") [])] =
        some s ∧
      s.client.vehicleIDs = [0] ∧ s.client.getCarPositionRaw 0 = ascii "\x7b\x7d" ∧
      s.receivedAt 0 < s.spawnedAt 0 ∧ ¬s.PositionsOfVehicles := by
  refine ⟨⟨_, rfl, rfl, ?_⟩, _, rfl, by decide, by decide, by decide, ?_⟩
  · intro h
    exact absurd (h 5 _ rfl).1 (by decide)
  · intro h
    exact absurd (h 0 _ rfl).2 (by decide)

end TimedClient
end BeamMP
