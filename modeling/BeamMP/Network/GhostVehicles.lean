import BeamMP.Network.VehicleSync

/-!
# Ghost vehicles

The handlers that remove a vehicle broadcast its `Od` packet first and delete it
later. A client that is skipped by the broadcast and then copies the table still
gets the vehicle and never hears of its removal. The races of this kind are
listed below, and without them the joining client sees no ghost.
-/
namespace BeamMP

open Notices

/-- Whether a removal has done its broadcast and is about to delete the vehicle. -/
def RemovalStage.told {α : Type*} (vehicle : α) : RemovalStage → List (α × Bool)
  | .deleting reached => [(vehicle, reached)]
  | _ => []

def ReceiveTask.told : ReceiveTask → List (ℤ × Bool)
  | .removing VID stage => stage.told VID
  | .leaving _ told | .telling _ _ _ told => told
  | _ => []

def LuaTask.told {κ : Type*} : LuaTask κ → List ((κ × ℤ) × Bool)
  | .removing PID VID stage => stage.told (PID, VID)
  | _ => []

/-- The packet whose broadcast gets to the joining client next, and whether it is due. -/
def RemovalStage.cast {κ : Type*} (pid : κ) (vid : ℤ) :
    RemovalStage → Option (VehiclePacket κ × Bool)
  | .casting due => some (Od pid vid, due)
  | _ => none

def ReceiveTask.cast {κ : Type*} (pid : κ) : ReceiveTask → Option (VehiclePacket κ × Bool)
  | .castingOs CarID due => some (Os pid CarID, due)
  | .removing VID stage => stage.cast pid VID
  | .telling VID due _ _ => some (Od pid VID, due)
  | _ => none

def LuaTask.cast {κ : Type*} : LuaTask κ → Option (VehiclePacket κ × Bool)
  | .removing PID VID stage => stage.cast PID VID
  | _ => none

/-- The vehicle that the `DeleteCar` of a failed `GetCarData` deletes. -/
def LuaTask.drops {κ : Type*} : LuaTask κ → List (κ × ℤ)
  | .dropping PID VID => [(PID, VID)]
  | _ => []

/-- While a client leaves, every vehicle it still has is in the copy made by `OnDisconnect`. -/
def ReceiveTask.Covers (cars : List ℤ) : ReceiveTask → Prop
  | .leaving VehicleData told => ∀ v ∈ cars, v ∈ VehicleData ∨ ∃ r, (v, r) ∈ told
  | .telling VID _ VehicleData told => ∀ v ∈ cars, v = VID ∨ v ∈ VehicleData ∨ ∃ r, (v, r) ∈ told
  | _ => True

namespace Join

variable {κ τ : Type*} (s : Join κ τ)

def Leaving (x : κ × ℤ) (reached : Bool) : Prop :=
  (x.2, reached) ∈ (s.receive x.1).elim [] ReceiveTask.told ∨
    ∃ t, (x, reached) ∈ (s.lua t).elim [] LuaTask.told

/-- The table entries that `SyncClient` copies in its next step. -/
def nextCopy : List (κ × ℤ) :=
  match s.sync with
  | .iterating (client :: _) => (s.cars client).map (client, ·)
  | _ => []

/-- An `Od` broadcast that was issued before `SetIsSyncing(true)` does not skip the client after
it, and an `Os` reaches the client only for a vehicle that is in its table and not about to
be deleted. -/
def CastFits : Option (VehiclePacket κ × Bool) → Prop
  | some (.vanish _, false) => s.reaches = true ∨ s.sync = .unsynced
  | some (.appear x, _) =>
    s.reaches = true → x.2 ∈ s.cars x.1 ∧ ∀ reached, ¬ s.Leaving x reached
  | _ => True

/-- A broadcast that was issued after `SetIsSyncing(true)` reaches the client. -/
def CastReaches (cast : Option (VehiclePacket κ × Bool)) : Prop :=
  ∀ c ∈ cast, c.2 = true → s.reaches = true

/-- No race on the tables: `SyncClient` copies no vehicle that is about to be deleted by a
removal whose broadcast has skipped the client, the broadcasts fit, and the `DeleteCar` of a
`GetCarData` that found no vehicle deletes none. -/
def RaceFree : JoinAction κ τ → Prop
  | .sync _ => ∀ x ∈ s.nextCopy, ¬ s.Leaving x false
  | .receive pid _ => s.CastFits ((s.receive pid).bind (ReceiveTask.cast pid))
  | .lua t => s.CastFits ((s.lua t).bind LuaTask.cast) ∧
      ∀ x ∈ (s.lua t).elim [] LuaTask.drops, x.2 ∉ s.cars x.1
  | _ => True

/-- Every broadcast that was issued after `SetIsSyncing(true)` reaches the client. -/
def Delivers : JoinAction κ τ → Prop
  | .receive pid _ => s.CastReaches ((s.receive pid).bind (ReceiveTask.cast pid))
  | .lua t => s.CastReaches ((s.lua t).bind LuaTask.cast)
  | _ => True

structure Settled : Prop where
  synced : s.sync = .synced
  receive_done : ∀ pid, s.receive pid = none
  lua_done : ∀ t, s.lua t = none
  drained : s.mPacketsSync = [] ∧ s.looper = none
  connected : s.disconnected = false

def NoGhost : Prop :=
  s.Settled → ∀ pid vid sent rest, s.sent = sent ++ Os pid vid :: rest → vid ∉ s.cars pid →
    Od pid vid ∈ rest

/-- A broadcast that either reaches the client or is not needed. -/
def CastSafe : Option (VehiclePacket κ × Bool) → Prop
  | none => True
  | some (.vanish _, _) => s.reaches = true ∨ s.sync = .unsynced
  | some (.appear x, _) =>
    s.reaches = true → x.2 ∈ s.cars x.1 ∧ ∀ reached, ¬ s.Leaving x reached

def waiting : List (VehiclePacket κ) := s.looper.toList ++ s.mPacketsSync

/-- The packet order of the client, with the packets it will still get. -/
def log : List (VehiclePacket κ) := s.sent ++ s.sync.pending.map .appear ++ s.waiting

def Present (x : κ × ℤ) : Prop := x.2 ∈ s.cars x.1

structure PhaseInvariant : Prop where
  synced : s.mIsSynced = true → s.sync = .synced
  syncing : s.mIsSyncing = true → s.sync ≠ .unsynced
  joined : s.joined = false → s.sync = .unsynced
  fresh : s.sync = .unsynced → s.log = []
  delivering : s.mIsSynced = false → s.looper = none

variable {s} {pid : κ} {vid : ℤ}

theorem CastFits.castSafe {cast : Option (VehiclePacket κ × Bool)} (hfits : s.CastFits cast)
    (hreaches : s.CastReaches cast) : s.CastSafe cast := by
  match cast with
  | none => trivial
  | some (.vanish _, false) => exact hfits
  | some (.vanish _, true) => exact Or.inl (hreaches _ rfl rfl)
  | some (.appear _, _) => exact hfits

theorem told_removing {stage : RemovalStage} {x : κ × ℤ} {r : Bool} (hpid : x.1 = pid)
    (h : (x.2, r) ∈ stage.told vid) : (x, r) ∈ stage.told (pid, vid) := by
  cases stage with
  | deleting reached =>
    simp only [RemovalStage.told, List.mem_singleton, Prod.mk.injEq] at h ⊢
    exact ⟨Prod.ext hpid h.1, h.2⟩
  | _ => cases h

theorem Leaving.receive {task : ReceiveTask} (htask : s.receive pid = some task) {r : Bool}
    (h : (vid, r) ∈ task.told) : s.Leaving (pid, vid) r := by
  left
  simpa [htask] using h

/-- What a thread tells with one more vehicle, where it told the others before. -/
theorem told_cons {told : List (ℤ × Bool)} {v : ℤ} {reached : Bool} {x : κ × ℤ} {r : Bool}
    (hold : ∀ vid r, (vid, r) ∈ told → s.Leaving (pid, vid) r) (hpid : x.1 = pid)
    (hmem : (x.2, r) ∈ (v, reached) :: told) :
    s.Leaving x r ∨ x = (pid, v) ∧ r = reached := by
  obtain ⟨_, vid⟩ := x
  subst hpid
  rcases List.mem_cons.mp hmem with heq | hmem
  · cases heq
    exact Or.inr ⟨rfl, rfl⟩
  · exact Or.inl (hold vid r hmem)

theorem log_sendToClient (Packet : VehiclePacket κ) :
    (s.sendToClient Packet).log = if s.reaches then s.log ++ [Packet] else s.log := by
  unfold sendToClient
  split_ifs <;> simp [log, waiting]

theorem waiting_sendToClient (Packet : VehiclePacket κ) :
    (s.sendToClient Packet).waiting = if s.reaches then s.waiting ++ [Packet] else s.waiting := by
  unfold sendToClient
  split_ifs <;> simp [waiting]

theorem PhaseInvariant.not_unsynced (h : s.PhaseInvariant) (hreaches : s.reaches = true) :
    s.sync ≠ .unsynced := by
  rcases Bool.or_eq_true _ _ ▸ hreaches with hs | hs
  · simp [h.synced hs]
  · exact h.syncing hs

theorem sendToClient_cars (Packet : VehiclePacket κ) :
    (s.sendToClient Packet).cars = s.cars := by
  unfold sendToClient
  split_ifs <;> rfl

theorem sendToClient_present (Packet : VehiclePacket κ) :
    (s.sendToClient Packet).Present = s.Present := by
  funext x
  rw [Present, sendToClient_cars, Present]

theorem sendToClient_mIsSynced (Packet : VehiclePacket κ) :
    (s.sendToClient Packet).mIsSynced = s.mIsSynced := by
  unfold sendToClient
  split_ifs <;> rfl

theorem sendToClient_threads (Packet : VehiclePacket κ) :
    (s.sendToClient Packet).receive = s.receive ∧ (s.sendToClient Packet).lua = s.lua ∧
      (s.sendToClient Packet).disconnected = s.disconnected := by
  unfold sendToClient
  split_ifs <;> exact ⟨rfl, rfl, rfl⟩

theorem PhaseInvariant.sendToClient (h : s.PhaseInvariant) (Packet : VehiclePacket κ) :
    (s.sendToClient Packet).PhaseInvariant := by
  unfold Join.sendToClient
  split_ifs with hreaches
  · exact ⟨h.synced, h.syncing, h.joined, fun hsync => absurd hsync (h.not_unsynced hreaches),
      h.delivering⟩
  · exact h

variable (s) [DecidableEq κ]

/-- The tables and the packet order agree when the removals `leaving` are under way. -/
structure Agrees (leaving : κ × ℤ → Bool → Prop) : Prop extends s.PhaseInvariant where
  consistent : Consistent s.Present s.log s.waiting (s.mIsSynced = false) leaving

structure JoinInvariant : Prop where
  agrees : s.Agrees s.Leaving
  covered : ∀ pid task, s.receive pid = some task → task.Covers (s.cars pid)

variable {s} {s' : Join κ τ} {leaving leaving' : κ × ℤ → Bool → Prop}

theorem start_joinInvariant : (start κ τ).JoinInvariant where
  agrees :=
    { synced := by simp [start]
      syncing := by simp [start]
      joined := by simp [start]
      fresh := by simp [start, log, waiting, JoinPhase.pending]
      delivering := by simp [start]
      consistent :=
        { shown := by simp [start, log, waiting, JoinPhase.pending]
          hidden := by simp [start, log, waiting, JoinPhase.pending]
          queued := by simp [start, Leaving] } }
  covered := by simp [start]

theorem Agrees.of_le (h : s.Agrees leaving) (hle : ∀ x r, leaving' x r → leaving x r) :
    s.Agrees leaving' where
  toPhaseInvariant := h.toPhaseInvariant
  consistent := h.consistent.of_le hle

theorem JoinInvariant.noGhost (h : s.JoinInvariant) : s.NoGhost := by
  intro hsettled pid vid sent rest hsent hgone
  have hlog : s.log = s.sent := by
    simp [log, waiting, hsettled.drained, hsettled.synced, JoinPhase.pending]
  apply vanish_mem_of_lastWord (l := sent)
  intro hlast
  exact hgone (h.agrees.consistent.shown (pid, vid) (by rw [hlog, hsent, hlast]))

theorem Agrees.of_eq (h : s.Agrees leaving) (hphase : s'.PhaseInvariant) (hcars : s'.cars = s.cars)
    (hlog : s'.log = s.log) (hwaiting : s'.waiting = s.waiting)
    (hsynced : s'.mIsSynced = s.mIsSynced) : s'.Agrees leaving where
  toPhaseInvariant := hphase
  consistent := by
    have hpresent : s'.Present = s.Present := by
      funext x
      simp [Present, hcars]
    rw [hpresent, hlog, hwaiting, hsynced]
    exact h.consistent

theorem Agrees.deliver (h : s.Agrees leaving) (hphase : s'.PhaseInvariant)
    (hcars : s'.cars = s.cars)
    (hlog : s'.log = s.log) (hsynced : s'.mIsSynced = true) : s'.Agrees leaving where
  toPhaseInvariant := hphase
  consistent := by
    have hpresent : s'.Present = s.Present := by
      funext x
      simp [Present, hcars]
    rw [hpresent, hlog]
    exact h.consistent.deliver s'.waiting (by simp [hsynced])

/-- `SyncClient` moves on while no notice is added to the packet order. -/
theorem JoinInvariant.advance (h : s.JoinInvariant) {phase : JoinPhase κ} {syncing : Bool}
    {sent : List (VehiclePacket κ)} (hs : s.mIsSynced = false) (hsync : s.sync ≠ .unsynced)
    (hphase : phase ≠ .unsynced)
    (hlog : sent ++ phase.pending.map .appear = s.sent ++ s.sync.pending.map .appear) :
    ({ s with mIsSyncing := syncing, sync := phase, sent := sent } : Join κ τ).JoinInvariant where
  agrees := by
    refine h.agrees.of_eq ⟨?_, fun _ => hphase, ?_, fun h => absurd h hphase, h.agrees.delivering⟩
      rfl ?_ rfl rfl
    · exact fun hsynced => absurd (hs.symm.trans hsynced) (by simp)
    · exact fun hjoined => absurd (h.agrees.joined hjoined) hsync
    · simp only [log, hlog, waiting]
  covered := h.covered

/-- A step of `SyncClient`. Only the copy of a table adds notices to the packet order. -/
theorem JoinInvariant.syncStep (h : s.JoinInvariant) {sent : Bool}
    (hcopy : ∀ x ∈ s.nextCopy, ¬ s.Leaving x false) (hstep : s.syncStep sent = some s')
    (hconnected : s'.disconnected = false) : s'.JoinInvariant := by
  have hnot : s.sync ≠ .synced → s.mIsSynced = false := by
    intro hne
    by_contra hs
    exact hne (h.agrees.synced (by simpa using hs))
  unfold Join.syncStep at hstep
  split at hstep
  case h_1 hsync =>
    obtain ⟨hjoined, hstep⟩ := Option.ite_none_right_eq_some.mp hstep
    cases hstep
    have hs := hnot (by simp [hsync])
    refine ⟨h.agrees.of_eq ?_ rfl ?_ rfl rfl, h.covered⟩
    · exact ⟨by simp [hs], by simp, by simp [hjoined], by simp, h.agrees.delivering⟩
    · simp [log, waiting, hsync, JoinPhase.pending]
  case h_2 hsync | h_6 hsync | h_7 hsync =>
    cases hstep
    exact h.advance (hnot (by simp [hsync])) (by simp [hsync]) (by simp)
      (by simp [hsync, JoinPhase.pending])
  case h_3 client clients hsync =>
    cases hstep
    have hs := hnot (by simp [hsync])
    refine ⟨⟨⟨by simp [hs], by simp, ?_, by simp, h.agrees.delivering⟩, ?_⟩, h.covered⟩
    · exact fun hjoined => absurd (h.agrees.joined hjoined) (by simp [hsync])
    · have hlog : s.log = s.sent ++ s.waiting := by simp [log, hsync, JoinPhase.pending]
      have hnext : s.nextCopy = (s.cars client).map (client, ·) := by simp [nextCopy, hsync]
      have hmem : ∀ x ∈ (s.cars client).map (client, ·), s.Present x := by
        intro x hx
        obtain ⟨v, hv, rfl⟩ := List.mem_map.mp hx
        exact hv
      have hconsistent := h.agrees.consistent
      rw [hlog] at hconsistent
      rw [hnext] at hcopy
      exact hconsistent.copy hs hmem hcopy
  case h_4 client v VehicleData clients hsync =>
    split_ifs at hstep with hdis
    · cases hstep
      exact absurd hdis (by simpa using hconnected)
    · cases hstep
      exact h.advance (hnot (by simp [hsync])) (by simp [hsync]) (by simp)
        (by simp [hsync, JoinPhase.pending])
    · cases hstep
      cases hconnected
  case h_5 client clients hsync =>
    cases hstep
    exact h.advance (hnot (by simp [hsync])) (by simp [hsync]) (by simp)
      (by simp [hsync, JoinPhase.pending])
  case h_8 hsync =>
    cases hstep
    refine ⟨h.agrees.deliver ⟨by simp, by simp, ?_, by simp, by simp⟩ rfl ?_ rfl, h.covered⟩
    · exact fun hjoined => absurd (h.agrees.joined hjoined) (by simp [hsync])
    · simp [log, waiting, hsync, JoinPhase.pending]
  case h_9 => cases hstep
  case h_10 => cases hstep

theorem JoinInvariant.looperStep (h : s.JoinInvariant) {sent : Bool}
    (hstep : s.looperStep sent = some s') (hconnected : s'.disconnected = false) :
    s'.JoinInvariant := by
  have hmoves : ∀ {queue : List (VehiclePacket κ)} {looper : Option (VehiclePacket κ)}
      {sent : List (VehiclePacket κ)}, s.mIsSynced = true →
      sent ++ looper.toList ++ queue = s.sent ++ s.waiting →
      ({ s with mPacketsSync := queue, looper := looper, sent := sent } :
        Join κ τ).JoinInvariant := by
    intro queue looper sent hs hlog
    have hsync := h.agrees.synced hs
    refine ⟨h.agrees.deliver ⟨fun _ => hsync, h.agrees.syncing, h.agrees.joined, ?_, ?_⟩ rfl ?_ hs,
      h.covered⟩
    · exact fun hunsynced => absurd (hsync.symm.trans hunsynced) (by simp)
    · exact fun hnot => absurd (hs.symm.trans hnot) (by simp)
    · simpa [log, waiting, hsync, JoinPhase.pending] using hlog
  unfold Join.looperStep at hstep
  split at hstep
  case h_1 hnone =>
    obtain ⟨hflags, hstep⟩ := Option.ite_none_right_eq_some.mp hstep
    simp only [Bool.and_eq_true] at hflags
    split at hstep
    case h_1 => cases hstep
    case h_2 QData rest hqueue =>
      cases hstep
      exact hmoves hflags.2 (by simp [waiting, hnone, hqueue])
  case h_2 QData hsome =>
    have hs : s.mIsSynced = true := by
      by_contra hnot
      have := h.agrees.delivering (by simpa using hnot)
      simp [hsome] at this
    split_ifs at hstep
    · cases hstep
      exact hmoves hs (by simp [waiting, hsome])
    · cases hstep
      cases hconnected

/-- The iteration of an `Od` broadcast, after which the removal counts as under way. -/
theorem Agrees.castOd (h : s.Agrees leaving) {due : Bool}
    (hsafe : s.CastSafe (some (Od pid vid, due)))
    (hle : ∀ x r, leaving' x r → leaving x r ∨ x = (pid, vid) ∧ r = s.reaches) :
    (s.sendToClient (Od pid vid)).Agrees leaving' where
  toPhaseInvariant := h.toPhaseInvariant.sendToClient _
  consistent := by
    rw [sendToClient_present, sendToClient_mIsSynced, log_sendToClient, waiting_sendToClient]
    cases hreaches : s.reaches with
    | true =>
      exact h.consistent.vanish (pid, vid) fun x r hx => (hle x r hx).imp_right And.left
    | false =>
      have hunsynced : s.sync = .unsynced := hsafe.resolve_left (by simp [hreaches])
      refine h.consistent.skip (a := (pid, vid)) ?_ fun x r hx => hreaches ▸ hle x r hx
      simp [h.fresh hunsynced]

theorem Agrees.castOs (h : s.Agrees s.Leaving) {due : Bool}
    (hsafe : s.CastSafe (some (Os pid vid, due))) :
    (s.sendToClient (Os pid vid)).Agrees s.Leaving where
  toPhaseInvariant := h.toPhaseInvariant.sendToClient _
  consistent := by
    rw [sendToClient_present, sendToClient_mIsSynced, log_sendToClient, waiting_sendToClient]
    cases hreaches : s.reaches with
    | true =>
      obtain ⟨hpresent, hstays⟩ := hsafe hreaches
      exact h.consistent.appear hpresent hstays
    | false => exact h.consistent

theorem Agrees.not_joined (h : s.Agrees leaving) (hjoined : s.joined = false) (y : κ × ℤ)
    (hle : ∀ x r, leaving' x r → leaving x r ∨ x = y ∧ r = false) : s.Agrees leaving' where
  toPhaseInvariant := h.toPhaseInvariant
  consistent := by
    refine h.consistent.skip (a := y) ?_ hle
    simp [h.fresh (h.joined hjoined)]

theorem Agrees.addNewCar (h : s.Agrees leaving) (pid : κ) (vid : ℤ) :
    (s.addNewCar pid vid).Agrees leaving where
  toPhaseInvariant := ⟨h.synced, h.syncing, h.joined, h.fresh, h.delivering⟩
  consistent := by
    refine h.consistent.grow fun x (hx : x.2 ∈ s.cars x.1) => ?_
    by_cases hpid : x.1 = pid
    · simp [Present, Join.addNewCar, ← hpid, hx]
    · simpa [Present, Join.addNewCar, hpid] using hx

theorem Agrees.deleteCar (h : s.Agrees leaving)
    (hhidden : vid ∈ s.cars pid → lastWord (pid, vid) s.log ≠ some true) :
    (s.deleteCar pid vid).Agrees leaving where
  toPhaseInvariant := ⟨h.synced, h.syncing, h.joined, h.fresh, h.delivering⟩
  consistent := by
    refine h.consistent.shrink fun x (hx : x.2 ∈ s.cars x.1) hlast => ?_
    by_cases hpid : x.1 = pid
    · subst hpid
      have hvid : x.2 ≠ vid := by
        rintro rfl
        exact hhidden hx hlast
      simp [Present, Join.deleteCar, hx, hvid]
    · simpa [Present, Join.deleteCar, hpid] using hx

theorem Agrees.clearCars (h : s.Agrees leaving)
    (hhidden : ∀ vid ∈ s.cars pid, lastWord (pid, vid) s.log ≠ some true) :
    (s.clearCars pid).Agrees leaving where
  toPhaseInvariant := ⟨h.synced, h.syncing, h.joined, h.fresh, h.delivering⟩
  consistent := by
    refine h.consistent.shrink fun x (hx : x.2 ∈ s.cars x.1) hlast => ?_
    by_cases hpid : x.1 = pid
    · subst hpid
      exact absurd hlast (hhidden x.2 hx)
    · simpa [Present, Join.clearCars, hpid] using hx

theorem Agrees.removalStep (h : s.Agrees s.Leaving) {stage : RemovalStage}
    (hsafe : s.CastSafe (stage.cast pid vid))
    (hdeleting : ∀ reached, stage = .deleting reached → s.Leaving (pid, vid) reached)
    (hle : ∀ x r, leaving' x r → s.Leaving x r ∨
      (x, r) ∈ (s.removalStep pid vid stage).2.elim [] (RemovalStage.told (pid, vid))) :
    (s.removalStep pid vid stage).1.Agrees leaving' := by
  cases stage with
  | broadcasting =>
    cases hjoined : s.joined with
    | true =>
      refine h.of_le fun x r hx => (hle x r hx).resolve_right ?_
      simp [Join.removalStep, hjoined, RemovalStage.told]
    | false =>
      apply h.not_joined hjoined (pid, vid)
      intro x r hx
      simpa [Join.removalStep, hjoined, RemovalStage.told] using hle x r hx
  | casting due =>
    apply h.castOd hsafe
    intro x r hx
    simpa [Join.removalStep, RemovalStage.told] using hle x r hx
  | deleting reached =>
    have hleaving := hdeleting reached rfl
    apply (h.deleteCar fun _ => h.consistent.hidden _ _ hleaving).of_le
    intro x r hx
    simpa [Join.removalStep] using hle x r hx

/-- A receive thread that has left tells the next vehicle, or clears the table after the last. -/
theorem JoinInvariant.leavingStep (h : s.JoinInvariant) {VehicleData : List ℤ}
    {told : List (ℤ × Bool)} {accepted : Bool}
    (htask : s.receive pid = some (.leaving VehicleData told))
    (hle : ∀ x r, leaving' x r → s.Leaving x r ∨ x.1 = pid ∧
      (x.2, r) ∈ (s.receiveStep pid accepted (.leaving VehicleData told)).2.elim []
        ReceiveTask.told) :
    (s.receiveStep pid accepted (.leaving VehicleData told)).1.Agrees leaving' := by
  obtain ⟨hagrees, hcovered⟩ := h
  cases VehicleData with
  | nil =>
    have hhidden : ∀ vid ∈ s.cars pid, lastWord (pid, vid) s.log ≠ some true := by
      intro vid hvid
      rcases hcovered pid _ htask vid hvid with hmem | ⟨r, hmem⟩
      · cases hmem
      · exact hagrees.consistent.hidden _ r (Leaving.receive htask hmem)
    apply (hagrees.clearCars hhidden).of_le
    intro x r hx
    simpa [Join.receiveStep, ReceiveTask.told] using hle x r hx
  | cons v VehicleData =>
    have hold : ∀ vid r, (vid, r) ∈ told → s.Leaving (pid, vid) r :=
      fun _ _ hmem => Leaving.receive htask hmem
    cases hjoined : s.joined with
    | true =>
      apply hagrees.of_le
      rintro ⟨p, vid⟩ r hx
      rcases hle (p, vid) r hx with hx | ⟨rfl, hmem⟩
      · exact hx
      · exact hold vid r (by simpa [Join.receiveStep, hjoined, ReceiveTask.told] using hmem)
    | false =>
      apply hagrees.not_joined hjoined (pid, v)
      intro x r hx
      rcases hle x r hx with hx | ⟨hpid, hmem⟩
      · exact Or.inl hx
      · simp only [Join.receiveStep, hjoined] at hmem
        exact told_cons hold hpid hmem

theorem JoinInvariant.receiveStep (h : s.JoinInvariant) {task : ReceiveTask} {accepted : Bool}
    (htask : s.receive pid = some task) (hsafe : s.CastSafe (task.cast pid))
    (hle : ∀ x r, leaving' x r → s.Leaving x r ∨
      x.1 = pid ∧ (x.2, r) ∈ (s.receiveStep pid accepted task).2.elim [] ReceiveTask.told) :
    (s.receiveStep pid accepted task).1.Agrees leaving' := by
  have hagrees := h.1
  cases task with
  | spawning CarID =>
    cases accepted with
    | true =>
      apply (hagrees.addNewCar pid CarID).of_le
      intro x r hx
      simpa [Join.receiveStep, ReceiveTask.told] using hle x r hx
    | false =>
      apply hagrees.of_le
      intro x r hx
      simpa [Join.receiveStep] using hle x r hx
  | added CarID =>
    refine hagrees.of_le fun x r hx => (hle x r hx).resolve_right ?_
    simp only [Join.receiveStep]
    split_ifs <;> simp [ReceiveTask.told]
  | castingOs CarID due =>
    apply (hagrees.castOs hsafe).of_le
    intro x r hx
    simpa [Join.receiveStep] using hle x r hx
  | removing VID stage =>
    apply hagrees.removalStep hsafe
    · rintro reached rfl
      exact Leaving.receive htask (by simp [ReceiveTask.told, RemovalStage.told])
    · intro x r hx
      refine (hle x r hx).imp_right ?_
      rintro ⟨hpid, hmem⟩
      simp only [Join.receiveStep] at hmem
      cases hstage : (s.removalStep pid VID stage).2 with
      | none => simp [hstage] at hmem
      | some stage' =>
        rw [hstage] at hmem
        exact told_removing hpid hmem
  | leaving VehicleData told => exact h.leavingStep htask hle
  | telling v due VehicleData told =>
    apply hagrees.castOd hsafe
    intro x r hx
    rcases hle x r hx with hx | ⟨hpid, hmem⟩
    · exact Or.inl hx
    · exact told_cons (fun _ _ hmem => Leaving.receive htask hmem) hpid hmem
  | cleared =>
    have hkeep : (s.receiveStep pid accepted .cleared).1.Agrees s.Leaving :=
      ⟨⟨hagrees.synced, hagrees.syncing, hagrees.joined, hagrees.fresh, hagrees.delivering⟩,
        hagrees.consistent⟩
    apply hkeep.of_le
    intro x r hx
    simpa [Join.receiveStep] using hle x r hx

theorem JoinInvariant.luaStep (h : s.JoinInvariant) {t : τ} {task : LuaTask κ}
    (htask : s.lua t = some task) (hsafe : s.CastSafe task.cast)
    (hdrops : ∀ x ∈ task.drops, x.2 ∉ s.cars x.1)
    (hle : ∀ x r, leaving' x r → s.Leaving x r ∨
      (x, r) ∈ (s.luaStep task).2.elim [] LuaTask.told) : (s.luaStep task).1.Agrees leaving' := by
  cases task with
  | looking PID VID =>
    refine h.agrees.of_le fun x r hx => (hle x r hx).resolve_right ?_
    simp only [Join.luaStep]
    split_ifs <;> simp [LuaTask.told, RemovalStage.told]
  | removing PID VID stage =>
    apply h.agrees.removalStep hsafe
    · rintro reached rfl
      exact Or.inr ⟨t, by simp [htask, LuaTask.told, RemovalStage.told]⟩
    · intro x r hx
      apply (hle x r hx).imp_right
      intro hmem
      simp only [Join.luaStep] at hmem
      cases hstage : (s.removalStep PID VID stage).2 with
      | none => simp [hstage] at hmem
      | some stage' =>
        rw [hstage] at hmem
        exact hmem
  | dropping PID VID =>
    refine (h.agrees.deleteCar fun hmem => ?_).of_le fun x r hx => ?_
    · exact absurd hmem (hdrops (PID, VID) (by simp [LuaTask.drops]))
    · simpa [Join.luaStep] using hle x r hx

theorem mem_deleteCar_cars {p : κ} {v : ℤ} (h : v ∈ (s.deleteCar pid vid).cars p) :
    v ∈ s.cars p := by
  by_cases hp : p = pid
  · subst hp
    simp only [deleteCar, Function.update_self, List.mem_filter] at h
    exact h.1
  · simpa [deleteCar, hp] using h

theorem mem_removalStep_cars {stage : RemovalStage} {p : κ} {v : ℤ}
    (h : v ∈ (s.removalStep pid vid stage).1.cars p) : v ∈ s.cars p := by
  cases stage with
  | broadcasting => exact h
  | casting due => simpa only [removalStep, sendToClient_cars] using h
  | deleting reached => exact mem_deleteCar_cars h

theorem mem_luaStep_cars {task : LuaTask κ} {p : κ} {v : ℤ} (h : v ∈ (s.luaStep task).1.cars p) :
    v ∈ s.cars p := by
  cases task with
  | looking PID VID => exact h
  | removing PID VID stage => exact mem_removalStep_cars h
  | dropping PID VID => exact mem_deleteCar_cars h

/-- Only the receive thread of a client adds to its table. -/
theorem mem_receiveStep_cars {task : ReceiveTask} {accepted : Bool} {p : κ} {v : ℤ} (hp : p ≠ pid)
    (h : v ∈ (s.receiveStep pid accepted task).1.cars p) : v ∈ s.cars p := by
  cases task with
  | spawning CarID =>
    cases accepted with
    | true => simpa [receiveStep, addNewCar, hp] using h
    | false => exact h
  | added CarID => exact h
  | castingOs CarID due => simpa only [receiveStep, sendToClient_cars] using h
  | removing VID stage => exact mem_removalStep_cars h
  | leaving VehicleData told =>
    cases VehicleData with
    | nil => simpa [receiveStep, clearCars, hp] using h
    | cons v VehicleData => exact h
  | telling v due VehicleData told => simpa only [receiveStep, sendToClient_cars] using h
  | cleared => exact h

theorem covers_of_mem {task : ReceiveTask} {cars cars' : List ℤ} (h : task.Covers cars)
    (hle : ∀ v ∈ cars', v ∈ cars) : task.Covers cars' := by
  cases task with
  | leaving VehicleData told => exact fun v hv => h v (hle v hv)
  | telling VID due VehicleData told => exact fun v hv => h v (hle v hv)
  | _ => trivial

/-- The copy made by `OnDisconnect` keeps covering the table until the table is cleared. -/
theorem covers_receiveStep {task task' : ReceiveTask} {accepted : Bool}
    (h : task.Covers (s.cars pid)) (hstep : (s.receiveStep pid accepted task).2 = some task') :
    task'.Covers ((s.receiveStep pid accepted task).1.cars pid) := by
  cases task with
  | spawning CarID =>
    cases accepted with
    | true =>
      cases hstep
      trivial
    | false => cases hstep
  | added CarID =>
    simp only [receiveStep] at hstep
    split_ifs at hstep
    cases hstep
    trivial
  | castingOs CarID due => cases hstep
  | removing VID stage =>
    obtain ⟨stage', -, rfl⟩ := Option.map_eq_some_iff.mp hstep
    trivial
  | leaving VehicleData told =>
    cases VehicleData with
    | nil =>
      cases hstep
      trivial
    | cons v VehicleData =>
      cases hstep
      have hcases : ∀ u ∈ s.cars pid, u = v ∨ u ∈ VehicleData ∨ ∃ r, (u, r) ∈ told := by
        intro u hu
        rcases h u hu with hmem | hmem
        · exact (List.mem_cons.mp hmem).imp_right Or.inl
        · exact Or.inr (Or.inr hmem)
      split_ifs
      · exact hcases
      · intro u hu
        rcases hcases u hu with rfl | hmem | ⟨r, hmem⟩
        · exact Or.inr ⟨false, List.mem_cons_self⟩
        · exact Or.inl hmem
        · exact Or.inr ⟨r, List.mem_cons_of_mem _ hmem⟩
  | telling v due VehicleData told =>
    cases hstep
    intro u hu
    simp only [receiveStep, sendToClient_cars] at hu
    rcases h u hu with rfl | hmem | ⟨r, hmem⟩
    · exact Or.inr ⟨_, List.mem_cons_self⟩
    · exact Or.inl hmem
    · exact Or.inr ⟨r, List.mem_cons_of_mem _ hmem⟩
  | cleared => cases hstep

theorem removalStep_threads (stage : RemovalStage) :
    (s.removalStep pid vid stage).1.receive = s.receive ∧
      (s.removalStep pid vid stage).1.lua = s.lua ∧
      (s.removalStep pid vid stage).1.disconnected = s.disconnected := by
  cases stage with
  | casting due => exact sendToClient_threads _
  | _ => exact ⟨rfl, rfl, rfl⟩

theorem receiveStep_threads (pid : κ) (task : ReceiveTask) (accepted : Bool) :
    (s.receiveStep pid accepted task).1.receive = s.receive ∧
      (s.receiveStep pid accepted task).1.lua = s.lua ∧
      (s.receiveStep pid accepted task).1.disconnected = s.disconnected := by
  cases task with
  | spawning CarID => cases accepted <;> exact ⟨rfl, rfl, rfl⟩
  | castingOs CarID due => exact sendToClient_threads _
  | removing VID stage => exact removalStep_threads stage
  | leaving VehicleData told => cases VehicleData <;> exact ⟨rfl, rfl, rfl⟩
  | telling v due VehicleData told => exact sendToClient_threads _
  | _ => exact ⟨rfl, rfl, rfl⟩

theorem luaStep_threads (task : LuaTask κ) :
    (s.luaStep task).1.receive = s.receive ∧ (s.luaStep task).1.lua = s.lua ∧
      (s.luaStep task).1.disconnected = s.disconnected := by
  cases task with
  | removing PID VID stage => exact removalStep_threads stage
  | _ => exact ⟨rfl, rfl, rfl⟩

/-- After its step the receive thread goes on with another task, or is done. -/
theorem JoinInvariant.setReceive {s₁ : Join κ τ} {task : Option ReceiveTask}
    (h : s.JoinInvariant) (hthreads : s₁.receive = s.receive ∧ s₁.lua = s.lua)
    (hagrees : s₁.Agrees fun x r => s.Leaving x r ∨
      x.1 = pid ∧ (x.2, r) ∈ task.elim [] ReceiveTask.told)
    (hcars : ∀ p, p ≠ pid → ∀ v ∈ s₁.cars p, v ∈ s.cars p)
    (hcovers : ∀ task', task = some task' → task'.Covers (s₁.cars pid)) :
    (s₁.setReceive pid task).JoinInvariant where
  agrees := by
    have hset : (s₁.setReceive pid task).Agrees fun x r => s.Leaving x r ∨
        x.1 = pid ∧ (x.2, r) ∈ task.elim [] ReceiveTask.told :=
      ⟨⟨hagrees.synced, hagrees.syncing, hagrees.joined, hagrees.fresh, hagrees.delivering⟩,
        hagrees.consistent⟩
    apply hset.of_le
    intro x r hx
    rcases hx with hx | ⟨t, hx⟩
    · by_cases hpid : x.1 = pid
      · exact Or.inr ⟨hpid, by simpa [Join.setReceive, hpid] using hx⟩
      · refine Or.inl (Or.inl ?_)
        simpa [Join.setReceive, hpid, hthreads.1] using hx
    · exact Or.inl (Or.inr ⟨t, by simpa [Join.setReceive, hthreads.2] using hx⟩)
  covered p task' htask := by
    by_cases hp : p = pid
    · subst hp
      exact hcovers task' (by simpa [Join.setReceive] using htask)
    · have hold : s.receive p = some task' := by
        simpa [Join.setReceive, hp, hthreads.1] using htask
      exact covers_of_mem (h.covered p task' hold) (hcars p hp)

theorem JoinInvariant.startReceive (h : s.JoinInvariant) {task : ReceiveTask}
    (htold : task.told = []) (hcovers : task.Covers (s.cars pid)) :
    (s.setReceive pid (some task)).JoinInvariant := by
  refine h.setReceive ⟨rfl, rfl⟩ (h.agrees.of_le fun x r hx => hx.resolve_right ?_)
    (fun _ _ _ hv => hv) ?_
  · simp [htold]
  · rintro task' heq
    cases heq
    exact hcovers

variable [DecidableEq τ]

theorem JoinInvariant.setLua {s₁ : Join κ τ} {t : τ} {task : Option (LuaTask κ)}
    (h : s.JoinInvariant) (hthreads : s₁.receive = s.receive ∧ s₁.lua = s.lua)
    (hagrees : s₁.Agrees fun x r => s.Leaving x r ∨ (x, r) ∈ task.elim [] LuaTask.told)
    (hcars : ∀ p, ∀ v ∈ s₁.cars p, v ∈ s.cars p) : (s₁.setLua t task).JoinInvariant where
  agrees := by
    have hset : (s₁.setLua t task).Agrees fun x r => s.Leaving x r ∨
        (x, r) ∈ task.elim [] LuaTask.told :=
      ⟨⟨hagrees.synced, hagrees.syncing, hagrees.joined, hagrees.fresh, hagrees.delivering⟩,
        hagrees.consistent⟩
    apply hset.of_le
    intro x r hx
    rcases hx with hx | ⟨u, hx⟩
    · exact Or.inl (Or.inl (by simpa [Join.setLua, hthreads.1] using hx))
    · by_cases hu : u = t
      · exact Or.inr (by simpa [Join.setLua, hu] using hx)
      · exact Or.inl (Or.inr ⟨u, by simpa [Join.setLua, hu, hthreads.2] using hx⟩)
  covered p task' htask := by
    have hold : s.receive p = some task' := by simpa [Join.setLua, hthreads.1] using htask
    exact covers_of_mem (h.covered p task' hold) (hcars p)

theorem connected_of_step {a : JoinAction κ τ} (hstep : s.step a = some s')
    (hconnected : s'.disconnected = false) : s.disconnected = false := by
  rw [← hconnected]
  cases a with
  | sync sent =>
    simp only [Join.step, syncStep] at hstep
    split at hstep <;> try split_ifs at hstep
    all_goals cases hstep
    all_goals first | rfl | cases hconnected
  | looper sent =>
    simp only [Join.step, looperStep] at hstep
    split at hstep <;> split_ifs at hstep
    · split at hstep <;> cases hstep
      rfl
    · cases hstep
      rfl
    · cases hstep
      cases hconnected
  | disconnect =>
    cases hstep
    cases hconnected
  | receive pid accepted =>
    obtain ⟨task, -, rfl⟩ := Option.map_eq_some_iff.mp hstep
    exact (receiveStep_threads pid task accepted).2.2.symm
  | lua t =>
    obtain ⟨task, -, rfl⟩ := Option.map_eq_some_iff.mp hstep
    exact (luaStep_threads task).2.2.symm
  | join =>
    cases hstep
    rfl
  | _ =>
    obtain ⟨-, hstep⟩ := Option.ite_none_right_eq_some.mp hstep
    cases hstep
    rfl

/-- Step lemma: without a race every step keeps the tables and the packet order in agreement
while the client is connected. -/
theorem JoinInvariant.step {a : JoinAction κ τ} (h : s.JoinInvariant)
    (hdelivers : s.Delivers a) (hfree : s.RaceFree a) (hstep : s.step a = some s')
    (hconnected : s'.disconnected = false) : s'.JoinInvariant := by
  cases a with
  | join =>
    cases hstep
    refine ⟨h.agrees.of_eq ⟨h.agrees.synced, h.agrees.syncing, by simp, h.agrees.fresh,
      h.agrees.delivering⟩ rfl rfl rfl rfl, h.covered⟩
  | sync sent => exact h.syncStep hfree hstep hconnected
  | looper sent => exact h.looperStep hstep hconnected
  | disconnect =>
    cases hstep
    cases hconnected
  | insertClient pid =>
    obtain ⟨-, hstep⟩ := Option.ite_none_right_eq_some.mp hstep
    cases hstep
    exact ⟨h.agrees.of_eq ⟨h.agrees.synced, h.agrees.syncing, h.agrees.joined, h.agrees.fresh,
      h.agrees.delivering⟩ rfl rfl rfl rfl, h.covered⟩
  | startSpawn pid =>
    obtain ⟨-, hstep⟩ := Option.ite_none_right_eq_some.mp hstep
    cases hstep
    exact h.startReceive rfl trivial
  | startRemoval pid VID =>
    obtain ⟨-, hstep⟩ := Option.ite_none_right_eq_some.mp hstep
    cases hstep
    exact h.startReceive rfl trivial
  | startLeaving pid =>
    obtain ⟨-, hstep⟩ := Option.ite_none_right_eq_some.mp hstep
    cases hstep
    exact h.startReceive rfl fun v hv => Or.inl hv
  | receive pid accepted =>
    obtain ⟨task, htask, rfl⟩ := Option.map_eq_some_iff.mp hstep
    have hthreads := s.receiveStep_threads pid task accepted
    have hsafe : s.CastSafe ((s.receive pid).bind (ReceiveTask.cast pid)) :=
      CastFits.castSafe hfree hdelivers
    rw [htask] at hsafe
    exact h.setReceive ⟨hthreads.1, hthreads.2.1⟩ (h.receiveStep htask hsafe fun x r hx => hx)
      (fun p hp v hv => mem_receiveStep_cars hp hv)
      (fun task' heq => covers_receiveStep (h.covered pid task htask) heq)
  | removeVehicle t PID VID =>
    obtain ⟨-, hstep⟩ := Option.ite_none_right_eq_some.mp hstep
    cases hstep
    refine h.setLua ⟨rfl, rfl⟩ (h.agrees.of_le fun x r hx => hx.resolve_right ?_)
      fun _ _ hv => hv
    simp [LuaTask.told]
  | lua t =>
    obtain ⟨task, htask, rfl⟩ := Option.map_eq_some_iff.mp hstep
    have hthreads := s.luaStep_threads task
    obtain ⟨hfits, hdrops⟩ := hfree
    have hsafe : s.CastSafe ((s.lua t).bind LuaTask.cast) := hfits.castSafe hdelivers
    rw [htask] at hsafe hdrops
    exact h.setLua ⟨hthreads.1, hthreads.2.1⟩ (h.luaStep htask hsafe hdrops fun x r hx => hx)
      (fun p v hv => mem_luaStep_cars hv)

/-- When every broadcast that is issued after `SetIsSyncing(true)` reaches the client, a run
without the races on the tables leaves no ghost vehicle behind. -/
theorem noGhost_of_raceFree (as : List (JoinAction κ τ))
    (hdelivers : Execution.Along step Delivers (start κ τ) as)
    (hfree : Execution.Along step RaceFree (start κ τ) as) (s : Join κ τ)
    (hrun : Execution.run step (start κ τ) as = some s) : s.NoGhost := by
  intro hsettled
  have hinv : s.disconnected = false → s.JoinInvariant := by
    refine Execution.run_invariant
      (I := fun s : Join κ τ => s.disconnected = false → s.JoinInvariant)
      ?_ (fun _ => start_joinInvariant) (hdelivers.and hfree) hrun
    intro s a s' h hguard hstep hconnected
    exact (h (connected_of_step hstep hconnected)).step hguard.1 hguard.2 hstep hconnected
  exact (hinv hsettled.connected).noGhost hsettled

section Decidable

variable (s) [Fintype τ]

instance (x : κ × ℤ) (r : Bool) : Decidable (s.Leaving x r) :=
  inferInstanceAs (Decidable (_ ∨ ∃ _, _ ∈ _))

instance : ∀ cast, Decidable (s.CastFits cast)
  | some (.vanish _, false) => inferInstanceAs (Decidable (_ ∨ s.sync = _))
  | some (.appear _, _) => inferInstanceAs (Decidable (_ → _ ∧ ∀ _, ¬ _))
  | some (.vanish _, true) | none => inferInstanceAs (Decidable True)

instance : ∀ a, Decidable (s.RaceFree a)
  | .sync _ => inferInstanceAs (Decidable (∀ _ ∈ _, ¬ _))
  | .receive _ _ => inferInstanceAs (Decidable (s.CastFits _))
  | .lua _ => inferInstanceAs (Decidable (s.CastFits _ ∧ ∀ _ ∈ _, _ ∉ _))
  | .join | .looper _ | .disconnect | .insertClient _ | .startSpawn _ | .startRemoval _ _
  | .startLeaving _ | .removeVehicle _ _ _ => inferInstanceAs (Decidable True)

instance : ∀ a, Decidable (s.Delivers a)
  | .receive _ _ | .lua _ => inferInstanceAs (Decidable (∀ _ ∈ _, _))
  | .sync _ | .join | .looper _ | .disconnect | .insertClient _ | .startSpawn _
  | .startRemoval _ _ | .startLeaving _ | .removeVehicle _ _ _ => inferInstanceAs (Decidable True)

end Decidable

/-- A vehicle is removed after the joining client has got it in the snapshot. -/
def removalAfterSnapshot : List (JoinAction (Fin 1) (Fin 1)) :=
  [.insertClient 0, .startSpawn 0, .receive 0 true, .receive 0 true, .join, .sync true, .sync true,
    .sync true, .sync true, .startRemoval 0 0, .receive 0 true, .receive 0 true, .sync true,
    .sync true, .receive 0 true, .sync true, .looper true, .looper true]

theorem noGhost_after_removal :
    ∃ s, Execution.run step (start (Fin 1) (Fin 1)) removalAfterSnapshot = some s ∧
      s.NoGhost :=
  ⟨_, rfl, noGhost_of_raceFree removalAfterSnapshot (by decide) (by decide) _ rfl⟩

/-- A removal whose broadcast skips the joining client deletes the vehicle only after the
client has copied the table. -/
def snapshotInRemoval : List (JoinAction (Fin 1) (Fin 1)) :=
  [.insertClient 0, .startSpawn 0, .receive 0 true, .receive 0 true, .join, .startRemoval 0 0,
    .receive 0 true, .receive 0 true, .sync true, .sync true, .sync true, .sync true, .sync true,
    .sync true, .sync true, .receive 0 true]

theorem not_noGhost_after_snapshotInRemoval :
    Execution.Along step Delivers (start (Fin 1) (Fin 1)) snapshotInRemoval ∧
      ∃ s, Execution.run step (start (Fin 1) (Fin 1)) snapshotInRemoval = some s ∧
        ¬ s.NoGhost := by
  refine ⟨by decide, _, rfl, fun h => ?_⟩
  have hghost := h ⟨rfl, by decide, by decide, ⟨rfl, rfl⟩, rfl⟩ 0 0 [] [] rfl (by decide)
  cases hghost

end Join
end BeamMP
