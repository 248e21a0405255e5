import BeamMP.Network.Session
import Mathlib.Data.List.Pairwise
import Mathlib.Tactic.Common

/-!
# What plugins are told about a player

From `Authentication` on, the thread of a connection triggers the events of the player
it belongs to, and `SyncClient` those of a player that enters the map. Other threads
can disconnect the client between any two steps, and an exception in `SyncClient`
ends the receive loop.
-/
namespace BeamMP

open Execution

inductive PlayerEvent
  | onPlayerAuth
  | postPlayerAuth (denied : Bool)
  | onPlayerConnecting
  | onPlayerJoining
  | onPlayerJoin
  | onPlayerDisconnect
deriving DecidableEq

/-- The place of an event in the life of a player. -/
def PlayerEvent.order : PlayerEvent → ℕ
  | .onPlayerAuth => 0
  | .postPlayerAuth _ => 1
  | .onPlayerConnecting => 2
  | .onPlayerJoining => 3
  | .onPlayerJoin => 4
  | .onPlayerDisconnect => 5

/-- Where `Authentication` is, until it has inserted the client or refused it. -/
inductive EntryPhase
  | handshake
  | asking
  | decided (denied : Bool)
  | entered
  | refused
deriving DecidableEq

/-- Where `SyncClient` is: it answers with the name, welcomes the player, triggers the event,
sets `mIsSyncing`, sends the vehicles, resets the flag and sets `mIsSynced`. -/
inductive SyncClientPhase
  | idle
  | naming
  | welcoming
  | announcing
  | starting
  | vehicles
  | finishing (Return : Bool)
  | ending
deriving DecidableEq

/-- The thread of a connection. `left` says that `OnDisconnect` has triggered its event. -/
structure PlayerThread where
  entry : EntryPhase
  session : Session
  join : SyncClientPhase
  mIsSynced : Bool
  mIsSyncing : Bool
  left : Bool
deriving DecidableEq

/-- The last label is that of another thread. -/
inductive PlayerLabel
  | refuse
  | triggerAuth
  | verdict (denied : Bool)
  | triggerPost
  | insertClient
  | tcpClient (sent : Bool)
  | syncRead (r : SyncRead)
  | onConnect (random sent : Bool)
  | receive (Data : Bytes) (result : ParserResult)
  | receiveJoin
  | respondName (sent : Bool)
  | welcome
  | triggerJoin
  | setSyncing
  | sendVehicle (sent : Bool)
  | vehiclesDone
  | resetSyncing
  | setSynced
  | joinThrows
  | triggerDisconnect
  | onDisconnect
  | disconnect

/-- The thread with the events that it has triggered. -/
structure PlayerLife where
  thread : PlayerThread
  events : List PlayerEvent
deriving DecidableEq

variable (folder : ResourceFolder) (dump : List TMod → Option Bytes)

namespace PlayerThread

def start : PlayerThread where
  entry := .handshake
  session := Session.start
  join := .idle
  mIsSynced := false
  mIsSyncing := false
  left := false

def sessionStep (s : PlayerThread) (a : SessionAction) : Option PlayerThread :=
  (s.session.step folder dump a).map fun session => { s with session := session }

/-- The receive loop when `GlobalParser` calls `SyncClient`. -/
def receiveJoin (s : PlayerThread) : PlayerThread :=
  if s.session.disconnected then { s with session.phase := .leaving }
  else if s.mIsSynced then s
  else { s with join := .naming }

/-- A step of the thread, or another thread that disconnects the client. -/
def step (s : PlayerThread) : PlayerLabel → Option PlayerThread
  | .refuse =>
    if s.entry = .handshake then some { s with entry := .refused, session.disconnected := true }
    else none
  | .triggerAuth => if s.entry = .handshake then some { s with entry := .asking } else none
  | .verdict denied =>
    if s.entry = .asking then
      some { s with
        entry := .decided denied
        session.disconnected := s.session.disconnected || denied }
    else none
  | .triggerPost =>
    match s.entry with
    | .decided denied => some { s with entry := if denied then .refused else .entered }
    | _ => none
  | .insertClient =>
    if s.entry = .entered then s.sessionStep folder dump .insertClient else none
  | .tcpClient sent => s.sessionStep folder dump (.tcpClient sent)
  | .syncRead r => s.sessionStep folder dump (.syncRead r)
  | .onConnect random sent =>
    -- Without random bytes `OnConnect` returns early, as it does for a client that is disconnected.
    s.sessionStep folder dump (.onConnect (s.session.disconnected || !random || sent))
  | .receive Data result =>
    if s.join = .idle then s.sessionStep folder dump (.receive Data result) else none
  | .receiveJoin =>
    if s.join = .idle ∧ s.session.phase = .receiving then some s.receiveJoin else none
  | .respondName sent =>
    if s.join = .naming then
      if sent then some { s with join := .welcoming }
      else some { s with join := .idle, session.disconnected := true }
    else none
  | .welcome => if s.join = .welcoming then some { s with join := .announcing } else none
  | .triggerJoin => if s.join = .announcing then some { s with join := .starting } else none
  | .setSyncing =>
    if s.join = .starting then some { s with join := .vehicles, mIsSyncing := true } else none
  | .sendVehicle sent =>
    if s.join = .vehicles then
      if s.session.disconnected then some { s with join := .finishing true }
      else some { s with session.disconnected := !sent }
    else none
  | .vehiclesDone =>
    if s.join = .vehicles then some { s with join := .finishing false } else none
  | .resetSyncing =>
    match s.join with
    | .finishing true => some { s with join := .idle, mIsSyncing := false }
    | .finishing false => some { s with join := .ending, mIsSyncing := false }
    | _ => none
  | .setSynced =>
    if s.join = .ending then some { s with join := .idle, mIsSynced := true } else none
  | .joinThrows =>
    if s.join = .idle then none
    else some { s with join := .idle, session.disconnected := true, session.phase := .leaving }
  | .triggerDisconnect =>
    if s.session.phase = .leaving ∧ s.left = false then some { s with left := true } else none
  | .onDisconnect => if s.left then s.sessionStep folder dump .onDisconnect else none
  | .disconnect => s.sessionStep folder dump .disconnect

/-- The event that a step triggers. -/
def triggers (s : PlayerThread) : PlayerLabel → Option PlayerEvent
  | .triggerAuth => some .onPlayerAuth
  | .triggerPost =>
    match s.entry with
    | .decided denied => some (.postPlayerAuth denied)
    | _ => none
  | .tcpClient _ => if s.session.disconnected then none else some .onPlayerConnecting
  | .onConnect random _ =>
    if s.session.disconnected || !random then none else some .onPlayerJoining
  | .triggerJoin => some .onPlayerJoin
  | .triggerDisconnect => some .onPlayerDisconnect
  | _ => none

end PlayerThread

namespace PlayerLife

def start : PlayerLife := ⟨PlayerThread.start, []⟩

def step (s : PlayerLife) (l : PlayerLabel) : Option PlayerLife :=
  (s.thread.step folder dump l).map fun thread =>
    ⟨thread, s.events ++ (s.thread.triggers l).toList⟩

end PlayerLife

/-- A call of `SyncClient` is still to trigger `onPlayerJoin`, or may be made. -/
def SyncClientPhase.beforeJoin (willJoin : Bool) : SyncClientPhase → Bool
  | .naming | .welcoming | .announcing => true
  | .idle => willJoin
  | _ => false

def SessionPhase.stage (beforeJoin left : Bool) : SessionPhase → ℕ
  | .authenticated | .tcpClient => 2
  | .syncing | .connected => 3
  | .receiving => if beforeJoin then 4 else 5
  | .leaving => if left then 6 else 5
  | .ended exception => if left then 6 else if exception then 3 else 2

theorem SessionPhase.stage_le {before after left : Bool} (h : after = true → before = true)
    (phase : SessionPhase) : phase.stage before left ≤ phase.stage after left := by
  cases phase <;> simp only [SessionPhase.stage, le_refl]
  cases before <;> cases after <;> simp at h ⊢

namespace PlayerThread

variable {folder : ResourceFolder} {dump : List TMod → Option Bytes} {s t : PlayerThread}
  {l : PlayerLabel}

/-- `onPlayerConnecting` has been triggered, and `OnDisconnect` has not ended. -/
def Present (s : PlayerThread) : Prop :=
  s.session.phase = .syncing ∨ s.session.phase = .connected ∨ s.session.phase = .receiving ∨
    s.session.phase = .leaving

/-- `SyncClient` has got past its event. -/
def Joined (s : PlayerThread) : Prop :=
  s.mIsSynced = true ∨ s.mIsSyncing = true ∨ s.join = .starting ∨ s.join = .vehicles ∨
    (∃ Return, s.join = .finishing Return) ∨ s.join = .ending

/-- `SyncClient` can still get to its event. -/
def beforeJoin (s : PlayerThread) : Bool :=
  s.join.beforeJoin (!s.mIsSynced && !s.session.disconnected)

/-- The events up to this place may have been triggered. -/
def stage (s : PlayerThread) : ℕ :=
  match s.entry with
  | .handshake => 0
  | .asking | .decided _ => 1
  | .refused => 2
  | .entered => s.session.phase.stage s.beforeJoin s.left

/-- The parts of the thread fit together. -/
structure Placed (s : PlayerThread) : Prop where
  outside : s.entry ≠ .entered → s.session.phase = .authenticated ∧ s.session.registered = false
  idle : s.session.phase ≠ .receiving → s.join = .idle
  aborted : s.join = .finishing true → s.session.disconnected = true
  leaving : s.left = true → s.session.phase = .leaving ∨ s.session.phase = .ended false

theorem placed_start : start.Placed := by
  constructor <;> simp [start, Session.start]

theorem syncStep_phase {session session' : Session} {r : SyncRead}
    (h : session.syncStep folder dump r = some session') (hphase : session.phase = .syncing) :
    session'.registered = session.registered ∧
      (session'.phase = .syncing ∨ session'.phase = .connected ∨ session'.phase = .ended true) := by
  unfold Session.syncStep at h
  split_ifs at h
  · cases h
    simp
  · cases h
    simp
  · cases h
    simp
  · obtain ⟨p, -, rfl⟩ := Option.map_eq_some_iff.mp h
    cases hthrew : p.threw <;> simp [hphase]

theorem receiveStep_phase {session session' : Session} {Data : Bytes} {result : ParserResult}
    (h : session.receiveStep Data result = session') (hphase : session.phase = .receiving) :
    session'.registered = session.registered ∧
      (session'.phase = .receiving ∧ session.disconnected = false ∨ session'.phase = .leaving) := by
  subst h
  unfold Session.receiveStep
  split_ifs with hdisconnected
  · simp
  · simp
  · cases result with
    | returned disconnected => simp [hphase, hdisconnected]
    | threw => simp

theorem step_session {a : SessionAction} (h : s.sessionStep folder dump a = some t) :
    ∃ session, s.session.step folder dump a = some session ∧ t = { s with session := session } := by
  obtain ⟨session, hsession, rfl⟩ := Option.map_eq_some_iff.mp h
  exact ⟨session, hsession, rfl⟩

@[grind →] theorem eq_of_sessionStep {a : SessionAction}
    (h : s.sessionStep folder dump a = some t) : t = { s with session := t.session } := by
  obtain ⟨session, -, rfl⟩ := step_session h
  rfl

theorem Placed.step (hs : s.Placed) (h : s.step folder dump l = some t) : t.Placed := by
  obtain ⟨houtside, hidle, haborted, hleaving⟩ := hs
  cases l with
  | syncRead r =>
    obtain ⟨session, hsession, rfl⟩ := step_session h
    obtain ⟨hphase, hsession⟩ := Option.ite_none_right_eq_some.mp hsession
    obtain ⟨hregistered, hround⟩ := syncStep_phase hsession hphase
    constructor <;> grind -ring -linarith
  | receive Data result =>
    obtain ⟨hjoin, h⟩ := Option.ite_none_right_eq_some.mp h
    obtain ⟨session, hsession, rfl⟩ := step_session h
    obtain ⟨hphase, hsession⟩ := Option.ite_none_right_eq_some.mp hsession
    obtain ⟨hregistered, hround⟩ := receiveStep_phase (Option.some.inj hsession) hphase
    constructor <;> grind -ring -linarith
  | _ =>
    simp only [PlayerThread.step, sessionStep, Session.step, receiveJoin] at h
    constructor <;> grind -ring -linarith

theorem Placed.stage_le (hs : s.Placed) (h : s.step folder dump l = some t) :
    s.stage ≤ t.stage := by
  obtain ⟨houtside, hidle, haborted, hleaving⟩ := hs
  cases l with
  | syncRead r =>
    obtain ⟨session, hsession, rfl⟩ := step_session h
    obtain ⟨hphase, hsession⟩ := Option.ite_none_right_eq_some.mp hsession
    obtain ⟨-, hround⟩ := syncStep_phase hsession hphase
    grind -ring -linarith [stage, SessionPhase.stage]
  | receive Data result =>
    obtain ⟨hjoin, h⟩ := Option.ite_none_right_eq_some.mp h
    obtain ⟨session, hsession, rfl⟩ := step_session h
    obtain ⟨hphase, hsession⟩ := Option.ite_none_right_eq_some.mp hsession
    obtain ⟨-, hround⟩ := receiveStep_phase (Option.some.inj hsession) hphase
    grind -ring -linarith [stage, beforeJoin, SyncClientPhase.beforeJoin, SessionPhase.stage]
  | disconnect =>
    obtain ⟨session, hsession, rfl⟩ := step_session h
    cases hsession
    cases hentry : s.entry <;> simp only [stage, hentry, le_refl]
    apply SessionPhase.stage_le
    cases hjoin : s.join <;> simp [beforeJoin, SyncClientPhase.beforeJoin, hjoin]
  | _ =>
    simp only [PlayerThread.step, sessionStep, Session.step, receiveJoin] at h
    grind -ring -linarith [stage, beforeJoin, SyncClientPhase.beforeJoin, SessionPhase.stage]

theorem Placed.triggered (hs : s.Placed) (h : s.step folder dump l = some t) {e : PlayerEvent}
    (he : s.triggers l = some e) : s.stage ≤ e.order ∧ e.order < t.stage := by
  obtain ⟨houtside, hidle, haborted, hleaving⟩ := hs
  cases l with
  | triggerAuth | triggerPost | tcpClient _ | triggerJoin | triggerDisconnect | onConnect _ _ =>
    simp only [PlayerThread.step, sessionStep, Session.step] at h
    simp only [triggers] at he
    constructor <;> grind -ring -linarith [stage, beforeJoin, SyncClientPhase.beforeJoin,
      SessionPhase.stage, PlayerEvent.order]
  | _ => cases he

theorem entered_step (h : s.step folder dump l = some t) (ht : t.entry = .entered) :
    s.entry = .entered ∨ s.triggers l = some (.postPlayerAuth false) := by
  cases l
  all_goals
    simp only [PlayerThread.step, receiveJoin] at h
    grind -ring -linarith [triggers]

theorem refused_step (h : s.step folder dump l = some t)
    (hs : s.entry = .refused ∨ s.triggers l = some (.postPlayerAuth true)) :
    t.entry = .refused := by
  cases l
  all_goals
    simp only [PlayerThread.step, receiveJoin] at h
    grind -ring -linarith [triggers]

theorem left_step (h : s.step folder dump l = some t) :
    t.left = true ↔ s.left = true ∨ s.triggers l = some .onPlayerDisconnect := by
  cases l
  all_goals
    simp only [PlayerThread.step, receiveJoin] at h
    grind -ring -linarith [triggers]

theorem joined_step (h : s.step folder dump l = some t) (ht : t.Joined) :
    s.Joined ∨ s.triggers l = some .onPlayerJoin := by
  cases l
  all_goals
    simp only [PlayerThread.step, receiveJoin] at h
    grind -ring -linarith [triggers, Joined]

theorem Placed.present_step (hs : s.Placed) (h : s.step folder dump l = some t) (ht : t.Present) :
    s.Present ∨ s.triggers l = some .onPlayerConnecting := by
  obtain ⟨houtside, hidle, haborted, hleaving⟩ := hs
  cases l with
  | syncRead r =>
    obtain ⟨session, hsession, rfl⟩ := step_session h
    exact .inl (.inl (Option.ite_none_right_eq_some.mp hsession).1)
  | receive Data result =>
    obtain ⟨session, hsession, rfl⟩ := step_session (Option.ite_none_right_eq_some.mp h).2
    exact .inl (.inr (.inr (.inl (Option.ite_none_right_eq_some.mp hsession).1)))
  | _ =>
    simp only [PlayerThread.step, sessionStep, Session.step, receiveJoin] at h
    grind -ring -linarith [triggers, Present]

/-- All events of a player but the first two come between `onPlayerConnecting` and the end. -/
theorem Placed.present_of_triggered (hs : s.Placed) (h : s.step folder dump l = some t)
    {e : PlayerEvent} (he : s.triggers l = some e) (horder : 2 < e.order) : s.Present := by
  obtain ⟨houtside, hidle, haborted, hleaving⟩ := hs
  cases l with
  | triggerAuth | triggerPost | tcpClient _ | triggerJoin | triggerDisconnect | onConnect _ _ =>
    simp only [PlayerThread.step, sessionStep, Session.step] at h
    simp only [triggers] at he
    grind -ring -linarith [Present, PlayerEvent.order]
  | _ => cases he

end PlayerThread

namespace PlayerLife

variable {folder : ResourceFolder} {dump : List TMod → Option Bytes} {s t : PlayerLife}
  {l : PlayerLabel}

/-- The events fit the place where the thread is. -/
structure Told (s : PlayerLife) : Prop where
  placed : s.thread.Placed
  ordered : s.events.Pairwise fun e f => e.order < f.order
  reached : ∀ e ∈ s.events, e.order < s.thread.stage
  accepted : s.thread.entry = .entered → .postPlayerAuth false ∈ s.events
  refused : .postPlayerAuth true ∈ s.events → s.thread.entry = .refused
  present : s.thread.Present → .onPlayerConnecting ∈ s.events
  later : ∀ e ∈ s.events, 2 < e.order → .onPlayerConnecting ∈ s.events
  joined : s.thread.Joined → .onPlayerJoin ∈ s.events
  farewell : .onPlayerDisconnect ∈ s.events ↔ s.thread.left = true

theorem told_start : start.Told := by
  constructor <;> simp [start, PlayerThread.placed_start] <;>
    simp [PlayerThread.start, PlayerThread.Present, PlayerThread.Joined, Session.start]

theorem mem_events_step {e : PlayerEvent} {thread : PlayerThread} :
    e ∈ s.events ++ (thread.triggers l).toList ↔ e ∈ s.events ∨ thread.triggers l = some e := by
  rw [List.mem_append, Option.mem_toList]

theorem Told.step (hs : s.Told) (h : s.step folder dump l = some t) : t.Told := by
  obtain ⟨thread, hthread, rfl⟩ := Option.map_eq_some_iff.mp h
  have hstage := hs.placed.stage_le hthread
  constructor
  · exact hs.placed.step hthread
  · refine List.pairwise_append.mpr ⟨hs.ordered, ?_, fun e he f hf => ?_⟩
    · cases s.thread.triggers l <;> simp
    · have hf := Option.mem_toList.mp hf
      exact lt_of_lt_of_le (hs.reached e he) (hs.placed.triggered hthread hf).1
  · intro e he
    rcases mem_events_step.mp he with he | he
    · exact lt_of_lt_of_le (hs.reached e he) hstage
    · exact (hs.placed.triggered hthread he).2
  · intro hentry
    exact mem_events_step.mpr ((PlayerThread.entered_step hthread hentry).imp_left hs.accepted)
  · intro he
    exact PlayerThread.refused_step hthread ((mem_events_step.mp he).imp_left hs.refused)
  · intro hpresent
    exact mem_events_step.mpr ((hs.placed.present_step hthread hpresent).imp_left hs.present)
  · intro e he horder
    refine mem_events_step.mpr (.inl ?_)
    rcases mem_events_step.mp he with he | he
    · exact hs.later e he horder
    · exact hs.present (hs.placed.present_of_triggered hthread he horder)
  · intro hjoined
    exact mem_events_step.mpr ((PlayerThread.joined_step hthread hjoined).imp_left hs.joined)
  · rw [mem_events_step, hs.farewell, PlayerThread.left_step hthread]

theorem Told.of_run {labels : List PlayerLabel}
    (hrun : run (PlayerLife.step folder dump) start labels = some s) : s.Told :=
  run_invariant_of_step (I := fun s : PlayerLife => s.Told) (fun _ _ _ hs h => hs.step h)
    told_start hrun

/-- In every order of the steps of the thread of a connection and of disconnects by others: the
events of the player come in their order and each at most once, and a refused player has none
after `postPlayerAuth`. Only an accepted player is a client, and only one whose `onPlayerJoin`
has been triggered gets broadcasts. All other events follow `onPlayerConnecting`, and when the
thread has ended, `onPlayerDisconnect` has followed it as well, unless an exception in
`SyncResources` has ended the thread. -/
theorem events_in_order (folder : ResourceFolder) (dump : List TMod → Option Bytes)
    (labels : List PlayerLabel) (s : PlayerLife)
    (hrun : run (step folder dump) start labels = some s) :
    s.events.Pairwise (fun e f => e.order < f.order) ∧
    (.postPlayerAuth true ∈ s.events → ∀ e ∈ s.events, e.order ≤ 1) ∧
    (s.thread.session.registered = true → .postPlayerAuth false ∈ s.events) ∧
    (s.thread.mIsSynced = true ∨ s.thread.mIsSyncing = true → .onPlayerJoin ∈ s.events) ∧
    (∀ e ∈ s.events, 2 < e.order → .onPlayerConnecting ∈ s.events) ∧
    ∀ exception, s.thread.session.phase = .ended exception → .onPlayerConnecting ∈ s.events →
      (.onPlayerDisconnect ∈ s.events ↔ exception = false) := by
  have hs := Told.of_run hrun
  refine ⟨hs.ordered, fun hdenied e he => ?_, fun hregistered => ?_, fun hsynced => ?_, hs.later,
    fun exception hended hconnecting => ?_⟩
  · have hlt := hs.reached e he
    rw [PlayerThread.stage, hs.refused hdenied] at hlt
    exact Nat.le_of_lt_succ hlt
  · by_contra haccepted
    have houtside := hs.placed.outside (mt hs.accepted haccepted)
    rw [houtside.2] at hregistered
    cases hregistered
  · exact hs.joined (hsynced.imp_right .inl)
  · -- The thread has got to its end behind the event, which is not the case for `TCPClient`.
    rw [hs.farewell]
    have hentered : s.thread.entry = .entered := by
      by_contra hentry
      rw [(hs.placed.outside hentry).1] at hended
      cases hended
    have hlt := hs.reached _ hconnecting
    rw [PlayerThread.stage, hentered] at hlt
    simp only [hended, SessionPhase.stage, PlayerEvent.order] at hlt
    constructor
    · intro hleft
      have hphase := hs.placed.leaving hleft
      rw [hended] at hphase
      simpa using hphase
    · rintro rfl
      by_contra hleft
      simp [hleft] at hlt

/-- A player joins and leaves again. -/
def sampleLife : List PlayerLabel :=
  [.triggerAuth, .verdict false, .triggerPost, .insertClient, .tcpClient true,
    .syncRead ⟨ascii "Done", [], Session.onlyDirectories, ⟨true, true, []⟩⟩, .onConnect true true,
    .receiveJoin, .respondName true, .welcome, .triggerJoin, .setSyncing, .vehiclesDone,
    .resetSyncing, .setSynced, .disconnect, .receiveJoin, .triggerDisconnect, .onDisconnect]

/-- What is left of the player. -/
def sampleLeft : PlayerLife where
  thread := ⟨.entered, ⟨.ended false, true, false⟩, .idle, true, false, true⟩
  events := [.onPlayerAuth, .postPlayerAuth false, .onPlayerConnecting, .onPlayerJoining,
    .onPlayerJoin, .onPlayerDisconnect]

theorem events_in_order_sample :
    run (step ⟨ascii "Resources", by decide⟩ fun _ => some (ascii "[]")) start sampleLife =
      some sampleLeft ∧ sampleLeft.events.Pairwise fun e f => e.order < f.order := by
  have hrun : run (step ⟨ascii "Resources", by decide⟩ fun _ => some (ascii "[]")) start
      sampleLife = some sampleLeft := by decide
  exact ⟨hrun, (events_in_order _ _ sampleLife sampleLeft hrun).1⟩

end PlayerLife
end BeamMP
