import BeamMP.Foundation.Execution
import BeamMP.Network.Heartbeat
import Mathlib.Data.List.Nodup

/-!
# The start of the server

`main` constructs the subsystems, which enter `mSystemStatusMap` as `Starting` and report
from their threads how they get on. It then looks at the map until none of them is
starting any more. `Authentication` refuses every connection that comes before.
-/
namespace BeamMP

open Execution

/-- `Application::Status`. -/
inductive SystemStatus
  | Starting
  | Good
  | Bad
  | ShuttingDown
  | Shutdown
deriving DecidableEq

/-- The keys of `mSystemStatusMap`. -/
inductive Subsystem
  | Config
  | Main
  | Server
  | ResourceManager
  | PPSMonitor
  | Heartbeat
  | TCPNetwork
  | UDPNetwork
  | LuaEngine
  | UpdateCheck
  | PluginMonitor
deriving DecidableEq

def Subsystem.name : Subsystem → Bytes
  | .Config => ascii "Config"
  | .Main => ascii "Main"
  | .Server => ascii "Server"
  | .ResourceManager => ascii "ResourceManager"
  | .PPSMonitor => ascii "PPSMonitor"
  | .Heartbeat => ascii "Heartbeat"
  | .TCPNetwork => ascii "TCPNetwork"
  | .UDPNetwork => ascii "UDPNetwork"
  | .LuaEngine => ascii "LuaEngine"
  | .UpdateCheck => ascii "UpdateCheck"
  | .PluginMonitor => ascii "PluginMonitor"

/-- The order in which `main` brings the subsystems into the map. -/
def construction : List Subsystem :=
  [.Main, .Server, .ResourceManager, .PPSMonitor, .Heartbeat, .TCPNetwork, .UDPNetwork,
    .LuaEngine, .UpdateCheck, .PluginMonitor]

/-- What the loop of `main` skips. -/
def Subsystem.isIgnored (name : Subsystem) : Bool := name == .Main || name == .UpdateCheck

/-- `SystemsBadList`, with the last two bytes cut off. -/
def systemsBadList (bad : List Subsystem) : Bytes :=
  let SystemsBadList := bad.flatMap fun name => name.name ++ ascii ", "
  SystemsBadList.take (SystemsBadList.length - 2)

def startupLine (bad : List Subsystem) : Bytes :=
  if bad = [] then ascii "ALL SYSTEMS STARTED SUCCESSFULLY, EVERYTHING IS OKAY"
  else ascii "STARTUP NOT SUCCESSFUL, SYSTEMS " ++ systemsBadList bad ++
    ascii " HAD ERRORS. THIS MAY OR MAY NOT CAUSE ISSUES."

/-- `report` holds the bad subsystems until the loop has set the status of `Main`. The lines, the
subsystems that have once had a status other than `Starting`, and whether a connection got
beyond the check of `Authentication`, are history. -/
structure ServerStart where
  mSystemStatusMap : Subsystem → Option SystemStatus
  toConstruct : List Subsystem
  FullyStarted : Bool
  report : Option (List Subsystem)
  Shutdown : Bool
  mShutdown : Bool
  heartbeat : BeamMP.Heartbeat
  lines : List Bytes
  started : List Subsystem
  admitted : Bool

/-- The steps of `main`, of the threads of the subsystems, of the shutdown handlers, and of a
connection. `snapshot` carries the order of iteration of the map. -/
inductive StartLabel
  | construct
  | setStatus (name : Subsystem) (status : SystemStatus)
  | heartbeat (p : HeartbeatPass)
  | shutdown
  | handle (name : Subsystem) (status : SystemStatus)
  | handleMain
  | snapshot (order : List Subsystem)
  | report
  | mainEnds
  | connect

namespace ServerStart

variable (json : JsonText) (Targets : List Bytes)

/-- The configuration has been read, and the heartbeat will begin at the time `now`. -/
def start (config : Bool) (now : ℤ) : ServerStart where
  mSystemStatusMap name :=
    if name = .Config then some (if config then .Good else .Bad) else none
  toConstruct := construction
  FullyStarted := false
  report := none
  Shutdown := false
  mShutdown := false
  heartbeat := Heartbeat.start now
  lines := []
  started := [.Config]
  admitted := false

def setSubsystemStatus (s : ServerStart) (name : Subsystem) (status : SystemStatus) :
    ServerStart :=
  { s with
    mSystemStatusMap := fun n => if n = name then some status else s.mSystemStatusMap n
    started := if status = .Starting then s.started else name :: s.started }

/-- The keys that the map has. -/
def names (s : ServerStart) : List Subsystem :=
  (.Config :: construction).filter fun name => (s.mSystemStatusMap name).isSome

/-- Whether the loop of `main` finds a subsystem with a status. -/
def finds (s : ServerStart) (status : SystemStatus) (name : Subsystem) : Bool :=
  !name.isIgnored && s.mSystemStatusMap name == some status

/-- A round of the loop of `main` until it has found all subsystems started. -/
def snapshot (s : ServerStart) (order : List Subsystem) : ServerStart :=
  if s.FullyStarted || order.any (s.finds .Starting) then s
  else { s with FullyStarted := true, report := some (order.filter (s.finds .Bad)) }

def step (s : ServerStart) : StartLabel → Option ServerStart
  | .construct =>
    match s.toConstruct with
    | [] => none
    | name :: toConstruct => some ({ s with toConstruct }.setSubsystemStatus name .Starting)
  | .setStatus name status =>
    if name ≠ .Main ∧ name ≠ .Heartbeat ∧ (s.mSystemStatusMap name).isSome then
      some (s.setSubsystemStatus name status)
    else none
  | .heartbeat p =>
    match s.mSystemStatusMap .Heartbeat with
    | none | some .Shutdown => none
    | some _ =>
      let t := { s with heartbeat := s.heartbeat.pass json Targets p }
      if s.heartbeat.setsGood json Targets p then some (t.setSubsystemStatus .Heartbeat .Good)
      else some t
  | .shutdown => some { s with mShutdown := true }
  | .handle name status =>
    if s.mShutdown ∧ name ≠ .Main ∧ (s.mSystemStatusMap name).isSome ∧
        (status = .ShuttingDown ∨ status = .Shutdown) then
      some (s.setSubsystemStatus name status)
    else none
  | .handleMain =>
    if s.mShutdown then some { s.setSubsystemStatus .Main .ShuttingDown with Shutdown := true }
    else none
  | .snapshot order =>
    if s.toConstruct = [] ∧ s.Shutdown = false ∧ s.report = none ∧ order.Perm s.names then
      some (s.snapshot order)
    else none
  | .report =>
    match s.report with
    | none => none
    | some bad =>
      some { s.setSubsystemStatus .Main .Good with
        report := none
        lines := startupLine bad :: s.lines }
  | .mainEnds => if s.Shutdown then some (s.setSubsystemStatus .Main .Shutdown) else none
  | .connect =>
    match s.mSystemStatusMap .Main with
    | none => none
    | some .Starting => some s
    | some _ => some { s with admitted := true }

/-- A connection can be admitted. -/
def MayAdmit (s : ServerStart) : Prop := s.FullyStarted = true ∨ s.mShutdown = true

/-- The heartbeat has no reason to wait any more. -/
def Reported (s : ServerStart) : Prop := s.heartbeat.Settled ∨ s.mShutdown = true

/-- What the map says has been brought about by the subsystems. -/
structure Sound (now : ℤ) (s : ServerStart) : Prop where
  constructed : ∀ name, (s.mSystemStatusMap name).isSome ∨ name ∈ s.toConstruct
  started : ∀ name status, s.mSystemStatusMap name = some status → status ≠ .Starting →
    name ∈ s.started
  reported : .Heartbeat ∈ s.started → s.Reported
  full : s.FullyStarted = true → ∀ name, name.isIgnored = false → name ∈ s.started
  main : ∀ status, s.mSystemStatusMap .Main = some status → status ≠ .Starting → s.MayAdmit
  admitted : s.admitted = true → .Main ∈ s.started ∧ s.MayAdmit
  waiting : s.FullyStarted = false → s.lines = [] ∧ s.report = none
  once : s.lines.length + s.report.toList.length ≤ 1
  stopping : s.Shutdown = true → s.mShutdown = true
  regular : s.heartbeat.Regular now

variable {json Targets} {now : ℤ} {s t : ServerStart} {l : StartLabel}

theorem sound_start (config : Bool) : (start config now).Sound now := by
  constructor
  · intro name
    cases name <;> simp [start, construction]
  · intro name status
    cases name <;> simp [start]
  case regular => exact Heartbeat.regular_start
  all_goals simp [start]

/-- A status may be set if the heartbeat and `main` have a reason to leave `Starting`. -/
theorem Sound.setSubsystemStatus (hs : s.Sound now) {name : Subsystem}
    {status : SystemStatus}
    (hheartbeat : status ≠ .Starting → name = .Heartbeat → s.Reported)
    (hmain : status ≠ .Starting → name = .Main → s.MayAdmit) :
    (s.setSubsystemStatus name status).Sound now := by
  have hmem : ∀ n, n ∈ (s.setSubsystemStatus name status).started ↔
      n ∈ s.started ∨ n = name ∧ status ≠ .Starting := by
    intro n
    unfold ServerStart.setSubsystemStatus
    split_ifs with h <;> simp [h, or_comm]
  constructor
  · intro n
    by_cases hn : n = name
    · simp [ServerStart.setSubsystemStatus, hn]
    · simpa [ServerStart.setSubsystemStatus, hn] using hs.constructed n
  · intro n status' hstatus hne
    rw [hmem]
    by_cases hn : n = name
    · obtain rfl : status = status' := by simpa [ServerStart.setSubsystemStatus, hn] using hstatus
      exact .inr ⟨hn, hne⟩
    · refine .inl (hs.started n status' ?_ hne)
      simpa [ServerStart.setSubsystemStatus, hn] using hstatus
  · intro hstarted
    rcases (hmem _).mp hstarted with hstarted | ⟨hname, hne⟩
    · exact hs.reported hstarted
    · exact hheartbeat hne hname.symm
  · intro hfull n hn
    exact (hmem n).mpr (.inl (hs.full hfull n hn))
  · intro status' hstatus hne
    by_cases hname : name = .Main
    · obtain rfl : status = status' := by
        simpa [ServerStart.setSubsystemStatus, hname] using hstatus
      exact hmain hne hname
    · refine hs.main status' ?_ hne
      simpa [ServerStart.setSubsystemStatus, Ne.symm hname] using hstatus
  · intro hadmitted
    exact ⟨(hmem .Main).mpr (.inl (hs.admitted hadmitted).1), (hs.admitted hadmitted).2⟩
  · exact hs.waiting
  · exact hs.once
  · exact hs.stopping
  · exact hs.regular

theorem Sound.snapshot (hs : s.Sound now) {order : List Subsystem}
    (htoConstruct : s.toConstruct = []) (horder : order.Perm s.names) :
    (s.snapshot order).Sound now := by
  unfold ServerStart.snapshot
  cases hfull : s.FullyStarted with
  | true => simpa using hs
  | false =>
    cases hstarting : order.any (s.finds .Starting) with
    | true => simpa using hs
    | false =>
      have hleft : ∀ name, name.isIgnored = false → name ∈ s.started := by
        intro name hname
        have hsome : (s.mSystemStatusMap name).isSome := by
          simpa [htoConstruct] using hs.constructed name
        obtain ⟨status, hstatus⟩ := Option.isSome_iff_exists.mp hsome
        refine hs.started name status hstatus ?_
        rintro rfl
        have hmem : name ∈ order := by
          rw [horder.mem_iff, names, List.mem_filter]
          exact ⟨by cases name <;> simp [construction], hsome⟩
        have hfinds := List.any_eq_false.mp hstarting name hmem
        simp [finds, hname, hstatus] at hfinds
      have hlines := (hs.waiting hfull).1
      refine { hs with full := ?_, main := ?_, admitted := ?_, waiting := ?_, once := ?_ }
      · exact fun _ => hleft
      · exact fun _ _ _ => .inl rfl
      · exact fun hadmitted => ⟨(hs.admitted hadmitted).1, .inl rfl⟩
      · simp
      · simp [hlines]

theorem Sound.construct (hs : s.Sound now) (h : s.step json Targets .construct = some t) :
    t.Sound now := by
  simp only [ServerStart.step] at h
  split at h
  · cases h
  · rename_i name toConstruct htoConstruct
    cases h
    have ht : (s.setSubsystemStatus name .Starting).Sound now :=
      hs.setSubsystemStatus (absurd rfl) (absurd rfl)
    refine { ht with constructed := fun n => ?_ }
    by_cases hn : n = name
    · simp [ServerStart.setSubsystemStatus, hn]
    · simpa [ServerStart.setSubsystemStatus, hn, htoConstruct] using hs.constructed n

theorem Sound.setStatus (hs : s.Sound now) {name : Subsystem} {status : SystemStatus}
    (h : s.step json Targets (.setStatus name status) = some t) : t.Sound now := by
  obtain ⟨⟨hmain, hheartbeat, -⟩, h⟩ := Option.ite_none_right_eq_some.mp h
  cases h
  exact hs.setSubsystemStatus (fun _ hname => absurd hname hheartbeat)
    fun _ hname => absurd hname hmain

theorem Sound.heartbeat (hs : s.Sound now) {p : HeartbeatPass}
    (h : s.step json Targets (.heartbeat p) = some t) : t.Sound now := by
  have ht : { s with heartbeat := s.heartbeat.pass json Targets p }.Sound now :=
    { hs with
      reported := fun hstarted => (hs.reported hstarted).imp_left (·.pass)
      regular := hs.regular.pass }
  simp only [ServerStart.step] at h
  split at h
  · cases h
  · cases h
  · split_ifs at h with hgood
    · cases h
      exact ht.setSubsystemStatus (fun _ _ => .inl (Heartbeat.settled_of_setsGood hgood))
        fun _ hname => by cases hname
    · cases h
      exact ht

theorem Sound.shutdown (hs : s.Sound now) : { s with mShutdown := true }.Sound now :=
  { hs with
    reported := fun _ => .inr rfl
    main := fun _ _ _ => .inr rfl
    admitted := fun hadmitted => ⟨(hs.admitted hadmitted).1, .inr rfl⟩
    stopping := fun _ => rfl }

/-- The handlers of the shutdown, of which that of `main` sets `Shutdown`. -/
theorem Sound.handleMain (hs : s.Sound now) (h : s.step json Targets .handleMain = some t) :
    t.Sound now := by
  obtain ⟨hshutdown, h⟩ := Option.ite_none_right_eq_some.mp h
  cases h
  have ht : (s.setSubsystemStatus .Main .ShuttingDown).Sound now :=
    hs.setSubsystemStatus (fun _ _ => .inr hshutdown) fun _ _ => .inr hshutdown
  exact { ht with stopping := fun _ => hshutdown }

theorem Sound.report (hs : s.Sound now) (h : s.step json Targets .report = some t) :
    t.Sound now := by
  simp only [ServerStart.step] at h
  split at h
  · cases h
  · rename_i bad hreport
    cases h
    have hfull : s.FullyStarted = true := by
      by_contra hnot
      have hnone := (hs.waiting (by simpa using hnot)).2
      simp [hreport] at hnone
    have ht : (s.setSubsystemStatus .Main .Good).Sound now :=
      hs.setSubsystemStatus (fun _ hname => by cases hname) fun _ _ => .inl hfull
    refine { ht with waiting := ?_, once := ?_ }
    · intro hnot
      simp [ServerStart.setSubsystemStatus, hfull] at hnot
    · simpa [hreport] using hs.once

theorem Sound.connect (hs : s.Sound now) (h : s.step json Targets .connect = some t) :
    t.Sound now := by
  simp only [ServerStart.step] at h
  split at h
  · cases h
  · cases h
    exact hs
  · rename_i status hne hstatus
    cases h
    have hmain : Subsystem.Main ∈ s.started := hs.started .Main status hstatus hne
    exact { hs with admitted := fun _ => ⟨hmain, hs.main status hstatus hne⟩ }

theorem Sound.step (hs : s.Sound now) (h : s.step json Targets l = some t) : t.Sound now := by
  cases l with
  | construct => exact hs.construct h
  | setStatus name status => exact hs.setStatus h
  | heartbeat p => exact hs.heartbeat h
  | shutdown => exact Option.some.inj h ▸ hs.shutdown
  | handle name status =>
    obtain ⟨⟨hshutdown, hmain, -⟩, h⟩ := Option.ite_none_right_eq_some.mp h
    cases h
    exact hs.setSubsystemStatus (fun _ _ => .inr hshutdown) fun _ hname => absurd hname hmain
  | handleMain => exact hs.handleMain h
  | snapshot order =>
    obtain ⟨⟨htoConstruct, -, -, horder⟩, h⟩ := Option.ite_none_right_eq_some.mp h
    cases h
    exact hs.snapshot htoConstruct horder
  | report => exact hs.report h
  | mainEnds =>
    obtain ⟨hShutdown, h⟩ := Option.ite_none_right_eq_some.mp h
    cases h
    exact hs.setSubsystemStatus (fun _ hname => by cases hname)
      fun _ _ => .inr (hs.stopping hShutdown)
  | connect => exact hs.connect h

/-- In every order of the steps of `main`, of the subsystems, of the shutdown and of connections:
until a shutdown has begun, a connection gets beyond the first check of `Authentication` only
after every subsystem but the check for updates has left `Starting`, and, unless the heartbeat
has found the server private, only after the backend has accepted the key. The result of the
start is reported at most once. -/
theorem admitted_after_start (json : JsonText) (Targets : List Bytes) (config : Bool) (now : ℤ)
    (labels : List StartLabel) (s : ServerStart)
    (hrun : run (step json Targets) (start config now) labels = some s) :
    (s.admitted = true → s.mShutdown = true ∨
      (∀ name, name ≠ .UpdateCheck → name ∈ s.started) ∧
      (s.heartbeat.wentPrivate = true ∨
        ∃ line ∈ s.heartbeat.log, AuthLine.isRefused line = false)) ∧
    s.lines.length ≤ 1 := by
  have hs : s.Sound now :=
    run_invariant_of_step (I := fun s : ServerStart => s.Sound now)
      (fun _ _ _ hs h => hs.step h) (sound_start config) hrun
  refine ⟨fun hadmitted => ?_, (Nat.le_add_right _ _).trans hs.once⟩
  obtain ⟨hmain, hfull | hshutdown⟩ := hs.admitted hadmitted
  · have hstarted : ∀ name, name ≠ .UpdateCheck → name ∈ s.started := by
      intro name hname
      by_cases hignored : name = .Main
      · exact hignored ▸ hmain
      · exact hs.full hfull name (by simp [Subsystem.isIgnored, hname, hignored])
    rcases hs.reported (hstarted .Heartbeat (by decide)) with (hauth | hprivate) | hshutdown
    · exact .inr ⟨hstarted, .inr (hs.regular.reported.mp hauth)⟩
    · exact .inr ⟨hstarted, .inl hprivate⟩
    · exact .inl hshutdown
  · exact .inl hshutdown

/-- A backend that accepts every key. -/
def acceptingBackend : JsonText where
  parse _ := some (.object [(ascii "status", .string (ascii "2000")),
    (ascii "code", .string []), (ascii "msg", .string [])])
  dump _ := none

def samplePass : HeartbeatPass where
  Now := seconds 30
  Body := []
  reply _ := ⟨[], some 200⟩
  privateAtAuth := false
  privateAtStatus := false
  ImScaredOfUpdates := true
  UpdateReminderTimeout := 0
  checkedAt := seconds 31

/-- All subsystems start, and a connection is refused before the report and admitted after it. -/
def sampleStart : List StartLabel :=
  construction.map (fun _ => .construct) ++
    (construction.filter fun name => name ≠ .Main ∧ name ≠ .Heartbeat).map (.setStatus · .Good) ++
    [.connect, .snapshot (.Config :: construction), .heartbeat samplePass,
      .snapshot (.Config :: construction), .report, .connect]

theorem admitted_after_start_sample :
    ∃ s, run (step acceptingBackend [ascii "/heartbeat"]) (start true 0) sampleStart = some s ∧
      s.admitted = true ∧ ∃ line ∈ s.heartbeat.log, AuthLine.isRefused line = false := by
  have hfields : (run (step acceptingBackend [ascii "/heartbeat"]) (start true 0) sampleStart).map
      (fun s => (s.admitted, s.mShutdown, s.heartbeat.wentPrivate)) =
        some (true, false, false) := by
    decide +kernel
  obtain ⟨s, hrun, hs⟩ := Option.map_eq_some_iff.mp hfields
  simp only [Prod.mk.injEq] at hs
  obtain ⟨hadmitted, hshutdown, hprivate⟩ := hs
  refine ⟨s, hrun, hadmitted, ?_⟩
  rcases (admitted_after_start acceptingBackend [ascii "/heartbeat"] true 0 sampleStart s hrun).1
    hadmitted with hstopping | ⟨-, hwent | haccepted⟩
  · simp [hshutdown] at hstopping
  · simp [hprivate] at hwent
  · exact haccepted

end ServerStart
end BeamMP
