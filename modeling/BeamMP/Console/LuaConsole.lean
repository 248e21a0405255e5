import BeamMP.Console.Autocomplete
import BeamMP.Console.ParseCommand
import BeamMP.Lua.ScriptRuns

/-!
# Attaching the console to a Lua state

The command `lua` attaches the console to a state, and `:exit` detaches it. In between,
a line is a script of this state, and the console waits for its result. Each of the two
modes has its own history. The library that reads the lines keeps the current history;
how it adds a line to it is a parameter, since it forgets old lines. The other commands
change neither the mode nor the histories; what they throw is logged.
-/
namespace BeamMP

open Execution

/-- `mDefaultStateId`. -/
def defaultStateId : TLuaStateId := ascii "BEAMMP_SERVER_CONSOLE"

/-- What `on_command` waits for. -/
inductive ConsolePhase
  | idle
  | attaching (LuaStateId : TLuaStateId) (Result : ℕ)
  | running (Result : ℕ)
deriving DecidableEq

/-- The console with the lines that were entered in each of its modes. `threw` is an exception
of `EnqueueScript`, which `on_command` logs. -/
structure LuaConsole (α : Type) extends ScriptRuns α where
  hasEngine : Bool
  mIsLuaConsole : Bool
  mStateId : TLuaStateId
  prompt : Bytes
  history : List Bytes
  mCachedLuaHistory : List Bytes
  mCachedRegularHistory : List Bytes
  phase : ConsolePhase
  threw : Bool
  luaLines : List Bytes
  regularLines : List Bytes

/-- `addToHistory` is what the library does with a line, and `command` the call of `on_command`. -/
inductive ConsoleLabel (α : Type)
  | queues (l : QueueLabel α)
  | initializeLuaConsole
  | addToHistory (line : Bytes)
  | command (line : Bytes)
  | resultReady

/-- The prompt while the console is attached to a state. -/
def luaPrompt (LuaStateId : TLuaStateId) : Bytes :=
  if LuaStateId ≠ defaultStateId then ascii "lua @" ++ LuaStateId ++ ascii "> "
  else ascii "lua> "

namespace LuaConsole

variable {α : Type} (remember : List Bytes → Bytes → List Bytes) (s : LuaConsole α)

/-- The console after `InitializeCommandline`. -/
def start (α : Type) : LuaConsole α where
  queues := LuaQueues.start α
  issued := []
  failed := []
  hasEngine := false
  mIsLuaConsole := false
  mStateId := []
  prompt := ascii "> "
  history := []
  mCachedLuaHistory := []
  mCachedRegularHistory := []
  phase := .idle
  threw := false
  luaLines := []
  regularLines := []

/-- `ChangeToLuaConsole` once the state of the console exists. -/
def attach (LuaStateId : TLuaStateId) : LuaConsole α :=
  { s with
    mStateId := LuaStateId
    mIsLuaConsole := true
    prompt := luaPrompt LuaStateId
    mCachedRegularHistory := s.history
    history := s.mCachedLuaHistory
    phase := .idle }

/-- `EnsureStateExists`, which calls `onInit` of a new state and waits for it. -/
def ensureDefaultState : Option (ScriptRuns α × Option ℕ) :=
  match s.queues.mLuaStates defaultStateId with
  | some _ => some (s.toScriptRuns, none)
  | none =>
    (s.queues.step (.ensureStateExists defaultStateId)).bind fun queues =>
      (queues.step (.enqueueFunctionCall defaultStateId
        ⟨ascii "onInit", [], ascii "onInit"⟩)).map fun queues' =>
          ({ s.toScriptRuns with queues := queues' }, some queues.nextResult)

def changeToLuaConsole (LuaStateId : TLuaStateId) : Option (LuaConsole α) :=
  if s.mIsLuaConsole = false ∧ s.hasEngine = true then
    s.ensureDefaultState.map fun r =>
      match r.2 with
      | none => { s with toScriptRuns := r.1 }.attach LuaStateId
      | some Result => { s with toScriptRuns := r.1, phase := .attaching LuaStateId Result }
  else some s

def changeToRegularConsole : LuaConsole α :=
  if s.mIsLuaConsole then
    { s with
      mIsLuaConsole := false
      mCachedLuaHistory := s.history
      history := s.mCachedRegularHistory
      prompt := ascii "> "
      mStateId := defaultStateId }
  else s

def commandLua : List Bytes → Option (LuaConsole α)
  | [] => s.changeToLuaConsole defaultStateId
  | [NewStateId] =>
    if (s.queues.mLuaStates NewStateId).isSome then s.changeToLuaConsole NewStateId else some s
  | _ => some s

/-- `HandleLuaInternalCommand`, of whose commands only `exit` does more than write. -/
def handleLuaInternalCommand (cmd : Bytes) : LuaConsole α :=
  if cmd = ascii "exit" then s.changeToRegularConsole else s

/-- A line that is a script. `EnqueueScript` throws if there is no such state. -/
def runLine (TrimmedCmd : Bytes) : LuaConsole α :=
  match s.enqueueScript s.mStateId ⟨TrimmedCmd, [], []⟩ with
  | some toScriptRuns => { s with toScriptRuns, phase := .running s.queues.nextResult }
  | none => { s with threw := true }

/-- `on_command`. A command other than `lua`, thrown out of or not, leaves the mode as it is. -/
def command (line : Bytes) : Option (LuaConsole α) :=
  if s.phase = .idle then
    (parseCommand (trimString line)).bind fun (cmd, args) =>
      if s.hasEngine = false then some s
      else if s.mIsLuaConsole then
        if cmd.head? = some ':'.toUInt8 then some (s.handleLuaInternalCommand cmd.tail)
        else some (s.runLine (trimString line))
      else if cmd = ascii "lua" then s.commandLua args
      else some s
  else none

/-- `on_command` goes on when the result it waits for is ready. -/
def resultReady : Option (LuaConsole α) :=
  match s.phase with
  | .idle => none
  | .attaching LuaStateId Result =>
    if (s.queues.results Result).isSome then some (s.attach LuaStateId) else none
  | .running Result =>
    (s.checkResult s.mStateId Result).map fun toScriptRuns =>
      { s with toScriptRuns, phase := .idle }

def step : ConsoleLabel α → Option (LuaConsole α)
  | .queues l => (s.queues.step l).map fun queues => { s with queues }
  | .initializeLuaConsole => some { s with hasEngine := true }
  | .addToHistory line =>
    if s.mIsLuaConsole then
      some { s with history := remember s.history line, luaLines := s.luaLines ++ [line] }
    else
      some { s with history := remember s.history line, regularLines := s.regularLines ++ [line] }
  | .command line => s.command line
  | .resultReady => s.resultReady

/-- What the library remembers of some lines. -/
def kept (lines : List Bytes) : List Bytes := lines.foldl remember []

/-- The mode, the prompt and the histories fit together, and the attached state exists. -/
structure Consistent : Prop where
  prompt : s.prompt = if s.mIsLuaConsole then luaPrompt s.mStateId else ascii "> "
  attached : s.mIsLuaConsole = true → (s.queues.mLuaStates s.mStateId).isSome
  luaHistory : (if s.mIsLuaConsole then s.history else s.mCachedLuaHistory) =
    kept remember s.luaLines
  regularHistory : (if s.mIsLuaConsole then s.mCachedRegularHistory else s.history) =
    kept remember s.regularLines
  attaching : ∀ LuaStateId Result, s.phase = .attaching LuaStateId Result →
    s.mIsLuaConsole = false ∧ (s.queues.mLuaStates LuaStateId).isSome
  alive : s.threw = false

/-- At most one script has not been checked yet, which is the one that is waited for. -/
def Awaits : Prop :=
  match s.phase with
  | .running Result => ∃ checked e, s.Checked Prod.fst checked [e] ∧ e.1 = s.mStateId ∧
      e.2.Result = Result ∧ s.mIsLuaConsole = true
  | _ => s.Checked Prod.fst s.issued []

variable {remember} {s} {t : LuaConsole α}

/-- What is kept by every step. -/
structure Sane (remember : List Bytes → Bytes → List Bytes) (s : LuaConsole α) : Prop where
  placed : s.Placed
  consistent : s.Consistent remember
  awaits : s.Awaits

theorem sane_start : (start α).Sane remember where
  placed := ⟨LuaQueues.sound_start, fun _ _ => rfl,
    fun _ _ h => absurd h (by simp [start, LuaQueues.start])⟩
  consistent := ⟨rfl, by simp [start], rfl, rfl, by simp [start], rfl⟩
  awaits := ⟨rfl, by simp [start], rfl⟩

theorem Awaits.of_checked {sr : ScriptRuns α} (hs : s.Awaits) (hissued : sr.issued = s.issued)
    (hchecked : ∀ checked unchecked, s.Checked Prod.fst checked unchecked →
      sr.Checked Prod.fst checked unchecked) :
    ({ s with toScriptRuns := sr } : LuaConsole α).Awaits := by
  unfold Awaits at hs ⊢
  cases hphase : s.phase with
  | running Result =>
    rw [hphase] at hs
    obtain ⟨checked, e, hrest, hstate⟩ := hs
    exact ⟨checked, e, hchecked _ _ hrest, hstate⟩
  | idle =>
    rw [hphase] at hs
    exact hissued ▸ hchecked _ _ hs
  | attaching LuaStateId Result =>
    rw [hphase] at hs
    exact hissued ▸ hchecked _ _ hs

theorem Consistent.of_states {sr : ScriptRuns α} (hs : s.Consistent remember)
    (hstates : ∀ StateId, (s.queues.mLuaStates StateId).isSome →
      (sr.queues.mLuaStates StateId).isSome) :
    ({ s with toScriptRuns := sr } : LuaConsole α).Consistent remember where
  prompt := hs.prompt
  attached hlua := hstates _ (hs.attached hlua)
  luaHistory := hs.luaHistory
  regularHistory := hs.regularHistory
  attaching _ _ hphase := ⟨(hs.attaching _ _ hphase).1, hstates _ (hs.attaching _ _ hphase).2⟩
  alive := hs.alive

theorem Sane.queues_step (hs : s.Sane remember) {l : QueueLabel α} {queues : LuaQueues α}
    (h : s.queues.step l = some queues) :
    ({ s with queues } : LuaConsole α).Sane remember where
  placed := hs.placed.queues_step h
  consistent := hs.consistent.of_states fun _ => LuaQueues.isSome_mLuaStates_step h
  awaits := hs.awaits.of_checked rfl fun _ _ hchecked => hchecked.queues_step hs.placed.sound h

theorem Sane.attach (hs : s.Sane remember) (hregular : s.mIsLuaConsole = false)
    {LuaStateId : TLuaStateId} (hstate : (s.queues.mLuaStates LuaStateId).isSome)
    (hchecked : s.Checked Prod.fst s.issued []) : (s.attach LuaStateId).Sane remember := by
  have hlua := hs.consistent.luaHistory
  have hold := hs.consistent.regularHistory
  rw [hregular] at hlua hold
  exact ⟨⟨hs.placed.sound, hs.placed.none, hs.placed.sublist⟩,
    ⟨rfl, fun _ => hstate, hlua, hold, by simp [LuaConsole.attach], hs.consistent.alive⟩,
    hchecked⟩

/-- The state of the console exists afterwards, and nothing else is different. -/
theorem Sane.ensureDefaultState (hs : s.Sane remember) {r : ScriptRuns α × Option ℕ}
    (h : s.ensureDefaultState = some r) :
    ({ s with toScriptRuns := r.1 } : LuaConsole α).Sane remember ∧
      (r.1.queues.mLuaStates defaultStateId).isSome ∧
      ∀ StateId, (s.queues.mLuaStates StateId).isSome →
        (r.1.queues.mLuaStates StateId).isSome := by
  unfold LuaConsole.ensureDefaultState at h
  split at h
  · rename_i d hd
    obtain rfl := Option.some.inj h
    exact ⟨⟨hs.placed, hs.consistent, hs.awaits⟩, hd ▸ rfl, fun _ hstate => hstate⟩
  · rename_i hnone
    obtain ⟨queues, hqueues, h⟩ := Option.bind_eq_some_iff.mp h
    obtain ⟨queues', hqueues', rfl⟩ := Option.map_eq_some_iff.mp h
    have hfirst := hs.queues_step hqueues
    have hnew : (queues.mLuaStates defaultStateId).isSome := by
      simp only [LuaQueues.step, hnone] at hqueues
      rw [← Option.some.inj hqueues]
      have hself : Locals.enter s.queues.mLuaStates defaultStateId {} defaultStateId = some {} :=
        Locals.enter_self
      exact Option.isSome_iff_exists.mpr ⟨{}, hself⟩
    exact ⟨hfirst.queues_step hqueues', LuaQueues.isSome_mLuaStates_step hqueues' hnew,
      fun _ hstate => LuaQueues.isSome_mLuaStates_step hqueues'
        (LuaQueues.isSome_mLuaStates_step hqueues hstate)⟩

theorem Sane.changeToLuaConsole (hs : s.Sane remember) (hidle : s.phase = .idle)
    {LuaStateId : TLuaStateId}
    (hstate : LuaStateId = defaultStateId ∨ (s.queues.mLuaStates LuaStateId).isSome)
    (h : s.changeToLuaConsole LuaStateId = some t) : t.Sane remember := by
  unfold LuaConsole.changeToLuaConsole at h
  split_ifs at h with hregular
  · obtain ⟨⟨sr, made⟩, hensure, rfl⟩ := Option.map_eq_some_iff.mp h
    obtain ⟨hsane, hdefault, hstates⟩ := hs.ensureDefaultState hensure
    have hexists : (sr.queues.mLuaStates LuaStateId).isSome := by
      rcases hstate with rfl | hstate
      · exact hdefault
      · exact hstates _ hstate
    have hchecked : sr.Checked Prod.fst sr.issued [] := by
      have hawaits := hsane.awaits
      unfold Awaits at hawaits
      simpa [hidle] using hawaits
    cases made with
    | none => exact hsane.attach hregular.1 hexists hchecked
    | some Result =>
      refine ⟨hsane.placed, ⟨hsane.consistent.prompt, hsane.consistent.attached,
        hsane.consistent.luaHistory, hsane.consistent.regularHistory, ?_,
        hsane.consistent.alive⟩, hchecked⟩
      intro LuaStateId' Result' hphase
      obtain ⟨rfl, -⟩ := ConsolePhase.attaching.inj hphase
      exact ⟨hregular.1, hexists⟩
  · exact Option.some.inj h ▸ hs

theorem Sane.changeToRegularConsole (hs : s.Sane remember) (hidle : s.phase = .idle) :
    s.changeToRegularConsole.Sane remember := by
  unfold LuaConsole.changeToRegularConsole
  split_ifs with hlua
  · have hold := hs.consistent.luaHistory
    have hregular := hs.consistent.regularHistory
    have hawaits := hs.awaits
    unfold Awaits at hawaits
    rw [if_pos hlua] at hold hregular
    refine ⟨⟨hs.placed.sound, hs.placed.none, hs.placed.sublist⟩,
      ⟨rfl, by simp, hold, hregular, by simp [hidle], hs.consistent.alive⟩, ?_⟩
    unfold Awaits
    simpa [hidle] using hawaits
  · exact hs

theorem Sane.runLine (hs : s.Sane remember) (hidle : s.phase = .idle)
    (hlua : s.mIsLuaConsole = true) (TrimmedCmd : Bytes) :
    (s.runLine TrimmedCmd).Sane remember := by
  obtain ⟨d, hd⟩ := Option.isSome_iff_exists.mp (hs.consistent.attached hlua)
  unfold LuaConsole.runLine
  have hawaits := hs.awaits
  unfold Awaits at hawaits
  rw [hidle] at hawaits
  split
  · rename_i sr hsr
    have hconsistent : ({ s with toScriptRuns := sr } : LuaConsole α).Consistent remember :=
      hs.consistent.of_states fun StateId hstate => by
        obtain ⟨queues, hqueues, rfl⟩ := Option.map_eq_some_iff.mp hsr
        exact LuaQueues.isSome_mLuaStates_step hqueues hstate
    refine ⟨hs.placed.enqueueScript hsr, ⟨hconsistent.prompt, hconsistent.attached,
      hconsistent.luaHistory, hconsistent.regularHistory, by simp, hconsistent.alive⟩, ?_⟩
    exact ⟨s.issued, _, hawaits.enqueueScript hs.placed.sound hsr, rfl, rfl, hlua⟩
  · rename_i hnone
    simp [ScriptRuns.enqueueScript, LuaQueues.step, hd] at hnone

theorem Sane.command (hs : s.Sane remember) {line : Bytes} (h : s.command line = some t) :
    t.Sane remember := by
  unfold LuaConsole.command at h
  by_cases hidle : s.phase = .idle
  swap
  · rw [if_neg hidle] at h
    exact absurd h (by simp)
  rw [if_pos hidle] at h
  obtain ⟨⟨cmd, args⟩, -, h⟩ := Option.bind_eq_some_iff.mp h
  dsimp only at h
  split_ifs at h with hengine hlua hinternal hcommand
  · exact Option.some.inj h ▸ hs
  · rw [← Option.some.inj h, handleLuaInternalCommand]
    split_ifs
    · exact hs.changeToRegularConsole hidle
    · exact hs
  · exact Option.some.inj h ▸ hs.runLine hidle hlua _
  · unfold commandLua at h
    split at h
    · exact hs.changeToLuaConsole hidle (.inl rfl) h
    · split_ifs at h with hstate
      · exact hs.changeToLuaConsole hidle (.inr hstate) h
      · exact Option.some.inj h ▸ hs
    · exact Option.some.inj h ▸ hs
  · exact Option.some.inj h ▸ hs

theorem Sane.resultReady (hs : s.Sane remember) (h : s.resultReady = some t) :
    t.Sane remember := by
  have hawaits := hs.awaits
  unfold Awaits at hawaits
  unfold LuaConsole.resultReady at h
  split at h
  · exact absurd h (by simp)
  · rename_i LuaStateId Result hphase
    split_ifs at h with hready
    rw [← Option.some.inj h]
    obtain ⟨hregular, hstate⟩ := hs.consistent.attaching _ _ hphase
    rw [hphase] at hawaits
    exact hs.attach hregular hstate hawaits
  · rename_i Result hphase
    obtain ⟨sr, hsr, rfl⟩ := Option.map_eq_some_iff.mp h
    rw [hphase] at hawaits
    obtain ⟨checked, e, hchecked, hstate, rfl, -⟩ := hawaits
    rw [← hstate] at hsr
    have hnext := hchecked.checkResult hsr
    obtain ⟨-, rfl⟩ := ScriptRuns.checkResult_eq_some hsr
    have hissued : s.issued = checked ++ [e] := hchecked.split
    refine ⟨⟨hs.placed.sound, hs.placed.none, hs.placed.sublist⟩, ⟨hs.consistent.prompt,
      hs.consistent.attached, hs.consistent.luaHistory, hs.consistent.regularHistory, by simp,
      hs.consistent.alive⟩, ?_⟩
    exact hissued ▸ hnext

theorem Sane.addToHistory (hs : s.Sane remember) {line : Bytes}
    (h : s.step remember (.addToHistory line) = some t) : t.Sane remember := by
  have hlua := hs.consistent.luaHistory
  have hregular := hs.consistent.regularHistory
  have hplaced := hs.placed
  simp only [step] at h
  split_ifs at h with hmode
  · rw [if_pos hmode] at hlua hregular
    rw [← Option.some.inj h]
    refine ⟨⟨hplaced.sound, hplaced.none, hplaced.sublist⟩, ⟨hs.consistent.prompt,
      hs.consistent.attached, ?_, ?_, hs.consistent.attaching, hs.consistent.alive⟩, hs.awaits⟩
    · simp [kept, hmode, hlua]
    · simp [hmode, hregular]
  · rw [if_neg hmode] at hlua hregular
    rw [← Option.some.inj h]
    refine ⟨⟨hplaced.sound, hplaced.none, hplaced.sublist⟩, ⟨hs.consistent.prompt,
      hs.consistent.attached, ?_, ?_, hs.consistent.attaching, hs.consistent.alive⟩, hs.awaits⟩
    · simp [hmode, hlua]
    · simp [kept, hmode, hregular]

theorem Sane.step (hs : s.Sane remember) {l : ConsoleLabel α} (h : s.step remember l = some t) :
    t.Sane remember := by
  cases l with
  | queues l =>
    obtain ⟨queues, hqueues, rfl⟩ := Option.map_eq_some_iff.mp h
    exact hs.queues_step hqueues
  | initializeLuaConsole =>
    obtain rfl := Option.some.inj h
    exact ⟨⟨hs.placed.sound, hs.placed.none, hs.placed.sublist⟩, ⟨hs.consistent.prompt,
      hs.consistent.attached, hs.consistent.luaHistory, hs.consistent.regularHistory,
      hs.consistent.attaching, hs.consistent.alive⟩, hs.awaits⟩
  | addToHistory line => exact hs.addToHistory h
  | command line => exact hs.command h
  | resultReady => exact hs.resultReady h

/-- In every interleaving of lines, results and the work of other threads: the state that the
console is attached to exists, so that `EnqueueScript` never throws; the prompt and the histories
are those of the mode; and of the scripts that were entered all have been run but the one that
is waited for, and the logged errors are theirs. -/
theorem attached_consistently (remember : List Bytes → Bytes → List Bytes)
    (labels : List (ConsoleLabel α)) (s : LuaConsole α)
    (hrun : run (step remember) (start α) labels = some s) :
    s.threw = false ∧
    (s.mIsLuaConsole = true → (s.queues.mLuaStates s.mStateId).isSome) ∧
    (s.prompt = if s.mIsLuaConsole then luaPrompt s.mStateId else ascii "> ") ∧
    ((if s.mIsLuaConsole then s.history else s.mCachedLuaHistory) = kept remember s.luaLines ∧
      (if s.mIsLuaConsole then s.mCachedRegularHistory else s.history) =
        kept remember s.regularLines) ∧
    (∀ e ∈ s.issued, (s.queues.results e.2.Result).isSome = false →
      s.phase = .running e.2.Result ∧ s.mStateId = e.1 ∧ s.mIsLuaConsole = true) ∧
    (s.phase = .idle → s.failed = s.issued.flatMap fun e =>
      failureOf e.1 (s.queues.results e.2.Result)) := by
  have hs : s.Sane remember :=
    run_invariant_of_step (I := fun s : LuaConsole α => s.Sane remember)
      (fun _ _ _ hs h => hs.step h) sane_start hrun
  have hawaits := hs.awaits
  unfold Awaits at hawaits
  refine ⟨hs.consistent.alive, hs.consistent.attached, hs.consistent.prompt,
    ⟨hs.consistent.luaHistory, hs.consistent.regularHistory⟩, fun e he hunready => ?_,
    fun hidle => ?_⟩
  · cases hphase : s.phase with
    | running Result =>
      rw [hphase] at hawaits
      obtain ⟨checked, e', hchecked, hstate, rfl, hlua⟩ := hawaits
      obtain rfl := List.mem_singleton.mp (hchecked.mem_unchecked he hunready)
      exact ⟨rfl, hstate.symm, hlua⟩
    | idle =>
      rw [hphase] at hawaits
      exact absurd (ScriptRuns.Checked.mem_unchecked hawaits he hunready) List.not_mem_nil
    | attaching LuaStateId Result =>
      rw [hphase] at hawaits
      exact absurd (ScriptRuns.Checked.mem_unchecked hawaits he hunready) List.not_mem_nil
  · rw [hidle] at hawaits
    exact ScriptRuns.Checked.failed hawaits

/-- The console is attached to a plugin's state, where a script fails, and detached again. -/
def sampleSession : List (ConsoleLabel Unit) :=
  [.initializeLuaConsole, .queues (.ensureStateExists (ascii "plugin")),
    .queues (.ensureStateExists defaultStateId), .addToHistory (ascii "lua plugin"),
    .command (ascii " lua plugin"), .addToHistory (ascii "x()"), .command (ascii "x()")] ++
  ([.checkShutdown, .takeScript, .finishScript (.error (ascii "x"))].map fun a =>
    .queues (.thread (ascii "plugin") a)) ++ [.resultReady, .command (ascii ":exit")]

theorem attached_consistently_sample :
    ∃ s, run (step fun lines line => lines ++ [line]) (start Unit) sampleSession = some s ∧
      s.failed = [(ascii "plugin", ascii "x")] ∧ s.history = [ascii "lua plugin"] ∧
      s.mCachedLuaHistory = [ascii "x()"] ∧ s.threw = false :=
  ⟨_, rfl, rfl, rfl, rfl,
    (attached_consistently (fun lines line => lines ++ [line]) sampleSession _ rfl).1⟩

end LuaConsole
end BeamMP
