import BeamMP.Lua.Plugins
import BeamMP.Lua.ScriptRuns

/-!
# Loading the plugins

Before it triggers `onInit`, the thread of the engine initializes one plugin after the
other: it makes the plugin's state, appends the scripts to the queue of this state and
waits for all of them. Meanwhile the threads of the states run, and any thread can
append to the queues.
-/
namespace BeamMP

open Execution WorkQueues

/-- How far the thread of the engine has come in `CollectAndInitPlugins`, with the plugins, the
scripts and the results that are left. -/
inductive StartupPhase
  | collect
  | plugins (PluginsEntries : List PluginEntry)
  | entries (plugin : PluginEntry) (PluginsEntries : List PluginEntry)
  | scripts (plugin : PluginEntry) (Entries : List PluginFile)
      (ResultsToCheck : List (Bytes × ℕ)) (PluginsEntries : List PluginEntry)
  | waits (plugin : PluginEntry) (ResultsToCheck : List (Bytes × ℕ))
      (PluginsEntries : List PluginEntry)
  | collected

def StartupPhase.current : StartupPhase → Option PluginEntry
  | .scripts plugin _ _ _ | .waits plugin _ _ => some plugin
  | _ => none

structure Startup (α : Type) extends ScriptRuns α where
  phase : StartupPhase

inductive StartupLabel (α : Type)
  | queues (l : QueueLabel α)
  | sortPlugins (PluginsEntries : List PluginEntry)
  | initializePlugin
  | sortEntries (Entries : List PluginFile)
  | loadEntry
  | resultReady
  | leave

namespace Startup

variable {α : Type} (entries : List PluginEntry) (s : Startup α)

def start (α : Type) : Startup α where
  queues := LuaQueues.start α
  phase := .collect
  issued := []
  failed := []

/-- A step of the loop over the scripts, which goes on to the results behind the last one. -/
def loadEntry : Option (Startup α) :=
  match s.phase with
  | .scripts plugin [] ResultsToCheck PluginsEntries =>
    some { s with phase := .waits plugin ResultsToCheck PluginsEntries }
  | .scripts plugin (Entry :: Entries) ResultsToCheck PluginsEntries =>
    match plugin.chunk Entry with
    | none => some { s with phase := .scripts plugin Entries ResultsToCheck PluginsEntries }
    | some (StateId, Chunk) =>
      (s.enqueueScript StateId Chunk).map fun toScriptRuns =>
        { toScriptRuns, phase := .scripts plugin Entries
            (ResultsToCheck ++ [(Entry.path, s.queues.nextResult)]) PluginsEntries }
  | _ => none

/-- A step of the loop over the results. -/
def resultReady : Option (Startup α) :=
  match s.phase with
  | .waits _ [] PluginsEntries => some { s with phase := .plugins PluginsEntries }
  | .waits plugin ((FileName, Result) :: ResultsToCheck) PluginsEntries =>
    (s.checkResult FileName Result).map fun toScriptRuns =>
      { toScriptRuns, phase := .waits plugin ResultsToCheck PluginsEntries }
  | _ => none

/-- A step of `CollectAndInitPlugins` with these entries of the directory, or of the queues. -/
def step : StartupLabel α → Option (Startup α)
  | .queues l => (s.queues.step l).map fun queues => { s with queues }
  | .sortPlugins PluginsEntries =>
    match s.phase with
    | .collect =>
      if IsSorted PluginEntry.path (entries.filter (·.isDirectory)) PluginsEntries then
        some { s with phase := .plugins PluginsEntries }
      else none
    | _ => none
  | .initializePlugin =>
    match s.phase with
    | .plugins (plugin :: PluginsEntries) =>
      (s.queues.step (.ensureStateExists plugin.StateId)).map fun queues =>
        { s with queues, phase := .entries plugin PluginsEntries }
    | _ => none
  | .sortEntries Entries =>
    match s.phase with
    | .entries plugin PluginsEntries =>
      if IsSorted PluginFile.path plugin.scripts Entries then
        some { s with phase := .scripts plugin Entries [] PluginsEntries }
      else none
    | _ => none
  | .loadEntry => s.loadEntry
  | .resultReady => s.resultReady
  | .leave =>
    match s.phase with
    | .plugins [] => some { s with phase := .collected }
    | _ => none

/-- The plugins were sorted, and after those in this order some are left. -/
structure Underway (order : List (PluginEntry × List PluginFile))
    (left : List PluginEntry) : Prop where
  plugins : IsSorted PluginEntry.path (entries.filter (·.isDirectory)) (order.map Prod.fst ++ left)
  scripts : ∀ p ∈ order, IsSorted PluginFile.path p.1.scripts p.2

def toCheck (e : TLuaStateId × Queued TLuaChunk) : Bytes × ℕ := (fileNameOf e, e.2.Result)

def Progress (s : ScriptRuns α) : StartupPhase → Prop
  | .collect => s.Checked fileNameOf [] []
  | .plugins PluginsEntries => ∃ order, Underway entries order PluginsEntries ∧
      s.issued.map (fun e => (e.1, e.2.value)) = chunksOf order ∧ s.Checked fileNameOf s.issued []
  | .entries plugin PluginsEntries => ∃ order,
      Underway entries order (plugin :: PluginsEntries) ∧
      s.issued.map (fun e => (e.1, e.2.value)) = chunksOf order ∧ s.Checked fileNameOf s.issued []
  | .scripts plugin Entries ResultsToCheck PluginsEntries => ∃ order loaded checked unchecked,
      Underway entries (order ++ [(plugin, loaded ++ Entries)]) PluginsEntries ∧
      s.issued.map (fun e => (e.1, e.2.value)) =
        chunksOf order ++ loaded.filterMap plugin.chunk ∧
      s.Checked fileNameOf checked unchecked ∧ unchecked.map toCheck = ResultsToCheck ∧
      ∀ e ∈ unchecked, e.2.value.PluginPath = plugin.relative
  | .waits plugin ResultsToCheck PluginsEntries => ∃ order checked unchecked,
      Underway entries order PluginsEntries ∧
      s.issued.map (fun e => (e.1, e.2.value)) = chunksOf order ∧
      s.Checked fileNameOf checked unchecked ∧ unchecked.map toCheck = ResultsToCheck ∧
      ∀ e ∈ unchecked, e.2.value.PluginPath = plugin.relative
  | .collected => ∃ order, LoadOrder entries order ∧
      s.issued.map (fun e => (e.1, e.2.value)) = chunksOf order ∧ s.Checked fileNameOf s.issued []

variable {entries : List PluginEntry} {s : Startup α} {queues : LuaQueues α} {l : QueueLabel α}

theorem Progress.queues_step {s : ScriptRuns α} {phase : StartupPhase}
    (hs : Progress entries s phase) (hsound : s.queues.Sound) (h : s.queues.step l = some queues) :
    Progress entries { s with queues } phase := by
  cases phase with
  | collect =>
    exact ScriptRuns.Checked.queues_step hs hsound h
  | plugins PluginsEntries =>
    obtain ⟨order, hunderway, hissued, hchecked⟩ := hs
    exact ⟨order, hunderway, hissued, hchecked.queues_step hsound h⟩
  | entries plugin PluginsEntries =>
    obtain ⟨order, hunderway, hissued, hchecked⟩ := hs
    exact ⟨order, hunderway, hissued, hchecked.queues_step hsound h⟩
  | scripts plugin Entries ResultsToCheck PluginsEntries =>
    obtain ⟨order, loaded, checked, unchecked, hunderway, hissued, hchecked, hrest⟩ := hs
    exact ⟨order, loaded, checked, unchecked, hunderway, hissued,
      hchecked.queues_step hsound h, hrest⟩
  | waits plugin ResultsToCheck PluginsEntries =>
    obtain ⟨order, checked, unchecked, hunderway, hissued, hchecked, hrest⟩ := hs
    exact ⟨order, checked, unchecked, hunderway, hissued, hchecked.queues_step hsound h, hrest⟩
  | collected =>
    obtain ⟨order, hloaded, hissued, hchecked⟩ := hs
    exact ⟨order, hloaded, hissued, hchecked.queues_step hsound h⟩

theorem Progress.loadEntry {t : Startup α} (hs : Progress entries s.toScriptRuns s.phase)
    (hsound : s.queues.Sound) (h : s.loadEntry = some t) :
    Progress entries t.toScriptRuns t.phase := by
  unfold Startup.loadEntry at h
  split at h
  · rename_i plugin ResultsToCheck PluginsEntries hphase
    obtain rfl := Option.some.inj h
    rw [hphase] at hs
    obtain ⟨order, loaded, checked, unchecked, hunderway, hissued, hchecked, hrest⟩ := hs
    refine ⟨order ++ [(plugin, loaded)], checked, unchecked, ?_, ?_, hchecked, hrest⟩
    · simpa using hunderway
    · simpa [chunksOf] using hissued
  · rename_i plugin Entry Entries ResultsToCheck PluginsEntries hphase
    rw [hphase] at hs
    obtain ⟨order, loaded, checked, unchecked, hunderway, hissued, hchecked, hcheck, hpath⟩ := hs
    rw [List.append_cons loaded] at hunderway
    split at h
    · rename_i hnone
      obtain rfl := Option.some.inj h
      refine ⟨order, loaded ++ [Entry], checked, unchecked, hunderway, ?_, hchecked, hcheck,
        hpath⟩
      simpa [hnone] using hissued
    · rename_i StateId Chunk hsome
      obtain ⟨loading, hloading, rfl⟩ := Option.map_eq_some_iff.mp h
      obtain ⟨rfl, hfile, hfolder⟩ := PluginEntry.chunk_eq_some hsome
      refine ⟨order, loaded ++ [Entry], checked, _, hunderway, ?_,
        hchecked.enqueueScript hsound hloading, ?_, ?_⟩
      · rw [ScriptRuns.issued_enqueueScript hloading, List.map_append, hissued]
        simp [hsome]
      · simp [hcheck, toCheck, fileNameOf, hfile]
      · intro e he
        rcases List.mem_append.mp he with hold | hnew
        · exact hpath e hold
        · rw [List.mem_singleton.mp hnew]
          exact hfolder
  · exact absurd h (by simp)

theorem Progress.resultReady {t : Startup α} (hs : Progress entries s.toScriptRuns s.phase)
    (h : s.resultReady = some t) : Progress entries t.toScriptRuns t.phase := by
  unfold Startup.resultReady at h
  split at h
  · rename_i plugin PluginsEntries hphase
    obtain rfl := Option.some.inj h
    rw [hphase] at hs
    obtain ⟨order, checked, unchecked, hunderway, hissued, hchecked, hcheck, -⟩ := hs
    obtain rfl := List.map_eq_nil_iff.mp hcheck
    have hall : s.issued = checked := by simpa using hchecked.split
    exact ⟨order, hunderway, hissued, hall.symm ▸ hchecked⟩
  · rename_i plugin FileName Result ResultsToCheck PluginsEntries hphase
    rw [hphase] at hs
    obtain ⟨order, checked, unchecked, hunderway, hissued, hchecked, hcheck, hpath⟩ := hs
    obtain ⟨loading, hloading, rfl⟩ := Option.map_eq_some_iff.mp h
    obtain ⟨e, unchecked, rfl, he, hrest⟩ := List.map_eq_cons_iff.mp hcheck
    obtain ⟨rfl, rfl⟩ := Prod.mk.inj he
    refine ⟨order, checked ++ [e], unchecked, hunderway, ?_, hchecked.checkResult hloading, hrest,
      fun e' he' => hpath e' (List.mem_cons_of_mem _ he')⟩
    obtain ⟨-, rfl⟩ := ScriptRuns.checkResult_eq_some hloading
    exact hissued
  · exact absurd h (by simp)

theorem loading_step {t : Startup α} {l : StartupLabel α} (h : s.step entries l = some t) :
    t.toScriptRuns = s.toScriptRuns ∨
    (∃ l queues, s.queues.step l = some queues ∧
      t.toScriptRuns = { s.toScriptRuns with queues }) ∨
    (∃ StateId Chunk, s.enqueueScript StateId Chunk = some t.toScriptRuns) ∨
    ∃ FileName Result, s.checkResult FileName Result = some t.toScriptRuns := by
  cases l with
  | queues l =>
    obtain ⟨queues, hqueues, rfl⟩ := Option.map_eq_some_iff.mp h
    exact .inr (.inl ⟨l, queues, hqueues, rfl⟩)
  | initializePlugin =>
    simp only [Startup.step] at h
    split at h
    · obtain ⟨queues, hqueues, rfl⟩ := Option.map_eq_some_iff.mp h
      exact .inr (.inl ⟨_, queues, hqueues, rfl⟩)
    · exact absurd h (by simp)
  | loadEntry =>
    simp only [Startup.step, Startup.loadEntry] at h
    split at h
    · exact .inl (Option.some.inj h ▸ rfl)
    · split at h
      · exact .inl (Option.some.inj h ▸ rfl)
      · obtain ⟨loading, hloading, rfl⟩ := Option.map_eq_some_iff.mp h
        exact .inr (.inr (.inl ⟨_, _, hloading⟩))
    · exact absurd h (by simp)
  | resultReady =>
    simp only [Startup.step, Startup.resultReady] at h
    split at h
    · exact .inl (Option.some.inj h ▸ rfl)
    · obtain ⟨loading, hloading, rfl⟩ := Option.map_eq_some_iff.mp h
      exact .inr (.inr (.inr ⟨_, _, hloading⟩))
    · exact absurd h (by simp)
  | sortPlugins PluginsEntries =>
    simp only [Startup.step] at h
    split at h
    · split_ifs at h with hsorted
      exact .inl (Option.some.inj h ▸ rfl)
    · exact absurd h (by simp)
  | sortEntries Entries =>
    simp only [Startup.step] at h
    split at h
    · split_ifs at h with hsorted
      exact .inl (Option.some.inj h ▸ rfl)
    · exact absurd h (by simp)
  | leave =>
    simp only [Startup.step] at h
    split at h
    · exact .inl (Option.some.inj h ▸ rfl)
    · exact absurd h (by simp)

theorem placed_step {t : Startup α} {l : StartupLabel α} (hs : s.Placed)
    (h : s.step entries l = some t) : t.Placed := by
  obtain hsame | ⟨l, queues, hqueues, hsame⟩ | ⟨StateId, Chunk, hscript⟩ |
    ⟨FileName, Result, hcheck⟩ := loading_step h
  · exact hsame ▸ hs
  · exact hsame ▸ hs.queues_step hqueues
  · exact hs.enqueueScript hscript
  · obtain ⟨-, hsame⟩ := ScriptRuns.checkResult_eq_some hcheck
    exact hsame ▸ ⟨hs.sound, hs.none, hs.sublist⟩

theorem Progress.step {t : Startup α} {l : StartupLabel α} (hsound : s.queues.Sound)
    (hs : Progress entries s.toScriptRuns s.phase) (h : s.step entries l = some t) :
    Progress entries t.toScriptRuns t.phase := by
  cases l with
  | queues l =>
    obtain ⟨queues, hqueues, rfl⟩ := Option.map_eq_some_iff.mp h
    exact hs.queues_step hsound hqueues
  | sortPlugins PluginsEntries =>
    simp only [Startup.step] at h
    split at h
    · rename_i hphase
      split_ifs at h with hsorted
      obtain rfl := Option.some.inj h
      rw [hphase] at hs
      have hissued : s.issued = [] := hs.split
      refine ⟨[], ⟨hsorted, by simp⟩, by simp [hissued, chunksOf], ?_⟩
      rw [hissued]
      exact hs
    · exact absurd h (by simp)
  | initializePlugin =>
    simp only [Startup.step] at h
    split at h
    · rename_i plugin PluginsEntries hphase
      obtain ⟨queues, hqueues, rfl⟩ := Option.map_eq_some_iff.mp h
      rw [hphase] at hs
      obtain ⟨order, hunderway, hissued, hchecked⟩ := hs.queues_step hsound hqueues
      exact ⟨order, hunderway, hissued, hchecked⟩
    · exact absurd h (by simp)
  | sortEntries Entries =>
    simp only [Startup.step] at h
    split at h
    · rename_i plugin PluginsEntries hphase
      split_ifs at h with hsorted
      obtain rfl := Option.some.inj h
      rw [hphase] at hs
      obtain ⟨order, hunderway, hissued, hchecked⟩ := hs
      refine ⟨order, [], s.issued, [], ⟨?_, ?_⟩, ?_, hchecked, rfl, by simp⟩
      · simpa using hunderway.plugins
      · intro p hp
        rcases List.mem_append.mp hp with hold | hnew
        · exact hunderway.scripts p hold
        · rw [List.mem_singleton.mp hnew]
          exact hsorted
      · simpa using hissued
    · exact absurd h (by simp)
  | loadEntry => exact hs.loadEntry hsound h
  | resultReady => exact hs.resultReady h
  | leave =>
    simp only [Startup.step] at h
    split at h
    · rename_i hphase
      obtain rfl := Option.some.inj h
      rw [hphase] at hs
      obtain ⟨order, hunderway, hissued, hchecked⟩ := hs
      exact ⟨order, ⟨by simpa using hunderway.plugins, hunderway.scripts⟩, hissued, hchecked⟩
    · exact absurd h (by simp)

theorem placed_start : (start α).Placed where
  sound := LuaQueues.sound_start
  none _ _ := rfl
  sublist _ _ h := absurd h (by simp [start, LuaQueues.start])

theorem progress_start : Progress entries (start α).toScriptRuns (start α).phase :=
  ⟨rfl, by simp, rfl⟩

theorem placed_progress_run {labels : List (StartupLabel α)}
    (hrun : run (step entries) (start α) labels = some s) :
    s.Placed ∧ Progress entries s.toScriptRuns s.phase :=
  run_invariant_of_step
    (I := fun s : Startup α => s.Placed ∧ Progress entries s.toScriptRuns s.phase)
    (fun _ _ _ hs h => ⟨placed_step hs.1 h, hs.2.step hs.1.sound h⟩)
    ⟨placed_start, progress_start⟩ hrun

/-- Only scripts of the plugin whose constructor runs have not been run yet. -/
theorem Progress.unready_path (hs : Progress entries s.toScriptRuns s.phase)
    {e : TLuaStateId × Queued TLuaChunk} (he : e ∈ s.issued)
    (hunready : (s.queues.results e.2.Result).isSome = false) :
    s.phase.current.map PluginEntry.relative = some e.2.value.PluginPath := by
  cases hphase : s.phase with
  | collect =>
    rw [hphase] at hs
    exact absurd (ScriptRuns.Checked.mem_unchecked hs he hunready) List.not_mem_nil
  | plugins PluginsEntries =>
    rw [hphase] at hs
    obtain ⟨-, -, -, hchecked⟩ := hs
    exact absurd (hchecked.mem_unchecked he hunready) List.not_mem_nil
  | entries plugin PluginsEntries =>
    rw [hphase] at hs
    obtain ⟨-, -, -, hchecked⟩ := hs
    exact absurd (hchecked.mem_unchecked he hunready) List.not_mem_nil
  | scripts plugin Entries ResultsToCheck PluginsEntries =>
    rw [hphase] at hs
    obtain ⟨order, loaded, checked, unchecked, -, -, hchecked, -, hpath⟩ := hs
    exact congrArg some (hpath e (hchecked.mem_unchecked he hunready)).symm
  | waits plugin ResultsToCheck PluginsEntries =>
    rw [hphase] at hs
    obtain ⟨order, checked, unchecked, -, -, hchecked, -, hpath⟩ := hs
    exact congrArg some (hpath e (hchecked.mem_unchecked he hunready)).symm
  | collected =>
    rw [hphase] at hs
    obtain ⟨-, -, -, hchecked⟩ := hs
    exact absurd (hchecked.mem_unchecked he hunready) List.not_mem_nil

/-- In every interleaving with the threads of the states and with any others, the scripts that have
not been run yet are of one plugin. When all plugins are loaded, the scripts were taken in the
order of the plugins and of their files, every state has run those that are its own in this
order, and what was logged are the errors of all of them, in the same order. -/
theorem loaded_in_order (entries : List PluginEntry) (labels : List (StartupLabel α))
    (s : Startup α) (hrun : run (step entries) (start α) labels = some s) :
    (∀ e ∈ s.issued, (s.queues.results e.2.Result).isSome = false →
      s.phase.current.map PluginEntry.relative = some e.2.value.PluginPath) ∧
    (s.phase = .collected →
      (∃ order, LoadOrder entries order ∧
        s.issued.map (fun e => (e.1, e.2.value)) = chunksOf order) ∧
      (∀ e ∈ s.issued, ∃ d, s.queues.mLuaStates e.1 = some d ∧
        (s.issuedTo e.1).Sublist d.mStateExecuteQueue.finished) ∧
      s.failed = s.issued.flatMap fun e =>
        failureOf e.2.value.FileName (s.queues.results e.2.Result)) := by
  obtain ⟨hplaced, hprogress⟩ := placed_progress_run hrun
  refine ⟨fun e he hunready => hprogress.unready_path he hunready, fun hphase => ?_⟩
  rw [hphase] at hprogress
  obtain ⟨order, horder, hissued, hchecked⟩ := hprogress
  refine ⟨⟨order, horder, hissued⟩, fun e he => ?_, hchecked.failed⟩
  cases hd : s.queues.mLuaStates e.1 with
  | none =>
    have hmem : e.2 ∈ s.issuedTo e.1 :=
      List.mem_map_of_mem (List.mem_filter.mpr ⟨he, decide_eq_true rfl⟩)
    exact absurd hmem (hplaced.none e.1 hd ▸ List.not_mem_nil)
  | some d => exact ⟨d, rfl, hplaced.finished_of_ready hchecked.ready hd⟩

def emptyScript : PluginFile :=
  ⟨ascii "b/A.lua", true, some 0, some (ascii "b/A.lua"), []⟩

def errorScript : PluginFile :=
  ⟨ascii "b/z.lua", true, some 7, some (ascii "b/z.lua"), ascii "error()"⟩

/-- A plugin with two scripts, of which the second fails, behind an empty one. -/
def sampleEntries : List PluginEntry :=
  [⟨ascii "b", true, ascii "b", .parsed (some (ascii "Shared")),
    [errorScript, emptyScript,
      ⟨ascii "b/readme.txt", true, some 0, some (ascii "b/readme.txt"), []⟩]⟩,
    ⟨ascii "A", true, ascii "A", .missing, []⟩]

/-- What the thread of the state does for one script. -/
def sampleScriptRun (Res : CallOutcome) : List (StartupLabel Unit) :=
  [.checkShutdown, .takeScript, .finishScript Res, .waitExpired].map fun a =>
    .queues (.thread (ascii "Shared") a)

def sampleLoading : List (StartupLabel Unit) :=
  [.sortPlugins sampleEntries.reverse, .initializePlugin, .sortEntries [], .loadEntry,
    .resultReady, .initializePlugin,
    .sortEntries [emptyScript, errorScript], .loadEntry, .loadEntry, .loadEntry] ++
  sampleScriptRun .success ++ sampleScriptRun (.error (ascii "error")) ++
  [.resultReady, .resultReady, .resultReady, .leave]

theorem loaded_in_order_sample :
    ∃ s, run (step sampleEntries) (start Unit) sampleLoading = some s ∧ s.phase = .collected ∧
      s.issued.length = 2 ∧ s.failed = [(ascii "b/z.lua", ascii "error")] ∧
      ∃ order, LoadOrder sampleEntries order ∧
        s.issued.map (fun e => (e.1, e.2.value)) = chunksOf order :=
  ⟨_, rfl, rfl, rfl, rfl, ((loaded_in_order sampleEntries sampleLoading _ rfl).2 rfl).1⟩

end Startup
end BeamMP
