import BeamMP.Foundation.Execution
import BeamMP.Foundation.KeyedList
import BeamMP.Lua.Plugins

/-!
# Hot reloading

`TPluginMonitor` looks at every file it has found at the start, again and again. A file
that is newer than before has changed: a script of a plugin is run again, and the event
`onFileChanged` tells the plugins. A file that makes an exception is looked at no more
after the round.
-/
namespace BeamMP

open Execution

/-- `fs::path(s).parent_path()`. -/
def parentPath (path : Bytes) : Bytes :=
  let directory := path.rdropWhile (· != '/'.toUInt8)
  if directory.rdropWhile (· == '/'.toUInt8) = [] then directory
  else directory.rdropWhile (· == '/'.toUInt8)

/-- What the monitor asks of a plugin. -/
structure TLuaPlugin where
  mFolder : Bytes
  StateId : TLuaStateId

inductive MonitorAction
  | enqueueScript (StateID : TLuaStateId) (Chunk : TLuaChunk)
  | logError (File ErrorMessage : Bytes)
  | triggerOnInit (StateID : TLuaStateId)
  | triggerOnFileChanged (File : Bytes)
deriving DecidableEq

/-- What the file system and the engine answer while a file is looked at, with `none` for an
exception. -/
structure FileAnswers where
  lastWriteTime : Option ℤ
  equivalent : Bytes → Bytes → Option Bool
  fileSize : Option ℕ
  stream : Bytes
  mLuaPlugins : List TLuaPlugin
  hasState : TLuaStateId → Bool
  outcome : CallOutcome

/-- `GetStateIDForPlugin`, which answers an empty name for an unknown plugin. -/
def getStateIDForPlugin (equivalent : Bytes → Bytes → Option Bool) (PluginPath : Bytes) :
    List TLuaPlugin → Option TLuaStateId
  | [] => some []
  | Plugin :: mLuaPlugins =>
    match equivalent Plugin.mFolder PluginPath with
    | none => none
    | some true => some Plugin.StateId
    | some false => getStateIDForPlugin equivalent PluginPath mLuaPlugins

/-- A script of a plugin is run again, and `onInit` of its state is called. -/
def reload (File : Bytes) (answers : FileAnswers) : Option (List MonitorAction) := do
  let Size ← answers.fileSize
  let Contents := (answers.stream.take Size).rightpad Size 0
  let StateID ← getStateIDForPlugin answers.equivalent (parentPath File) answers.mLuaPlugins
  if answers.hasState StateID then
    let Chunk : TLuaChunk := ⟨Contents, File, parentPath File⟩
    match answers.outcome with
    | .error ErrorMessage =>
      some [.enqueueScript StateID Chunk, .logError File ErrorMessage]
    | .success =>
      some [.enqueueScript StateID Chunk, .triggerOnInit StateID, .triggerOnFileChanged File]
  else none

/-- Whether a file is a script in the folder of a plugin. -/
def isScript (mPath File : Bytes) (answers : FileAnswers) : Option Bool :=
  (answers.equivalent (parentPath (parentPath File)) mPath).map fun inPlugin =>
    inPlugin && lowerString (extension File) = ascii ".lua"

def onChanged (mPath File : Bytes) (answers : FileAnswers) : Option (List MonitorAction) := do
  let script ← isScript mPath File answers
  if script then reload File answers else some [.triggerOnFileChanged File]

/-- One look at a file. Whether it is a script is known only if it has changed. -/
structure FileVisit where
  File : Bytes
  lastWriteTime : Option ℤ
  changed : Bool
  actions : List MonitorAction
  threw : Bool
  script : Bool

def lookAt (mPath File : Bytes) (known : ℤ) (answers : FileAnswers) : FileVisit :=
  match answers.lastWriteTime with
  | none => ⟨File, none, false, [], true, false⟩
  | some CurrentTime =>
    if known < CurrentTime then
      let script := isScript mPath File answers = some true
      match onChanged mPath File answers with
      | none => ⟨File, some CurrentTime, true, [], true, script⟩
      | some actions => ⟨File, some CurrentTime, true, actions, false, script⟩
    else ⟨File, some CurrentTime, false, [], false, false⟩

/-- What was done about a file that has changed: the script of a plugin was run again, and after
that the event was triggered or the error logged; for any other file there was the event. -/
def FileVisit.Announced (v : FileVisit) : Prop :=
  if v.script then ∃ StateID Contents,
    v.actions = [.enqueueScript StateID ⟨Contents, v.File, parentPath v.File⟩,
      .triggerOnInit StateID, .triggerOnFileChanged v.File] ∨
    ∃ ErrorMessage, v.actions =
      [.enqueueScript StateID ⟨Contents, v.File, parentPath v.File⟩, .logError v.File ErrorMessage]
  else v.actions = [.triggerOnFileChanged v.File]

theorem FileVisit.Announced.count {v : FileVisit} (h : v.Announced) :
    v.actions.count (.triggerOnFileChanged v.File) = 1 ∨
      ∃ ErrorMessage, MonitorAction.logError v.File ErrorMessage ∈ v.actions := by
  unfold FileVisit.Announced at h
  split_ifs at h
  · obtain ⟨StateID, Contents, h | ⟨ErrorMessage, h⟩⟩ := h
    · exact .inl (by simp [h])
    · exact .inr ⟨ErrorMessage, by simp [h]⟩
  · exact .inl (by simp [h])

/-- The monitor, with the files that are left in a round and all its looks at files. -/
structure PluginMonitor where
  mFileTimes : List (Bytes × ℤ)
  left : Option (List Bytes)
  ToRemove : List Bytes
  rounds : ℕ
  visits : List FileVisit

inductive MonitorLabel
  | beginRound (order : List Bytes)
  | visit (answers : FileAnswers)
  | sleep

namespace PluginMonitor

variable (mPath : Bytes) (s : PluginMonitor)

def start (mFileTimes : List (Bytes × ℤ)) : PluginMonitor where
  mFileTimes := mFileTimes
  left := none
  ToRemove := []
  rounds := 0
  visits := []

def keys : List Bytes := s.mFileTimes.map Prod.fst

def visitsOf (File : Bytes) : List FileVisit := s.visits.filter (·.File = File)

def storeTime (v : FileVisit) : List (Bytes × ℤ) :=
  if v.changed then
    KeyedList.replace Prod.fst v.File (fun p => (p.1, v.lastWriteTime.getD p.2)) s.mFileTimes
  else s.mFileTimes

def record (v : FileVisit) (left : List Bytes) : PluginMonitor where
  mFileTimes := s.storeTime v
  left := some left
  ToRemove := if v.threw then s.ToRemove ++ [v.File] else s.ToRemove
  rounds := s.rounds
  visits := s.visits ++ [v]

/-- A step of `operator()`. A round goes through the files in any order, and those that made an
exception are removed after it. -/
def step : MonitorLabel → Option PluginMonitor
  | .beginRound order =>
    if s.left = none ∧ order.Perm s.keys then some { s with left := some order } else none
  | .visit answers =>
    match s.left with
    | some (File :: left) =>
      (KeyedList.lookup Prod.fst File s.mFileTimes).map fun Pair =>
        s.record (lookAt mPath File Pair.2 answers) left
    | _ => none
  | .sleep =>
    if s.left = some [] then
      some { s with
        mFileTimes := s.ToRemove.foldl
          (fun mFileTimes File => KeyedList.remove Prod.fst File mFileTimes) s.mFileTimes
        left := none
        ToRemove := []
        rounds := s.rounds + 1 }
    else none

def timesOf (visits : List FileVisit) : List ℤ := visits.filterMap FileVisit.lastWriteTime

/-- A look at a file with what was known before: it counts as a change exactly if the file is
newer than ever, and it is the last one if it made an exception. A change without an exception
is announced, unless the script has failed. -/
structure Followed (T₀ : ℤ) (before : List FileVisit) (v : FileVisit) (after : List FileVisit) :
    Prop where
  changed : v.changed = true ↔
    ∃ t, v.lastWriteTime = some t ∧ ∀ T ∈ T₀ :: timesOf before, T < t
  threw : v.threw = true → after = []
  silent : v.changed = false → v.actions = []
  announced : v.changed = true → v.threw = false → v.Announced

/-- What holds in every state, where `times` are the files at the start. -/
structure Watched (times : List (Bytes × ℤ)) : Prop where
  nodup : s.keys.Nodup
  left : ∀ left, s.left = some left → left.Nodup ∧ ∀ File ∈ left, File ∈ s.keys ∧ File ∉ s.ToRemove
  idle : s.left = none → s.ToRemove = []
  stored : ∀ File t, (File, t) ∈ s.mFileTimes → ∃ T₀, (File, T₀) ∈ times ∧
    t ∈ T₀ :: timesOf (s.visitsOf File) ∧ ∀ T ∈ T₀ :: timesOf (s.visitsOf File), T ≤ t
  removed : ∀ File ∈ times.map Prod.fst, (File ∈ s.keys ∧ File ∉ s.ToRemove ↔
    ∀ v ∈ s.visitsOf File, v.threw = false)
  count : ∀ File ∈ s.keys, (s.visitsOf File).length + (s.left.elim 0 fun left => left.count File) =
    s.rounds + (s.left.elim 0 fun _ => 1)
  followed : ∀ File T₀, (File, T₀) ∈ times → ∀ before v after,
    s.visitsOf File = before ++ v :: after → Followed T₀ before v after

variable {mPath} {s} {t : PluginMonitor} {File : Bytes} {known : ℤ} {answers : FileAnswers}
  {times : List (Bytes × ℤ)}

@[simp] theorem lookAt_File : (lookAt mPath File known answers).File = File := by
  unfold lookAt
  split
  · rfl
  · split_ifs
    · split <;> rfl
    · rfl

@[simp] theorem lookAt_lastWriteTime :
    (lookAt mPath File known answers).lastWriteTime = answers.lastWriteTime := by
  unfold lookAt
  split
  · rename_i hnone
    exact hnone.symm
  · rename_i CurrentTime hsome
    split_ifs
    · split <;> exact hsome.symm
    · exact hsome.symm

theorem lookAt_changed_iff : (lookAt mPath File known answers).changed = true ↔
    ∃ t, answers.lastWriteTime = some t ∧ known < t := by
  unfold lookAt
  split
  · rename_i hnone
    simp [hnone]
  · rename_i CurrentTime hsome
    split_ifs with hlt
    · split <;> simpa [hsome] using hlt
    · simpa [hsome] using hlt

theorem lookAt_silent (h : (lookAt mPath File known answers).changed = false) :
    (lookAt mPath File known answers).actions = [] := by
  unfold lookAt at h ⊢
  split
  · rfl
  · split_ifs with hlt
    · rename_i CurrentTime hsome
      simp only [hsome, if_pos hlt] at h
      split at h <;> exact absurd h (by simp)
    · rfl

/-- The script is run before its event is triggered. -/
theorem reload_eq_some {actions : List MonitorAction} (h : reload File answers = some actions) :
    ∃ StateID Contents,
      actions = [.enqueueScript StateID ⟨Contents, File, parentPath File⟩,
        .triggerOnInit StateID, .triggerOnFileChanged File] ∨
      ∃ ErrorMessage, actions =
        [.enqueueScript StateID ⟨Contents, File, parentPath File⟩,
          .logError File ErrorMessage] := by
  obtain ⟨Size, -, h⟩ := Option.bind_eq_some_iff.mp h
  obtain ⟨StateID, -, h⟩ := Option.bind_eq_some_iff.mp h
  split_ifs at h
  cases houtcome : answers.outcome with
  | error ErrorMessage =>
    rw [houtcome] at h
    exact ⟨StateID, _, .inr ⟨ErrorMessage, (Option.some.inj h).symm⟩⟩
  | success =>
    rw [houtcome] at h
    exact ⟨StateID, _, .inl (Option.some.inj h).symm⟩

theorem lookAt_announced (h : (lookAt mPath File known answers).threw = false)
    (hchanged : (lookAt mPath File known answers).changed = true) :
    (lookAt mPath File known answers).Announced := by
  obtain ⟨CurrentTime, hsome, hlt⟩ := lookAt_changed_iff.mp hchanged
  unfold lookAt at h ⊢
  simp only [hsome, if_pos hlt] at h ⊢
  cases hactions : onChanged mPath File answers with
  | none =>
    rw [hactions] at h
    exact absurd h (by simp)
  | some actions =>
    obtain ⟨script, hscript, hactions⟩ := Option.bind_eq_some_iff.mp hactions
    simp only [FileVisit.Announced, hscript, Option.some.injEq, decide_eq_true_eq]
    split_ifs at hactions ⊢
    · exact reload_eq_some hactions
    · exact (Option.some.inj hactions).symm

variable {v : FileVisit} {left : List Bytes}

@[simp] theorem keys_record : (s.record v left).keys = s.keys := by
  have hkeys : (s.storeTime v).map Prod.fst = s.mFileTimes.map Prod.fst := by
    unfold storeTime
    split_ifs
    · exact KeyedList.keys_replace Prod.fst
        (fun p : Bytes × ℤ => (p.1, v.lastWriteTime.getD p.2)) (fun _ => rfl) _
    · rfl
  exact hkeys

theorem mem_toRemove_record :
    File ∈ (s.record v left).ToRemove ↔ File ∈ s.ToRemove ∨ v.threw = true ∧ File = v.File := by
  by_cases hthrew : v.threw = true <;> simp [record, hthrew]

theorem visitsOf_record : (s.record v left).visitsOf File =
    s.visitsOf File ++ if v.File = File then [v] else [] := by
  by_cases heq : v.File = File <;> simp [visitsOf, record, List.filter_append, heq]

theorem visitsOf_record_self : (s.record v left).visitsOf v.File = s.visitsOf v.File ++ [v] := by
  rw [visitsOf_record, if_pos rfl]

theorem visitsOf_record_of_ne (hne : v.File ≠ File) :
    (s.record v left).visitsOf File = s.visitsOf File := by
  rw [visitsOf_record, if_neg hne, List.append_nil]

theorem timesOf_concat (visits : List FileVisit) (v : FileVisit) :
    timesOf (visits ++ [v]) = timesOf visits ++ v.lastWriteTime.toList := by
  cases h : v.lastWriteTime <;> simp [timesOf, h]

theorem Watched.next (hs : s.Watched times) (hleft : s.left = some (File :: left)) :
    File ∈ s.keys ∧ File ∉ s.ToRemove ∧ File ∉ left :=
  ⟨((hs.left _ hleft).2 File List.mem_cons_self).1, ((hs.left _ hleft).2 File List.mem_cons_self).2,
    (List.nodup_cons.mp (hs.left _ hleft).1).1⟩

theorem Watched.stored_record (hs : s.Watched times)
    (hlookup : KeyedList.lookup Prod.fst v.File s.mFileTimes = some (v.File, known))
    (hchanged : v.changed = true ↔ ∃ t, v.lastWriteTime = some t ∧ known < t) {t : ℤ}
    (ht : (File, t) ∈ (s.record v left).mFileTimes) : ∃ T₀, (File, T₀) ∈ times ∧
      t ∈ T₀ :: timesOf ((s.record v left).visitsOf File) ∧
      ∀ T ∈ T₀ :: timesOf ((s.record v left).visitsOf File), T ≤ t := by
  have hknown : (v.File, known) ∈ s.mFileTimes := KeyedList.mem_of_lookup hlookup
  have hold : ∀ t, (File, t) ∈ s.mFileTimes → v.File ≠ File → ∃ T₀, (File, T₀) ∈ times ∧
      t ∈ T₀ :: timesOf ((s.record v left).visitsOf File) ∧
      ∀ T ∈ T₀ :: timesOf ((s.record v left).visitsOf File), T ≤ t := by
    intro t ht hne
    rw [visitsOf_record_of_ne hne]
    exact hs.stored File t ht
  obtain ⟨T₀, hT₀, hmem, hmax⟩ := hs.stored _ _ hknown
  have hstored : (File, t) ∈ s.storeTime v := ht
  unfold storeTime at hstored
  split_ifs at hstored with hnew
  · obtain ⟨newTime, hsome, hlt⟩ := hchanged.mp hnew
    obtain ⟨ht, hne⟩ | ⟨x, hx, hkey, heq⟩ := (KeyedList.mem_replace_iff hs.nodup).mp hstored
    · exact hold t ht (Ne.symm hne)
    · obtain ⟨rfl, rfl⟩ := Prod.mk.inj heq
      rw [hkey, visitsOf_record_self, timesOf_concat, hsome, Option.getD_some]
      refine ⟨T₀, hT₀, by simp, fun T hT => ?_⟩
      simp only [Option.toList_some, ← List.cons_append, List.mem_append,
        List.mem_singleton] at hT
      rcases hT with hT | rfl
      · exact (hmax T hT).trans hlt.le
      · exact le_refl _
  · by_cases heq : v.File = File
    · subst heq
      have hpair := List.inj_on_of_nodup_map hs.nodup hstored hknown rfl
      obtain ⟨-, rfl⟩ := Prod.mk.inj hpair
      rw [visitsOf_record_self, timesOf_concat]
      refine ⟨T₀, hT₀, ?_, fun T hT => ?_⟩
      · rw [← List.cons_append]
        exact List.mem_append_left _ hmem
      · rw [← List.cons_append, List.mem_append] at hT
        rcases hT with hT | hT
        · exact hmax T hT
        · by_contra hgt
          exact hnew (hchanged.mpr ⟨T, Option.mem_toList.mp hT, not_le.mp hgt⟩)
    · exact hold t hstored heq

theorem Watched.followed_record (hs : s.Watched times)
    (hnext : v.File ∈ s.keys ∧ v.File ∉ s.ToRemove) {T₀ : ℤ} (hT₀ : (File, T₀) ∈ times)
    (hlast : v.File = File → Followed T₀ (s.visitsOf File) v [])
    {before after : List FileVisit} {w : FileVisit}
    (h : (s.record v left).visitsOf File = before ++ w :: after) : Followed T₀ before w after := by
  by_cases heq : v.File = File
  · subst heq
    rw [visitsOf_record_self] at h
    obtain rfl | ⟨after, u, rfl⟩ := after.eq_nil_or_concat
    · obtain ⟨rfl, hw⟩ := List.append_inj' h rfl
      obtain rfl := List.singleton_inj.mp hw
      exact hlast rfl
    · rw [List.concat_eq_append, ← List.cons_append, ← List.append_assoc] at h
      obtain ⟨hvisits, -⟩ := List.append_inj' h rfl
      have hw := hs.followed _ T₀ hT₀ before w after hvisits
      have hthrew : w.threw = false :=
        (hs.removed v.File (List.mem_map_of_mem hT₀)).mp hnext w (by simp [hvisits])
      exact ⟨hw.changed, fun h => absurd h (by simp [hthrew]), hw.silent, hw.announced⟩
  · rw [visitsOf_record_of_ne heq] at h
    exact hs.followed File T₀ hT₀ before w after h

theorem Watched.record (hs : s.Watched times) (hnodup : (times.map Prod.fst).Nodup)
    (hleft : s.left = some (File :: left))
    (hlookup : KeyedList.lookup Prod.fst File s.mFileTimes = some (File, known)) :
    (s.record (lookAt mPath File known answers) left).Watched times := by
  obtain ⟨hkey, hremove, hnot⟩ := hs.next hleft
  obtain ⟨hleftNodup, hleftKeys⟩ := hs.left _ hleft
  generalize hv : lookAt mPath File known answers = v
  have hFile : v.File = File := hv ▸ lookAt_File
  have hchanged : v.changed = true ↔ ∃ t, v.lastWriteTime = some t ∧ known < t := by
    rw [← hv, lookAt_lastWriteTime]
    exact lookAt_changed_iff
  have hknown : (File, known) ∈ s.mFileTimes := KeyedList.mem_of_lookup hlookup
  have hlast : ∀ T₀, (File, T₀) ∈ times → Followed T₀ (s.visitsOf File) v [] := by
    intro T₀ hT₀
    obtain ⟨T₁, hT₁, hmem, hmax⟩ := hs.stored File known hknown
    have hpair := List.inj_on_of_nodup_map hnodup hT₁ hT₀ rfl
    obtain ⟨-, rfl⟩ := Prod.mk.inj hpair
    refine ⟨hchanged.trans ?_, fun _ => rfl, hv ▸ lookAt_silent, fun hnew hthrew => ?_⟩
    · refine exists_congr fun t => and_congr_right fun _ => ⟨fun hlt T hT => ?_, fun hall => ?_⟩
      · exact (hmax T hT).trans_lt hlt
      · exact hall known hmem
    · subst hv
      exact lookAt_announced hthrew hnew
  subst hFile
  constructor
  · simpa using hs.nodup
  · rintro _ hsome
    obtain rfl := Option.some.inj hsome
    refine ⟨(List.nodup_cons.mp hleftNodup).2, fun F hF => ?_⟩
    obtain ⟨hkeyF, hremoveF⟩ := hleftKeys F (List.mem_cons_of_mem _ hF)
    rw [keys_record, mem_toRemove_record, not_or]
    exact ⟨hkeyF, hremoveF, fun hthrew => hnot (hthrew.2 ▸ hF)⟩
  · exact fun hnone => absurd hnone (by simp [PluginMonitor.record])
  · exact fun F t ht => hs.stored_record hlookup hchanged ht
  · intro F hF
    rw [keys_record, mem_toRemove_record, visitsOf_record]
    have hold := hs.removed F hF
    by_cases heq : F = v.File
    · subst heq
      have hquiet := hold.mp ⟨hkey, hremove⟩
      simp only [hkey, hremove, false_or, and_true, true_and, Bool.not_eq_true, if_true,
        List.mem_append, List.mem_singleton]
      constructor
      · rintro hthrew u (hu | rfl)
        · exact hquiet u hu
        · exact hthrew
      · exact fun hall => hall v (.inr rfl)
    · simpa [heq, Ne.symm heq] using hold
  · intro F hF
    rw [keys_record] at hF
    have hold := hs.count F hF
    rw [hleft] at hold
    by_cases heq : v.File = F
    · subst heq
      rw [visitsOf_record_self]
      simp only [Option.elim_some, List.count_cons_self, List.length_append,
        List.length_singleton, PluginMonitor.record] at hold ⊢
      omega
    · rw [visitsOf_record_of_ne heq]
      simpa [PluginMonitor.record, List.count_cons_of_ne heq] using hold
  · exact fun F T₀ hT₀ before w after h => hs.followed_record ⟨hkey, hremove⟩ hT₀
      (fun heq => heq ▸ hlast T₀ (heq ▸ hT₀)) h

theorem Watched.beginRound (hs : s.Watched times) (hidle : s.left = none) {order : List Bytes}
    (horder : order.Perm s.keys) :
    ({ s with left := some order } : PluginMonitor).Watched times where
  nodup := hs.nodup
  left left hsome := by
    obtain rfl := Option.some.inj hsome
    refine ⟨horder.nodup_iff.mpr hs.nodup, fun File hFile => ⟨horder.subset hFile, ?_⟩⟩
    simp [hs.idle hidle]
  idle hnone := absurd hnone (by simp)
  stored := hs.stored
  removed := hs.removed
  count File hFile := by
    have hold := hs.count File hFile
    rw [hidle] at hold
    have hlength : (s.visitsOf File).length + order.count File = s.rounds + 1 := by
      rw [List.count_eq_one_of_mem (horder.nodup_iff.mpr hs.nodup) (horder.mem_iff.mpr hFile)]
      simpa using hold
    exact hlength
  followed := hs.followed

theorem Watched.sleep (hs : s.Watched times) (h : s.step mPath .sleep = some t) :
    t.Watched times := by
  simp only [step] at h
  split_ifs at h with hleft
  obtain rfl := Option.some.inj h
  obtain ⟨hnodup, hmem⟩ := KeyedList.nodup_mem_foldl_remove hs.nodup s.ToRemove
  have hkeys : ∀ File, File ∈ (s.ToRemove.foldl
      (fun mFileTimes File => KeyedList.remove Prod.fst File mFileTimes) s.mFileTimes).map
        Prod.fst ↔ File ∈ s.keys ∧ File ∉ s.ToRemove := by
    intro File
    simp only [keys, List.mem_map, hmem]
    constructor
    · rintro ⟨p, ⟨hp, hnot⟩, rfl⟩
      exact ⟨⟨p, hp, rfl⟩, hnot⟩
    · rintro ⟨⟨p, hp, rfl⟩, hnot⟩
      exact ⟨p, ⟨hp, hnot⟩, rfl⟩
  refine ⟨hnodup, fun _ hsome => absurd hsome (by simp), fun _ => rfl, ?_, ?_, ?_, hs.followed⟩
  · exact fun File t ht => hs.stored File t ((hmem _).mp ht).1
  · intro File hFile
    have hold := hs.removed File hFile
    exact ((and_iff_left List.not_mem_nil).trans (hkeys File)).trans hold
  · intro File hFile
    have hold := hs.count File ((hkeys File).mp hFile).1
    rw [hleft] at hold
    exact hold

theorem watched_start (hnodup : (times.map Prod.fst).Nodup) : (start times).Watched times where
  nodup := hnodup
  left _ hsome := absurd hsome (by simp [start])
  idle _ := rfl
  stored File t ht := ⟨t, ht, by simp [timesOf, visitsOf, start]⟩
  removed File hFile := by simpa [keys, visitsOf, start] using hFile
  count File hFile := by simp [visitsOf, start]
  followed File T₀ hT₀ before v after h := absurd h (by simp [visitsOf, start])

theorem Watched.step (hnodup : (times.map Prod.fst).Nodup) {l : MonitorLabel}
    (hs : s.Watched times) (h : s.step mPath l = some t) : t.Watched times := by
  cases l with
  | beginRound order =>
    simp only [PluginMonitor.step] at h
    split_ifs at h with hbegin
    obtain rfl := Option.some.inj h
    exact hs.beginRound hbegin.1 hbegin.2
  | visit answers =>
    simp only [PluginMonitor.step] at h
    split at h
    · rename_i File left hleft
      obtain ⟨Pair, hlookup, rfl⟩ := Option.map_eq_some_iff.mp h
      have hkey : Pair = (File, Pair.2) := Prod.ext (KeyedList.key_of_lookup hlookup) rfl
      exact hs.record hnodup hleft (hkey ▸ hlookup)
    · exact absurd h (by simp)
  | sleep => exact hs.sleep h

/-- A script of a plugin that is written again, behind a file that vanishes. -/
def sampleTimes : List (Bytes × ℤ) :=
  [(ascii "R/Server/p/a.LUA", 5), (ascii "R/Server/p/b.txt", 5)]

def sampleAnswers (lastWriteTime : Option ℤ) : FileAnswers where
  lastWriteTime := lastWriteTime
  equivalent p q := some (decide (p = q))
  fileSize := some 0
  stream := []
  mLuaPlugins := [⟨ascii "R/Server/p", ascii "p"⟩]
  hasState _ := true
  outcome := .success

def sampleRounds : List MonitorLabel :=
  [.beginRound [ascii "R/Server/p/b.txt", ascii "R/Server/p/a.LUA"], .visit (sampleAnswers none),
    .visit (sampleAnswers (some 7)), .sleep, .beginRound [ascii "R/Server/p/a.LUA"],
    .visit (sampleAnswers (some 7)), .sleep]

end PluginMonitor
end BeamMP
