import BeamMP.Lua.StateQueues

/-!
# Scripts that a thread runs in the states

A thread appends scripts to the queues of states and waits for their results, while
the threads of the states run and any other thread can append to the queues. The
errors of the scripts are logged when their results are found ready.
-/
namespace BeamMP

open Execution WorkQueues

/-- The queues, with the scripts that the thread has appended to them and the errors it has
logged. -/
structure ScriptRuns (α : Type) where
  queues : LuaQueues α
  issued : List (TLuaStateId × Queued TLuaChunk)
  failed : List (Bytes × Bytes)

/-- What is logged under a name of a script that has been run. -/
def failureOf (name : Bytes) : Option CallOutcome → List (Bytes × Bytes)
  | some (.error ErrorMessage) => [(name, ErrorMessage)]
  | _ => []

/-- The name under which the errors of files are logged. -/
def fileNameOf (e : TLuaStateId × Queued TLuaChunk) : Bytes := e.2.value.FileName

namespace ScriptRuns

variable {α : Type} (s : ScriptRuns α)

def enqueueScript (StateId : TLuaStateId) (Chunk : TLuaChunk) : Option (ScriptRuns α) :=
  (s.queues.step (.enqueueScript StateId Chunk)).map fun queues =>
    { s with queues, issued := s.issued ++ [(StateId, ⟨Chunk, s.queues.nextResult⟩)] }

def checkResult (name : Bytes) (Result : ℕ) : Option (ScriptRuns α) :=
  if (s.queues.results Result).isSome then
    some { s with failed := s.failed ++ failureOf name (s.queues.results Result) }
  else none

def issuedTo (StateId : TLuaStateId) : List (Queued TLuaChunk) :=
  (s.issued.filter (·.1 = StateId)).map Prod.snd

/-- The queues are sound, and the scripts are in them in their order. -/
structure Placed : Prop where
  sound : s.queues.Sound
  none : ∀ StateId, s.queues.mLuaStates StateId = none → s.issuedTo StateId = []
  sublist : ∀ StateId d, s.queues.mLuaStates StateId = some d →
    (s.issuedTo StateId).Sublist d.mStateExecuteQueue.accepted

/-- Of the scripts, the thread has found these ready and has logged what failed, and has still to
wait for the others. -/
structure Checked (nameOf : TLuaStateId × Queued TLuaChunk → Bytes)
    (checked unchecked : List (TLuaStateId × Queued TLuaChunk)) : Prop where
  split : s.issued = checked ++ unchecked
  ready : ∀ e ∈ checked, (s.queues.results e.2.Result).isSome
  failed : s.failed = checked.flatMap fun e => failureOf (nameOf e) (s.queues.results e.2.Result)

variable {s t : ScriptRuns α} {queues : LuaQueues α} {l : QueueLabel α}
  {nameOf : TLuaStateId × Queued TLuaChunk → Bytes}
  {checked unchecked : List (TLuaStateId × Queued TLuaChunk)}

theorem Placed.queues_step (hs : s.Placed) (h : s.queues.step l = some queues) :
    ({ s with queues } : ScriptRuns α).Placed where
  sound := hs.sound.step h
  none StateId hnone := by
    cases hd : s.queues.mLuaStates StateId with
    | none => exact hs.none StateId hd
    | some d =>
      obtain ⟨d', hd', -⟩ := LuaQueues.alternation_of_step h hd
      exact absurd (hnone.symm.trans hd') (by simp)
  sublist StateId d' hd' := by
    cases hd : s.queues.mLuaStates StateId with
    | none =>
      have hnil : s.issuedTo StateId = [] := hs.none StateId hd
      exact hnil ▸ List.nil_sublist _
    | some d =>
      obtain ⟨d₁, hd₁, hstep⟩ := LuaQueues.alternation_of_step h hd
      obtain rfl := Option.some.inj (hd₁.symm.trans hd')
      exact (hs.sublist StateId d hd).trans hstep.accepted_prefix.sublist

theorem Checked.queues_step (hs : s.Checked nameOf checked unchecked) (hsound : s.queues.Sound)
    (h : s.queues.step l = some queues) :
    ({ s with queues } : ScriptRuns α).Checked nameOf checked unchecked := by
  have hkept : ∀ e ∈ checked, queues.results e.2.Result = s.queues.results e.2.Result := by
    intro e he
    obtain ⟨outcome, houtcome⟩ := Option.isSome_iff_exists.mp (hs.ready e he)
    rw [houtcome]
    exact hsound.results_step h houtcome
  refine ⟨hs.split, fun e he => ?_, ?_⟩
  · rw [hkept e he]
    exact hs.ready e he
  · rw [hs.failed]
    exact List.flatMap_congr fun e he => by rw [hkept e he]

theorem issuedTo_append (queues : LuaQueues α) (e : TLuaStateId × Queued TLuaChunk)
    (StateId : TLuaStateId) :
    issuedTo { s with queues, issued := s.issued ++ [e] } StateId =
      s.issuedTo StateId ++ if e.1 = StateId then [e.2] else [] := by
  by_cases heq : e.1 = StateId <;> simp [issuedTo, List.filter_append, heq]

theorem Placed.enqueueScript (hs : s.Placed) {StateId : TLuaStateId} {Chunk : TLuaChunk}
    (h : s.enqueueScript StateId Chunk = some t) : t.Placed := by
  obtain ⟨queues, hqueues, rfl⟩ := Option.map_eq_some_iff.mp h
  have hplaced := hs.queues_step hqueues
  obtain ⟨d, hd, rfl⟩ := Option.map_eq_some_iff.mp hqueues
  refine ⟨hplaced.sound, fun StateId' hnone => ?_, fun StateId' d' hd' => ?_⟩
  · have hne : StateId ≠ StateId' := by
      rintro rfl
      exact absurd (hnone.symm.trans Locals.enter_self) (by simp)
    rw [issuedTo_append, if_neg hne, List.append_nil]
    exact hplaced.none StateId' hnone
  · rw [issuedTo_append]
    obtain ⟨rfl, rfl⟩ | ⟨hne, -⟩ := Locals.enter_eq_some_iff.mp hd'
    · rw [if_pos rfl]
      exact (hs.sublist StateId' d hd).append (List.Sublist.refl _)
    · rw [if_neg hne.symm, List.append_nil]
      exact hplaced.sublist StateId' d' hd'

theorem Checked.mem_unchecked (hs : s.Checked nameOf checked unchecked)
    {e : TLuaStateId × Queued TLuaChunk} (he : e ∈ s.issued)
    (hunready : (s.queues.results e.2.Result).isSome = false) : e ∈ unchecked := by
  rw [hs.split] at he
  rcases List.mem_append.mp he with hold | hnew
  · exact absurd (hs.ready e hold) (by simp [hunready])
  · exact hnew

theorem issued_enqueueScript {StateId : TLuaStateId} {Chunk : TLuaChunk}
    (h : s.enqueueScript StateId Chunk = some t) :
    t.issued = s.issued ++ [(StateId, ⟨Chunk, s.queues.nextResult⟩)] := by
  obtain ⟨queues, -, rfl⟩ := Option.map_eq_some_iff.mp h
  rfl

theorem Checked.enqueueScript (hs : s.Checked nameOf checked unchecked) (hsound : s.queues.Sound)
    {StateId : TLuaStateId} {Chunk : TLuaChunk} (h : s.enqueueScript StateId Chunk = some t) :
    t.Checked nameOf checked (unchecked ++ [(StateId, ⟨Chunk, s.queues.nextResult⟩)]) := by
  obtain ⟨queues, hqueues, rfl⟩ := Option.map_eq_some_iff.mp h
  obtain ⟨-, hready, hfailed⟩ := hs.queues_step hsound hqueues
  exact ⟨by simp [hs.split], hready, hfailed⟩

theorem checkResult_eq_some {name : Bytes} {Result : ℕ}
    (h : s.checkResult name Result = some t) :
    (s.queues.results Result).isSome ∧
      t = { s with failed := s.failed ++ failureOf name (s.queues.results Result) } := by
  unfold checkResult at h
  split_ifs at h with hready
  exact ⟨hready, (Option.some.inj h).symm⟩

theorem Checked.checkResult {e : TLuaStateId × Queued TLuaChunk}
    (hs : s.Checked nameOf checked (e :: unchecked))
    (h : s.checkResult (nameOf e) e.2.Result = some t) :
    t.Checked nameOf (checked ++ [e]) unchecked := by
  obtain ⟨hready, rfl⟩ := checkResult_eq_some h
  refine ⟨by simp [hs.split], fun e' he' => ?_, by simp [hs.failed]⟩
  rcases List.mem_append.mp he' with hold | hnew
  · exact hs.ready e' hold
  · exact List.mem_singleton.mp hnew ▸ hready

/-- Scripts that are all ready were run by their state, in their order. -/
theorem Placed.finished_of_ready (hs : s.Placed)
    (hready : ∀ e ∈ s.issued, (s.queues.results e.2.Result).isSome) {StateId : TLuaStateId}
    {d : StateThreadData α} (hd : s.queues.mLuaStates StateId = some d) :
    (s.issuedTo StateId).Sublist d.mStateExecuteQueue.finished := by
  have hsub := hs.sublist StateId d hd
  have hinOrder : d.mStateExecuteQueue.InOrder := (hs.sound.inOrder StateId d hd).first
  obtain ⟨hscripts, -, -⟩ := List.nodup_append.mp (hs.sound.nodup StateId d hd)
  refine hinOrder.sublist_finished (List.Nodup.of_map _ hscripts) hsub fun S hS => ?_
  obtain ⟨e, he, rfl⟩ := List.mem_map.mp hS
  exact (hs.sound.script_ready_iff hd (hsub.subset hS)).mp (hready e (List.mem_filter.mp he).1)

end ScriptRuns

end BeamMP
