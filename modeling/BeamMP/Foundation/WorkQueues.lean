import Mathlib.Data.List.Basic
import Mathlib.Tactic.Common

/-!
# Queues with one consumer

Elements are appended to a queue and taken out at its front by one consumer, which
works on one element at a time. What was ever accepted and what is finished is
kept beside the queue. In order means that the elements come out as they went in,
none of them twice and none of them lost.
-/
namespace WorkQueues

structure WorkQueue (β : Type*) where
  waiting : List β := []
  current : Option β := none
  accepted : List β := []
  finished : List β := []
deriving DecidableEq

namespace WorkQueue

variable {β γ : Type*} (q : WorkQueue β)

def push (b : β) : WorkQueue β :=
  { q with waiting := q.waiting ++ [b], accepted := q.accepted ++ [b] }

/-- The consumer takes the first element out, which it has not if the queue is empty. -/
def take : Option (WorkQueue β) :=
  match q.waiting with
  | [] => none
  | b :: waiting => some { q with waiting, current := some b }

/-- The consumer is done with its element. -/
def finish : WorkQueue β :=
  { q with current := none, finished := q.finished ++ q.current.toList }

/-- The elements that have come out of the queue. -/
def started : List β := q.finished ++ q.current.toList

def InOrder : Prop := q.started ++ q.waiting = q.accepted

variable {q} {r : WorkQueue β} {b : β}

theorem take_eq_some_iff : q.take = some r ↔
    ∃ b waiting, q.waiting = b :: waiting ∧ r = { q with waiting, current := some b } := by
  unfold take
  cases q.waiting with
  | nil => simp
  | cons b waiting => simp [eq_comm]

theorem take_eq_none_iff : q.take = none ↔ q.waiting = [] := by
  unfold take
  cases q.waiting <;> simp

@[simp] theorem accepted_push : (q.push b).accepted = q.accepted ++ [b] := rfl

@[simp] theorem started_push : (q.push b).started = q.started := rfl

@[simp] theorem finished_push : (q.push b).finished = q.finished := rfl

@[simp] theorem current_push : (q.push b).current = q.current := rfl

@[simp] theorem waiting_push : (q.push b).waiting = q.waiting ++ [b] := rfl

@[simp] theorem accepted_finish : q.finish.accepted = q.accepted := rfl

@[simp] theorem current_finish : q.finish.current = none := rfl

@[simp] theorem waiting_finish : q.finish.waiting = q.waiting := rfl

@[simp] theorem started_finish : q.finish.started = q.started := by simp [started, finish]

theorem inOrder_empty : InOrder ({} : WorkQueue β) := rfl

theorem InOrder.push (h : q.InOrder) (b : β) : (q.push b).InOrder := by
  unfold InOrder at h ⊢
  rw [started_push, waiting_push, accepted_push, ← h, List.append_assoc]

theorem InOrder.take (h : q.InOrder) (hidle : q.current = none) (htake : q.take = some r) :
    r.InOrder := by
  obtain ⟨b, waiting, hwaiting, rfl⟩ := take_eq_some_iff.mp htake
  unfold InOrder started at h ⊢
  rw [hidle, hwaiting] at h
  simpa using h

theorem InOrder.finish (h : q.InOrder) : q.finish.InOrder := by
  unfold InOrder
  rw [started_finish]
  exact h

theorem accepted_take (htake : q.take = some r) : r.accepted = q.accepted := by
  obtain ⟨b, waiting, -, rfl⟩ := take_eq_some_iff.mp htake
  rfl

theorem finished_take (htake : q.take = some r) : r.finished = q.finished := by
  obtain ⟨b, waiting, -, rfl⟩ := take_eq_some_iff.mp htake
  rfl

theorem started_take (hidle : q.current = none) (htake : q.take = some r) :
    ∃ b, r.started = q.started ++ [b] ∧ q.waiting = b :: r.waiting := by
  obtain ⟨b, waiting, hwaiting, rfl⟩ := take_eq_some_iff.mp htake
  exact ⟨b, by simp [started, hidle], hwaiting⟩

theorem InOrder.current_mem (h : q.InOrder) (hb : q.current = some b) : b ∈ q.accepted := by
  rw [← h, started, hb]
  simp

theorem InOrder.finished_subset (h : q.InOrder) : q.finished ⊆ q.accepted := by
  intro b hb
  rw [← h, started]
  simp [hb]

/-- The element with `k` others in front of it is the one that comes out after `k` more. -/
theorem InOrder.getElem?_accepted (h : q.InOrder) (k : ℕ) :
    q.accepted[q.started.length + k]? = q.waiting[k]? := by
  rw [← h, List.getElem?_append_right (Nat.le_add_right _ _), Nat.add_sub_cancel_left]

theorem InOrder.current_not_mem (h : q.InOrder) (f : β → γ) (hnodup : (q.accepted.map f).Nodup)
    (hb : q.current = some b) : f b ∉ q.finished.map f := by
  rw [← h, started, hb] at hnodup
  simp only [Option.toList_some, List.append_assoc, List.map_append, List.map_cons,
    List.map_nil] at hnodup
  obtain ⟨-, -, hapart⟩ := List.nodup_append.mp hnodup
  exact fun hmem => hapart (f b) hmem (f b) (by simp) rfl

theorem InOrder.sublist_finished (h : q.InOrder) (hnodup : q.accepted.Nodup) {bs : List β}
    (hbs : bs.Sublist q.accepted) (hfinished : bs ⊆ q.finished) : bs.Sublist q.finished := by
  rw [← h, started, List.append_assoc] at hbs hnodup
  obtain ⟨before, rest, rfl, hbefore, hrest⟩ := List.sublist_append_iff.mp hbs
  have hnil : rest = [] := by
    refine List.eq_nil_iff_forall_not_mem.mpr fun b hb => ?_
    exact (List.nodup_append.mp hnodup).2.2 b (hfinished (List.mem_append_right _ hb)) b
      (hrest.subset hb) rfl
  rw [hnil, List.append_nil]
  exact hbefore

end WorkQueue
end WorkQueues
