import BeamMP.Foundation.WorkQueues
import Mathlib.Logic.Relation

/-!
# One consumer that alternates between two queues

In its turn a queue gives one element to the consumer, and it is passed over only if
it is empty. So an element does not wait long behind the other queue: with `k`
elements in front of it, no more than `k + 1` of the other queue come before it.
-/
namespace WorkQueues

inductive Turn
  | first
  | firstBusy
  | second
  | secondBusy
deriving DecidableEq

def Turn.swap : Turn → Turn
  | first => second
  | firstBusy => secondBusy
  | second => first
  | secondBusy => firstBusy

/-- How many elements of the second queue may have come out since one of the first did. -/
def Turn.lead : Turn → ℕ
  | .firstBusy | .second => 0
  | .secondBusy | .first => 1

structure Alternation (β γ : Type*) where
  first : WorkQueue β
  second : WorkQueue γ
  turn : Turn

namespace Alternation

variable {β γ : Type*}

/-- A step of the consumer, or of those who append to the queues. -/
inductive Step : Alternation β γ → Alternation β γ → Prop
  | idle (s : Alternation β γ) : Step s s
  | pushFirst (s : Alternation β γ) (b : β) : Step s { s with first := s.first.push b }
  | pushSecond (s : Alternation β γ) (c : γ) : Step s { s with second := s.second.push c }
  | takeFirst (s : Alternation β γ) (q : WorkQueue β) (hturn : s.turn = .first)
      (htake : s.first.take = some q) : Step s { s with first := q, turn := .firstBusy }
  | skipFirst (s : Alternation β γ) (hturn : s.turn = .first) (hempty : s.first.waiting = []) :
      Step s { s with turn := .second }
  | finishFirst (s : Alternation β γ) (hturn : s.turn = .firstBusy) :
      Step s { s with first := s.first.finish, turn := .second }
  | takeSecond (s : Alternation β γ) (q : WorkQueue γ) (hturn : s.turn = .second)
      (htake : s.second.take = some q) : Step s { s with second := q, turn := .secondBusy }
  | skipSecond (s : Alternation β γ) (hturn : s.turn = .second) (hempty : s.second.waiting = []) :
      Step s { s with turn := .first }
  | finishSecond (s : Alternation β γ) (hturn : s.turn = .secondBusy) :
      Step s { s with second := s.second.finish, turn := .first }

def swap (s : Alternation β γ) : Alternation γ β where
  first := s.second
  second := s.first
  turn := s.turn.swap

theorem Step.swap {s t : Alternation β γ} (h : Step s t) : Step s.swap t.swap := by
  cases h with
  | idle => exact .idle _
  | pushFirst b => exact .pushSecond _ b
  | pushSecond c => exact .pushFirst _ c
  | takeFirst q hturn htake => exact .takeSecond _ q (congrArg Turn.swap hturn) htake
  | skipFirst hturn hempty => exact .skipSecond _ (congrArg Turn.swap hturn) hempty
  | finishFirst hturn => exact .finishSecond _ (congrArg Turn.swap hturn)
  | takeSecond q hturn htake => exact .takeFirst _ q (congrArg Turn.swap hturn) htake
  | skipSecond hturn hempty => exact .skipFirst _ (congrArg Turn.swap hturn) hempty
  | finishSecond hturn => exact .finishFirst _ (congrArg Turn.swap hturn)

/-- The queues are in order, and the consumer has an element in hand only while it is busy. -/
structure InOrder (s : Alternation β γ) : Prop where
  first : s.first.InOrder
  second : s.second.InOrder
  firstIdle : s.turn ≠ .firstBusy → s.first.current = none
  secondIdle : s.turn ≠ .secondBusy → s.second.current = none

theorem InOrder.step {s t : Alternation β γ} (hs : s.InOrder) (h : Step s t) : t.InOrder := by
  cases h with
  | idle => exact hs
  | pushFirst b => exact ⟨hs.first.push b, hs.second, hs.firstIdle, hs.secondIdle⟩
  | pushSecond c => exact ⟨hs.first, hs.second.push c, hs.firstIdle, hs.secondIdle⟩
  | takeFirst q hturn htake =>
    exact ⟨hs.first.take (hs.firstIdle (by simp [hturn])) htake, hs.second,
      fun hne => absurd rfl hne, fun _ => hs.secondIdle (by simp [hturn])⟩
  | skipFirst hturn =>
    exact ⟨hs.first, hs.second, fun _ => hs.firstIdle (by simp [hturn]),
      fun _ => hs.secondIdle (by simp [hturn])⟩
  | finishFirst hturn =>
    exact ⟨hs.first.finish, hs.second, fun _ => rfl, fun _ => hs.secondIdle (by simp [hturn])⟩
  | takeSecond q hturn htake =>
    exact ⟨hs.first, hs.second.take (hs.secondIdle (by simp [hturn])) htake,
      fun _ => hs.firstIdle (by simp [hturn]), fun hne => absurd rfl hne⟩
  | skipSecond hturn =>
    exact ⟨hs.first, hs.second, fun _ => hs.firstIdle (by simp [hturn]),
      fun _ => hs.secondIdle (by simp [hturn])⟩
  | finishSecond hturn =>
    exact ⟨hs.first, hs.second.finish, fun _ => hs.firstIdle (by simp [hturn]), fun _ => rfl⟩

theorem InOrder.swap {s : Alternation β γ} (hs : s.InOrder) : s.swap.InOrder := by
  refine ⟨hs.second, hs.first, fun hne => hs.secondIdle ?_, fun hne => hs.firstIdle ?_⟩
  · exact fun hturn => hne (congrArg Turn.swap hturn)
  · exact fun hturn => hne (congrArg Turn.swap hturn)

theorem Step.accepted_prefix {s t : Alternation β γ} (h : Step s t) :
    s.first.accepted <+: t.first.accepted := by
  cases h with
  | pushFirst b => exact List.prefix_append _ _
  | takeFirst q hturn htake => exact (WorkQueue.accepted_take htake).symm ▸ List.prefix_rfl
  | _ => exact List.prefix_rfl

/-- The element at place `n` of all that the first queue accepted has not come out, or no more of
the second queue have than the turns allow, counted from `n₁` and `n₂` on. -/
structure Behind (b : β) (n n₁ n₂ : ℕ) (s : Alternation β γ) : Prop where
  place : s.first.accepted[n]? = some b
  since : n₁ ≤ s.first.started.length
  lead : s.first.started.length ≤ n →
    s.second.started.length + n₁ ≤ n₂ + s.first.started.length + s.turn.lead

theorem Behind.step {s t : Alternation β γ} {b : β} {n n₁ n₂ : ℕ} (hs : s.InOrder)
    (hbehind : Behind b n n₁ n₂ s) (h : Step s t) : Behind b n n₁ n₂ t := by
  obtain ⟨hplace, hsince, hlead⟩ := hbehind
  cases h with
  | idle => exact ⟨hplace, hsince, hlead⟩
  | pushFirst b' =>
    refine ⟨?_, hsince, hlead⟩
    obtain ⟨hlt, -⟩ := List.getElem?_eq_some_iff.mp hplace
    rw [WorkQueue.accepted_push, List.getElem?_append_left hlt]
    exact hplace
  | pushSecond c => exact ⟨hplace, hsince, hlead⟩
  | takeFirst q hturn htake =>
    obtain ⟨b', hstarted, -⟩ := WorkQueue.started_take (hs.firstIdle (by simp [hturn])) htake
    have haccepted : q.accepted = s.first.accepted := WorkQueue.accepted_take htake
    refine ⟨haccepted ▸ hplace, ?_, fun hn => ?_⟩
    · simp only [hstarted, List.length_append, List.length_singleton]
      omega
    · simp only [hstarted, List.length_append, List.length_singleton] at hn ⊢
      have := hlead (by omega)
      simp only [hturn, Turn.lead] at this ⊢
      omega
  | skipFirst hturn hempty =>
    refine ⟨hplace, hsince, fun hn => ?_⟩
    -- The queue is not empty as long as the element has not come out.
    obtain ⟨hlt, -⟩ := List.getElem?_eq_some_iff.mp hplace
    rw [← hs.first, hempty, List.append_nil] at hlt
    exact absurd hn (Nat.not_le.mpr hlt)
  | finishFirst hturn =>
    refine ⟨hplace, ?_, ?_⟩
    · simpa using hsince
    · simpa [hturn, Turn.lead] using hlead
  | takeSecond q hturn htake =>
    obtain ⟨c, hstarted, -⟩ := WorkQueue.started_take (hs.secondIdle (by simp [hturn])) htake
    refine ⟨hplace, hsince, fun hn => ?_⟩
    have := hlead hn
    simp only [hturn, Turn.lead, hstarted, List.length_append,
      List.length_singleton] at this ⊢
    omega
  | skipSecond hturn =>
    refine ⟨hplace, hsince, fun hn => ?_⟩
    have := hlead hn
    simp only [hturn, Turn.lead] at this ⊢
    omega
  | finishSecond hturn =>
    refine ⟨hplace, hsince, ?_⟩
    simpa [hturn, Turn.lead] using hlead

/-- As long as an element of the first queue that had `k` others in front of it has not come out,
no more than `k` of the first and `k + 1` of the second queue have. -/
theorem overtaken_le {s t : Alternation β γ} (hs : s.InOrder)
    (hrun : Relation.ReflTransGen Step s t) {k : ℕ} {b : β} (hb : s.first.waiting[k]? = some b)
    (hnot : b ∉ t.first.started) :
    t.first.started.length ≤ s.first.started.length + k ∧
      t.second.started.length ≤ s.second.started.length + (k + 1) := by
  have hinv : t.InOrder ∧ Behind b (s.first.started.length + k) s.first.started.length
      s.second.started.length t := by
    clear hnot
    induction hrun with
    | refl =>
      refine ⟨hs, ?_, Nat.le_refl _, fun _ => ?_⟩
      · rw [hs.first.getElem?_accepted, hb]
      · omega
    | tail _ hstep ih =>
      obtain ⟨hinOrder, hbehind⟩ := ih
      exact ⟨hinOrder.step hstep, hbehind.step hinOrder hstep⟩
  obtain ⟨hinOrder, hplace, -, hlead⟩ := hinv
  have hle : t.first.started.length ≤ s.first.started.length + k := by
    by_contra hlt
    rw [← hinOrder.first, List.getElem?_append_left (Nat.not_le.mp hlt)] at hplace
    exact hnot (List.mem_of_getElem? hplace)
  have hbound : t.turn.lead ≤ 1 := by
    cases t.turn <;> simp [Turn.lead]
  refine ⟨hle, ?_⟩
  have := hlead hle
  omega

end Alternation
end WorkQueues
