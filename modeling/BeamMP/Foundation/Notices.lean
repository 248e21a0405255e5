import Mathlib.Data.List.Induction
import Mathlib.Tactic.Common

/-!
# Notices about the members of a changing set

An observer learns of the members of a set from a log of notices, each of which
says that a member appeared or that it vanished. The log is written in two
places: notices of current events are appended to a queue at its end, and copies
of the current members are put in front of that queue while the observer joins.
`Consistent` is what has to hold so that no vanished member is ever shown last.
-/
namespace Notices

variable {α : Type*} [DecidableEq α]

inductive Notice (α : Type*)
  | appear (a : α)
  | vanish (a : α)
deriving DecidableEq

/-- What a notice says about a member. -/
def Notice.about (a : α) : Notice α → Option Bool
  | .appear b => if b = a then some true else none
  | .vanish b => if b = a then some false else none

/-- What the last notice about a member says. -/
def lastWord (a : α) (log : List (Notice α)) : Option Bool :=
  log.reverse.findSome? (Notice.about a)

variable {a b : α} {log queue : List (Notice α)}

@[simp] theorem lastWord_nil : lastWord a [] = none := rfl

theorem lastWord_append (l r : List (Notice α)) :
    lastWord a (l ++ r) = (lastWord a r).or (lastWord a l) := by
  simp [lastWord, List.findSome?_append]

theorem lastWord_concat (l : List (Notice α)) (n : Notice α) :
    lastWord a (l ++ [n]) = (n.about a).or (lastWord a l) := by
  rw [lastWord_append]
  cases h : n.about a <;> simp [lastWord, h]

@[simp] theorem about_appear_self : (Notice.appear a).about a = some true := by simp [Notice.about]

@[simp] theorem about_vanish_self : (Notice.vanish a).about a = some false := by
  simp [Notice.about]

theorem about_appear_of_ne (h : b ≠ a) : (Notice.appear b).about a = none := by
  simp [Notice.about, h]

theorem about_vanish_of_ne (h : b ≠ a) : (Notice.vanish b).about a = none := by
  simp [Notice.about, h]

theorem lastWord_map_appear (as : List α) :
    lastWord a (as.map .appear) = if a ∈ as then some true else none := by
  induction as using List.reverseRecOn with
  | nil => rfl
  | append_singleton as b ih =>
    rw [List.map_append, List.map_singleton, lastWord_concat, ih]
    by_cases h : b = a
    · simp [h]
    · simp [about_appear_of_ne h, List.mem_append, Ne.symm h]

/-- A member that is not shown last has vanished after every notice that it appeared. -/
theorem vanish_mem_of_lastWord {l r : List (Notice α)}
    (h : lastWord a (l ++ .appear a :: r) ≠ some true) :
    .vanish a ∈ r := by
  induction r using List.reverseRecOn with
  | nil => simp [lastWord_concat] at h
  | append_singleton r n ih =>
    rw [← List.cons_append, ← List.append_assoc, lastWord_concat] at h
    rw [List.mem_append, List.mem_singleton]
    cases n with
    | appear b =>
      by_cases hb : b = a
      · simp [hb] at h
      · rw [about_appear_of_ne hb, Option.none_or] at h
        exact Or.inl (ih h)
    | vanish b =>
      by_cases hb : b = a
      · exact Or.inr (by rw [hb])
      · rw [about_vanish_of_ne hb, Option.none_or] at h
        exact Or.inl (ih h)

/-- What relates the set of current members, the log and its queue. Of a member that is about to
be removed (`leaving`), the flag says whether its notice is in the queue; `copying` says that
current members may still be copied in front of the queue. -/
structure Consistent (present : α → Prop) (log queue : List (Notice α)) (copying : Prop)
    (leaving : α → Bool → Prop) : Prop where
  shown : ∀ a, lastWord a log = some true → present a
  hidden : ∀ a r, leaving a r → lastWord a log ≠ some true
  queued : copying → ∀ a, leaving a true → lastWord a queue = some false

namespace Consistent

variable {present present' : α → Prop} {copying : Prop} {leaving leaving' : α → Bool → Prop}

theorem of_le (h : Consistent present log queue copying leaving)
    (hle : ∀ a r, leaving' a r → leaving a r) : Consistent present log queue copying leaving' where
  shown := h.shown
  hidden a r ha := h.hidden a r (hle a r ha)
  queued hcopying a ha := h.queued hcopying a (hle a true ha)

theorem grow (h : Consistent present log queue copying leaving)
    (hle : ∀ a, present a → present' a) : Consistent present' log queue copying leaving where
  shown a ha := hle a (h.shown a ha)
  hidden := h.hidden
  queued := h.queued

theorem shrink (h : Consistent present log queue copying leaving)
    (hhidden : ∀ a, present a → lastWord a log = some true → present' a) :
    Consistent present' log queue copying leaving where
  shown a ha := hhidden a (h.shown a ha) ha
  hidden := h.hidden
  queued := h.queued

theorem vanish (h : Consistent present log queue copying leaving) (a : α)
    (hle : ∀ b r, leaving' b r → leaving b r ∨ b = a) :
    Consistent present (log ++ [.vanish a]) (queue ++ [.vanish a]) copying leaving' where
  shown b hb := by
    rw [lastWord_concat] at hb
    by_cases hab : a = b
    · simp [hab] at hb
    · rw [about_vanish_of_ne hab, Option.none_or] at hb
      exact h.shown b hb
  hidden b r hb := by
    rw [lastWord_concat]
    by_cases hab : a = b
    · simp [hab]
    · rw [about_vanish_of_ne hab, Option.none_or]
      exact h.hidden b r ((hle b r hb).resolve_right (Ne.symm hab))
  queued hcopying b hb := by
    rw [lastWord_concat]
    by_cases hab : a = b
    · simp [hab]
    · rw [about_vanish_of_ne hab, Option.none_or]
      exact h.queued hcopying b ((hle b true hb).resolve_right (Ne.symm hab))

theorem skip (h : Consistent present log queue copying leaving)
    (hhidden : lastWord a log ≠ some true)
    (hle : ∀ b r, leaving' b r → leaving b r ∨ b = a ∧ r = false) :
    Consistent present log queue copying leaving' where
  shown := h.shown
  hidden b r hb := by
    rcases hle b r hb with hb | ⟨rfl, -⟩
    · exact h.hidden b r hb
    · exact hhidden
  queued hcopying b hb := by
    rcases hle b true hb with hb | ⟨-, hr⟩
    · exact h.queued hcopying b hb
    · cases hr

theorem appear (h : Consistent present log queue copying leaving) (ha : present a)
    (hstays : ∀ r, ¬ leaving a r) :
    Consistent present (log ++ [.appear a]) (queue ++ [.appear a]) copying leaving where
  shown b hb := by
    rw [lastWord_concat] at hb
    by_cases hab : a = b
    · exact hab ▸ ha
    · rw [about_appear_of_ne hab, Option.none_or] at hb
      exact h.shown b hb
  hidden b r hb := by
    have hab : a ≠ b := fun hab => hstays r (hab ▸ hb)
    rw [lastWord_concat, about_appear_of_ne hab, Option.none_or]
    exact h.hidden b r hb
  queued hcopying b hb := by
    have hab : a ≠ b := fun hab => hstays true (hab ▸ hb)
    rw [lastWord_concat, about_appear_of_ne hab, Option.none_or]
    exact h.queued hcopying b hb

/-- Current members are copied in front of the queue, none of which is about to be removed
without a notice in the queue. -/
theorem copy {sent : List (Notice α)} (h : Consistent present (sent ++ queue) queue copying leaving)
    (hcopying : copying) {as : List α} (has : ∀ a ∈ as, present a)
    (hstays : ∀ a ∈ as, ¬ leaving a false) :
    Consistent present (sent ++ as.map .appear ++ queue) queue copying leaving where
  shown a ha := by
    by_cases hmem : a ∈ as
    · exact has a hmem
    · apply h.shown a
      simpa [lastWord_append, lastWord_map_appear, hmem] using ha
  hidden a r ha := by
    by_cases hmem : a ∈ as
    · have hr : r = true := by
        by_contra hr
        rw [Bool.not_eq_true] at hr
        exact hstays a hmem (hr ▸ ha)
      have hqueue := h.queued hcopying a (hr ▸ ha)
      simp [lastWord_append, hqueue]
    · have := h.hidden a r ha
      simpa [lastWord_append, lastWord_map_appear, hmem] using this
  queued := h.queued

/-- No more copies are made, and the queue may shrink. -/
theorem deliver (h : Consistent present log queue copying leaving) (queue' : List (Notice α))
    {copying' : Prop} (hcopying : ¬ copying') : Consistent present log queue' copying' leaving where
  shown := h.shown
  hidden := h.hidden
  queued hc := absurd hc hcopying

end Consistent
end Notices
