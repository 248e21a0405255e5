import Mathlib.Data.List.Infix
import Mathlib.Data.Nat.Notation
import Mathlib.Tactic.Common
import Mathlib.Tactic.TypeStar

/-!
# Where a pattern is in a string

A search answers the first position of a pattern. A string ends once in a pattern
if this is also its last position. An element that is not in the pattern cuts a
string into two, in which the pattern can be looked for separately, and a list of
strings can be read back from them if such an element is in front of each.
-/
namespace Substrings

variable {α : Type*} {pattern s t : List α} {a : α} {i : ℕ}

/-- The first position at which the pattern is in the string. -/
def find [DecidableEq α] (pattern s : List α) : Option ℕ :=
  s.tails.findIdx? (pattern.isPrefixOf ·)

/-- The string ends in the pattern, which is nowhere else in it. -/
structure EndsOnce (pattern s : List α) : Prop where
  ends : pattern <:+ s
  once : ¬pattern <:+: s.dropLast

instance [DecidableEq α] : Decidable (EndsOnce pattern s) :=
  decidable_of_iff (pattern <:+ s ∧ ¬pattern <:+: s.dropLast)
    ⟨fun h => ⟨h.1, h.2⟩, fun h => ⟨h.ends, h.once⟩⟩

theorem find_eq_some_iff [DecidableEq α] : find pattern s = some i ↔
    i ≤ s.length ∧ pattern <+: s.drop i ∧ ∀ j < i, ¬pattern <+: s.drop j := by
  simp only [find, List.findIdx?_eq_some_iff_getElem, List.getElem_tails, List.length_tails,
    List.isPrefixOf_iff_prefix, Nat.lt_succ_iff, exists_prop]

/-- A pattern with something behind it is in the string without its last element. -/
theorem infix_dropLast_of_append {rest : List α} (hrest : rest ≠ [])
    (h : pattern ++ rest <:+ s) : pattern <:+: s.dropLast := by
  obtain ⟨front, rfl⟩ := h
  refine ⟨front, rest.dropLast, ?_⟩
  rw [List.dropLast_append_of_ne_nil (by simp [hrest]), List.dropLast_append_of_ne_nil hrest,
    List.append_assoc]

theorem find_ends_iff [DecidableEq α] (hpattern : pattern ≠ []) :
    (∃ pos, find pattern s = some pos ∧ s.length - pos = pattern.length) ↔
      EndsOnce pattern s := by
  constructor
  · rintro ⟨pos, hfind, hlength⟩
    obtain ⟨-, hstart, hfirst⟩ := find_eq_some_iff.mp hfind
    have hdrop : s.drop pos = pattern :=
      (hstart.eq_of_length (by rw [List.length_drop, hlength])).symm
    refine ⟨hdrop ▸ List.drop_suffix pos s, fun ⟨front, rest, hsplit⟩ => ?_⟩
    have hs : s ≠ [] := by
      rintro rfl
      simp [hpattern] at hsplit
    obtain ⟨last, rfl⟩ : ∃ last, s = front ++ (pattern ++ (rest ++ [last])) := by
      refine ⟨s.getLast hs, (List.dropLast_concat_getLast hs).symm.trans ?_⟩
      rw [← hsplit]
      simp
    refine hfirst front.length ?_ ⟨rest ++ [last], by simp⟩
    simp only [List.length_append, List.length_singleton] at hlength
    omega
  · rintro ⟨⟨front, rfl⟩, honce⟩
    refine ⟨front.length, find_eq_some_iff.mpr ⟨by simp, by simp, ?_⟩, by simp⟩
    rintro j hj ⟨rest, hrest⟩
    refine honce (infix_dropLast_of_append ?_ (hrest ▸ List.drop_suffix j _))
    rintro rfl
    have hlengths := congrArg List.length hrest
    simp only [List.append_nil, List.length_drop, List.length_append] at hlengths
    omega

/-- What is cut off in front can be left out. -/
theorem EndsOnce.of_suffix (h : EndsOnce pattern s) (ht : t <:+ s) (hends : pattern <:+ t) :
    EndsOnce pattern t where
  ends := hends
  once := by
    obtain ⟨front, rfl⟩ := ht
    intro hinner
    refine h.once ?_
    rcases eq_or_ne t [] with rfl | hne
    · rw [List.infix_nil.mp hinner]
      exact List.nil_infix
    · rw [List.dropLast_append_of_ne_nil hne]
      exact List.infix_append_of_infix_right hinner

section Separator

theorem eq_nil_of_prefix_cons {front : List α} (ha : a ∉ front) (h : front <+: a :: t) :
    front = [] := by
  rcases List.prefix_cons_iff.mp h with hnil | ⟨rest, rfl, -⟩
  · exact hnil
  · exact absurd List.mem_cons_self ha

variable (ha : a ∉ pattern)

include ha in
theorem infix_append_cons_iff :
    pattern <:+: s ++ a :: t ↔ pattern <:+: s ∨ pattern <:+: t := by
  constructor
  · intro h
    rcases List.infix_append_iff.mp h with h | h | ⟨front, rest, rfl, hfront, hrest⟩
    · exact .inl h
    · rcases List.infix_cons_iff.mp h with hstart | h
      · rw [eq_nil_of_prefix_cons ha hstart]
        exact .inl List.nil_infix
      · exact .inr h
    · have hnil := eq_nil_of_prefix_cons (fun hmem => ha (List.mem_append_right _ hmem)) hrest
      rw [hnil, List.append_nil]
      exact .inl hfront.isInfix
  · rintro (h | h)
    · exact List.infix_append_of_infix_left h
    · exact List.infix_append_of_infix_right (List.infix_cons h)

include ha in
theorem suffix_append_cons_iff : pattern <:+ s ++ a :: t ↔ pattern <:+ t := by
  constructor
  · intro h
    rcases List.suffix_or_suffix_of_suffix h (List.suffix_append s (a :: t)) with h | h
    · rcases List.suffix_cons_iff.mp h with rfl | h
      · exact absurd List.mem_cons_self ha
      · exact h
    · exact absurd (h.subset List.mem_cons_self) ha
  · intro h
    exact h.trans ((List.suffix_cons a t).trans (List.suffix_append s (a :: t)))

include ha in
theorem endsOnce_append_cons_iff (hpattern : pattern ≠ []) :
    EndsOnce pattern (s ++ a :: t) ↔ ¬pattern <:+: s ∧ EndsOnce pattern t := by
  have hdrop : pattern <:+ t → (s ++ a :: t).dropLast = s ++ a :: t.dropLast := by
    intro h
    have ht : t ≠ [] := by
      rintro rfl
      exact hpattern (List.suffix_nil.mp h)
    rw [List.dropLast_append_of_ne_nil (List.cons_ne_nil a t), List.dropLast_cons_of_ne_nil ht]
  constructor
  · rintro ⟨hends, honce⟩
    rw [suffix_append_cons_iff ha] at hends
    rw [hdrop hends, infix_append_cons_iff ha] at honce
    exact ⟨fun h => honce (.inl h), hends, fun h => honce (.inr h)⟩
  · rintro ⟨hs, hends, honce⟩
    refine ⟨(suffix_append_cons_iff ha).mpr hends, ?_⟩
    rw [hdrop hends, infix_append_cons_iff ha]
    exact not_or.mpr ⟨hs, honce⟩

end Separator

section Headed

variable {strings others : List (List α)}

/-- The strings behind each other, each with the separator in front. -/
def headed (a : α) (strings : List (List α)) : List α := strings.flatMap (a :: ·)

theorem headed_cons (a : α) (s : List α) :
    headed a (s :: strings) = a :: (s ++ headed a strings) := rfl

/-- The first string ends where the separator is. -/
theorem takeWhile_headed [DecidableEq α] (hs : a ∉ s) (strings : List (List α)) :
    (s ++ headed a strings).takeWhile (· != a) = s := by
  have hkeep : ∀ b ∈ s, (b != a) = true := by
    intro b hb
    exact bne_iff_ne.mpr fun heq => hs (heq ▸ hb)
  rw [List.takeWhile_append_of_pos hkeep]
  cases strings with
  | nil => exact List.append_nil s
  | cons t strings => simp [headed_cons]

theorem headed_inj [DecidableEq α] (hstrings : ∀ s ∈ strings, a ∉ s) (hothers : ∀ s ∈ others, a ∉ s)
    (h : headed a strings = headed a others) : strings = others := by
  induction strings generalizing others with
  | nil =>
    cases others with
    | nil => rfl
    | cons t others => cases h
  | cons s strings ih =>
    cases others with
    | nil => cases h
    | cons t others =>
      obtain ⟨hs, hrest⟩ := List.forall_mem_cons.mp hstrings
      obtain ⟨ht, hrest'⟩ := List.forall_mem_cons.mp hothers
      rw [headed_cons, headed_cons] at h
      have htail := List.tail_eq_of_cons_eq h
      obtain rfl : s = t := by
        rw [← takeWhile_headed hs strings, htail, takeWhile_headed ht]
      exact congrArg (s :: ·) (ih hrest hrest' (List.append_cancel_left htail))

end Headed
end Substrings
