import BeamMP.Server.ParseVehicle

/-!
# The header of a vehicle packet

`GetPidVid` cuts the header at the first `-` and reads both halves as decimal
numbers. Every header of the form `PID-VID` is read back, and nothing else is
accepted except a string without `-`: there `IDSep + 1` wraps around to zero,
both halves are the whole string, and a bare number is taken for both IDs.
-/
namespace BeamMP

open Bytes

/-- A non-empty string of decimal digits that denotes a number of at most `INT_MAX`. -/
structure Denotes (s : Bytes) (n : ℤ) : Prop where
  nonempty : s ≠ []
  digits : s.all isDigit = true
  range : digitsValue s ≤ intMax
  value : n = digitsValue s

/-- The grammar of a header: a number, one `-` and another number. -/
def IsPidVid (s : Bytes) (P V : ℤ) : Prop :=
  ∃ p v : Bytes, s = p ++ '-'.toUInt8 :: v ∧ Denotes p P ∧ Denotes v V

theorem denotes_iff {s : Bytes} {n : ℤ} :
    Denotes s n ↔ s.all isDigit = true ∧ stoi s = some n := by
  rw [stoi_eq_some_iff]
  constructor
  · rintro ⟨hne, hdigits, hrange, hvalue⟩
    exact ⟨hdigits, hne, hrange, hvalue⟩
  · rintro ⟨hdigits, hne, hrange, hvalue⟩
    exact ⟨hne, hdigits, hrange, hvalue⟩

theorem denotes_toDecimal {n : ℤ} (hn : 0 ≤ n) (hmax : n ≤ intMax) : Denotes (toDecimal n) n :=
  denotes_iff.mpr ⟨all_isDigit_toDecimal hn, stoi_toDecimal hn hmax⟩

namespace Denotes

variable {s : Bytes} {n : ℤ}

theorem not_mem (h : Denotes s n) {c : Char} (hc : isDigit c.toUInt8 = false) :
    c.toUInt8 ∉ s := by
  intro hmem
  rw [List.all_eq_true.mp h.digits _ hmem] at hc
  cases hc

theorem sep_not_mem (h : Denotes s n) : '-'.toUInt8 ∉ s := h.not_mem (by decide)

theorem not_isPidVid (h : Denotes s n) (P V : ℤ) : ¬IsPidVid s P V := by
  rintro ⟨p, v, rfl, -, -⟩
  exact h.sep_not_mem (by simp)

end Denotes

theorem readHalves_eq_some_iff {pid vid : Bytes} {P V : ℤ} :
    ((if pid.all isDigit && vid.all isDigit then do
        let p ← stoi pid
        let v ← stoi vid
        return (p, v)
      else none) = some (P, V)) ↔ Denotes pid P ∧ Denotes vid V := by
  rw [denotes_iff, denotes_iff]
  by_cases hdigits : (pid.all isDigit && vid.all isDigit) = true
  · have hboth := Bool.and_eq_true_iff.mp hdigits
    rw [if_pos hdigits]
    simp [Option.bind_eq_some_iff, hboth.1, hboth.2]
  · rw [if_neg hdigits]
    simp only [Bool.and_eq_true, not_and] at hdigits
    simp only [reduceCtorEq, false_iff]
    rintro ⟨⟨hpid, -⟩, hvid, -⟩
    exact hdigits hpid hvid

theorem getPidVid_append_iff {p v : Bytes} (hp : '-'.toUInt8 ∉ p) {P V : ℤ} :
    getPidVid (p ++ '-'.toUInt8 :: v) = some (P, V) ↔ Denotes p P ∧ Denotes v V := by
  have hpid : substr (p ++ '-'.toUInt8 :: v) 0 (some p.length) = p := by simp [substr]
  have hvid : substr (p ++ '-'.toUInt8 :: v) (p.length + 1) none = v := by simp [substr]
  unfold getPidVid
  simp only [find_append_cons v hp, hpid, hvid]
  exact readHalves_eq_some_iff

theorem getPidVid_without_sep_iff {s : Bytes} (hs : '-'.toUInt8 ∉ s) {P V : ℤ} :
    getPidVid s = some (P, V) ↔ Denotes s P ∧ Denotes s V := by
  have hpid : substr s 0 none = s := rfl
  unfold getPidVid
  simp only [find_eq_none_iff.mpr hs, hpid]
  exact readHalves_eq_some_iff

/-- What `GetPidVid` accepts: its grammar, and a number alone. -/
theorem getPidVid_eq_some_iff {s : Bytes} {P V : ℤ} :
    getPidVid s = some (P, V) ↔ IsPidVid s P V ∨ Denotes s P ∧ Denotes s V := by
  constructor
  · intro h
    cases hsep : find s '-' 0 with
    | none =>
      exact Or.inr ((getPidVid_without_sep_iff (find_eq_none_iff.mp hsep)).mp h)
    | some i =>
      obtain ⟨p, v, rfl, hp, -⟩ := exists_of_find_eq_some hsep
      obtain ⟨hP, hV⟩ := (getPidVid_append_iff hp).mp h
      exact Or.inl ⟨p, v, rfl, hP, hV⟩
  · rintro (⟨p, v, rfl, hP, hV⟩ | ⟨hP, hV⟩)
    · exact (getPidVid_append_iff hP.sep_not_mem).mpr ⟨hP, hV⟩
    · exact (getPidVid_without_sep_iff hP.sep_not_mem).mpr ⟨hP, hV⟩

theorem getPidVid_toDecimal {p v : ℤ} (hp : 0 ≤ p) (hpmax : p ≤ intMax) (hv : 0 ≤ v)
    (hvmax : v ≤ intMax) :
    getPidVid (toDecimal p ++ ascii "-" ++ toDecimal v) = some (p, v) := by
  have hshape : toDecimal p ++ ascii "-" ++ toDecimal v =
      toDecimal p ++ '-'.toUInt8 :: toDecimal v := by simp [ascii]
  rw [hshape, getPidVid_eq_some_iff]
  exact Or.inl ⟨toDecimal p, toDecimal v, rfl, denotes_toDecimal hp hpmax,
    denotes_toDecimal hv hvmax⟩

/-- `GetPidVid` agrees with its grammar on exactly the strings that are not a number by
themselves, and it reads back every pair of IDs that the server writes. -/
theorem getPidVid_grammar (s : Bytes) :
    ((∀ P V : ℤ, getPidVid s = some (P, V) ↔ IsPidVid s P V) ↔ ¬∃ n : ℤ, Denotes s n) ∧
    ∀ p v : ℤ, 0 ≤ p → p ≤ intMax → 0 ≤ v → v ≤ intMax →
      getPidVid (toDecimal p ++ ascii "-" ++ toDecimal v) = some (p, v) := by
  refine ⟨⟨?_, ?_⟩, fun p v => getPidVid_toDecimal⟩
  · rintro hgrammar ⟨n, hn⟩
    have hread := getPidVid_eq_some_iff.mpr (Or.inr ⟨hn, hn⟩)
    exact hn.not_isPidVid n n ((hgrammar n n).mp hread)
  · intro hnumber P V
    rw [getPidVid_eq_some_iff]
    constructor
    · rintro (hform | ⟨hP, -⟩)
      · exact hform
      · exact (hnumber ⟨P, hP⟩).elim
    · exact Or.inl

theorem getPidVid_grammar_example :
    (∀ P V : ℤ, getPidVid (ascii "3-x") = some (P, V) ↔ IsPidVid (ascii "3-x") P V) ∧
      getPidVid (toDecimal 10 ++ ascii "-" ++ toDecimal 2) = some (10, 2) := by
  have hnumber : ¬∃ n : ℤ, Denotes (ascii "3-x") n := fun ⟨_, hn⟩ =>
    hn.sep_not_mem (by decide)
  exact ⟨(getPidVid_grammar (ascii "3-x")).1.mpr hnumber,
    (getPidVid_grammar (ascii "3-x")).2 10 2 (by decide) (by decide) (by decide) (by decide)⟩

/-- A number without `-` is taken for a vehicle of the player with that number. -/
theorem getPidVid_accepts_number :
    getPidVid (ascii "7") = some (7, 7) ∧ ¬IsPidVid (ascii "7") 7 7 := by
  have hnumber : Denotes (ascii "7") 7 := ⟨by decide, by decide, by decide, by decide⟩
  exact ⟨by decide, hnumber.not_isPidVid 7 7⟩

end BeamMP
