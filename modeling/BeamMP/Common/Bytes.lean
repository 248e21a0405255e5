import Mathlib.Data.List.TakeWhile
import Mathlib.Tactic

/-!
# Byte strings

`std::string` and `std::vector<uint8_t>` are both lists of bytes here. The
operations follow the standard library: positions count from zero, `find`
answers `none` for `npos`, and `substr` of `npos` takes the rest.
-/
namespace BeamMP

abbrev Bytes := List UInt8

/-- The bytes of a literal of the source, which are all ASCII. -/
def ascii (s : String) : Bytes := s.toList.map Char.toUInt8

namespace Bytes

/-- `s.find(c, pos)`. -/
def find (s : Bytes) (c : Char) (pos : ℕ) : Option ℕ :=
  ((s.drop pos).findIdx? (· == c.toUInt8)).map (· + pos)

/-- `s.rfind(c)`, which is `s.find_last_of(c)` as well. -/
def rfind (s : Bytes) (c : Char) : Option ℕ := (find s.reverse c 0).map (s.length - 1 - ·)

/-- `s.substr(pos, n)` for a position inside the string, where `none` is `npos`. -/
def substr (s : Bytes) (pos : ℕ) (n : Option ℕ) : Bytes :=
  match n with
  | none => s.drop pos
  | some n => (s.drop pos).take n

/-- What is seen of a string that is passed as a C string: its bytes up to the first NUL. -/
def cstr (s : Bytes) : Bytes := s.takeWhile (· != 0)

theorem cstr_eq_self {s : Bytes} (h : (0 : UInt8) ∉ s) : s.cstr = s := by
  rw [cstr, List.takeWhile_eq_self_iff]
  intro b hb
  have hne : b ≠ 0 := fun hz => h (hz ▸ hb)
  simpa using hne

theorem zero_notMem_cstr (s : Bytes) : (0 : UInt8) ∉ s.cstr := by
  intro h
  have hne := List.mem_takeWhile_imp h
  simp at hne

theorem cstr_append {s : Bytes} (t : Bytes) (h : (0 : UInt8) ∉ s) :
    (s ++ t : Bytes).cstr = s ++ t.cstr := by
  unfold cstr
  rw [List.takeWhile_append_of_pos]
  intro b hb
  have hne : b ≠ 0 := fun hz => h (hz ▸ hb)
  simpa using hne

theorem mem_of_mem_cstr {s : Bytes} {b : UInt8} (h : b ∈ s.cstr) : b ∈ s :=
  (List.takeWhile_prefix _).subset h

theorem find_zero (s : Bytes) (c : Char) : s.find c 0 = s.findIdx? (· == c.toUInt8) := by
  simp [find]

theorem find_eq_none_iff {s : Bytes} {c : Char} : s.find c 0 = none ↔ c.toUInt8 ∉ s := by
  simp only [find_zero, List.findIdx?_eq_none_iff, beq_eq_false_iff_ne]
  exact ⟨fun h hmem => h _ hmem rfl, fun h b hb heq => h (heq ▸ hb)⟩

theorem find_add (s : Bytes) (c : Char) (pos : ℕ) :
    s.find c pos = (find (s.drop pos) c 0).map (· + pos) := by
  simp [find]

theorem find_from_eq_none_iff {s : Bytes} {c : Char} {pos : ℕ} :
    s.find c pos = none ↔ c.toUInt8 ∉ s.drop pos := by
  rw [find_add, Option.map_eq_none_iff, find_eq_none_iff]

theorem mem_drop_iff {s : Bytes} {pos : ℕ} {b : UInt8} :
    b ∈ s.drop pos ↔ ∃ i, pos ≤ i ∧ s[i]? = some b := by
  rw [List.mem_iff_getElem?]
  constructor
  · rintro ⟨i, hi⟩
    rw [List.getElem?_drop] at hi
    exact ⟨pos + i, Nat.le_add_right pos i, hi⟩
  · rintro ⟨i, hle, hi⟩
    refine ⟨i - pos, ?_⟩
    rw [List.getElem?_drop, Nat.add_sub_cancel' hle]
    exact hi

theorem find_append_cons {s : Bytes} {c : Char} (t : Bytes) (h : c.toUInt8 ∉ s) :
    find (s ++ c.toUInt8 :: t) c 0 = some s.length := by
  have hs : s.findIdx? (· == c.toUInt8) = none := by
    rw [← find_zero, find_eq_none_iff]
    exact h
  simp [find_zero, List.findIdx?_append, hs, List.findIdx?_cons]

theorem exists_of_find_eq_some {s : Bytes} {c : Char} {i : ℕ} (h : s.find c 0 = some i) :
    ∃ t u : Bytes, s = t ++ c.toUInt8 :: u ∧ c.toUInt8 ∉ t ∧ i = t.length := by
  have hmem : c.toUInt8 ∈ s := by
    by_contra habsent
    rw [find_eq_none_iff.mpr habsent] at h
    cases h
  obtain ⟨t, u, rfl, ht⟩ := List.eq_append_cons_of_mem hmem
  refine ⟨t, u, rfl, ht, ?_⟩
  rw [find_append_cons u ht] at h
  exact (Option.some.inj h).symm

theorem rfind_append_cons {s t : Bytes} {c : Char} (ht : c.toUInt8 ∉ t) :
    rfind (s ++ c.toUInt8 :: t) c = some s.length := by
  have hreverse : (s ++ c.toUInt8 :: t).reverse = t.reverse ++ c.toUInt8 :: s.reverse := by simp
  rw [rfind, hreverse, find_append_cons _ (by simpa using ht)]
  simp

theorem rfind_eq_none {s : Bytes} {c : Char} (hs : c.toUInt8 ∉ s) : s.rfind c = none := by
  rw [rfind, find_eq_none_iff.mpr (by simpa using hs)]
  rfl

theorem exists_last_of_mem {s : Bytes} {c : Char} (h : c.toUInt8 ∈ s) :
    ∃ t u : Bytes, s = t ++ c.toUInt8 :: u ∧ c.toUInt8 ∉ u := by
  obtain ⟨u, t, hsplit, hu⟩ := List.eq_append_cons_of_mem (List.mem_reverse.mpr h)
  refine ⟨t.reverse, u.reverse, ?_, by simpa using hu⟩
  have := congrArg List.reverse hsplit
  simpa using this

end Bytes

/-- `std::to_string` of an `int`. -/
def toDecimal (n : ℤ) : Bytes :=
  let digits := (Nat.toDigits 10 n.natAbs).map Char.toUInt8
  if n < 0 then '-'.toUInt8 :: digits else digits

/-- Whether a byte is one of `"0123456789"`. -/
def isDigit (b : UInt8) : Bool := 48 ≤ b && b ≤ 57

/-- The number a string of decimal digits denotes. -/
def digitsValue (s : Bytes) : ℕ := s.foldl (fun n b => 10 * n + (b.toNat - 48)) 0

def intMax : ℕ := 2147483647

/-- `std::stoi` of a string that holds decimal digits only: the empty string is an
`invalid_argument` and a value above `INT_MAX` is `out_of_range`. -/
def stoi (s : Bytes) : Option ℤ :=
  if s = [] then none
  else if digitsValue s ≤ intMax then some (digitsValue s)
  else none

theorem stoi_eq_some_iff {s : Bytes} {n : ℤ} :
    stoi s = some n ↔ s ≠ [] ∧ digitsValue s ≤ intMax ∧ n = digitsValue s := by
  unfold stoi
  split_ifs with hempty hrange
  · simp [hempty]
  · simp [hempty, hrange, eq_comm]
  · simp [hrange]

theorem stoi_nonneg {s : Bytes} {n : ℤ} (h : stoi s = some n) : 0 ≤ n := by
  unfold stoi at h
  split_ifs at h
  cases h
  omega

def isSpace (b : UInt8) : Bool := b = 32 || (9 ≤ b && b ≤ 13)

/-- The sign in front of a number, which may be missing, and what follows it. -/
def splitSign : Bytes → Bool × Bytes
  | [] => (false, [])
  | b :: s => if b = 45 then (true, s) else (false, if b = 43 then s else b :: s)

/-- `std::stoi` of any string: blanks and a sign are skipped, and what follows the digits is
ignored. -/
def stoiPrefix (s : Bytes) : Option ℤ :=
  let (negative, rest) := splitSign (s.dropWhile isSpace)
  let digits := rest.takeWhile isDigit
  let n : ℤ := if negative then -digitsValue digits else digitsValue digits
  if digits = [] then none
  else if -(intMax + 1) ≤ n ∧ n ≤ intMax then some n
  else none

section Decimal

variable {n : ℤ}

theorem toDecimal_of_nonneg (hn : 0 ≤ n) :
    toDecimal n = (Nat.toDigits 10 n.natAbs).map Char.toUInt8 := by
  rw [toDecimal, if_neg (not_lt.mpr hn)]

theorem toNat_toUInt8_of_isDigit {c : Char} (hc : c.isDigit) :
    c.toUInt8.toNat = c.toNat := by
  have hle : c.toNat ≤ 57 := (Char.isDigit_iff_toNat.mp hc).2
  exact Nat.mod_eq_of_lt (a := c.toNat) (b := 256) (by omega)

theorem isDigit_toUInt8 {c : Char} (hc : c.isDigit) : isDigit c.toUInt8 := by
  have hrange := Char.isDigit_iff_toNat.mp hc
  rw [← toNat_toUInt8_of_isDigit hc] at hrange
  simp only [isDigit, Bool.and_eq_true, decide_eq_true_eq, UInt8.le_iff_toNat_le]
  exact hrange

theorem toDecimal_ne_nil (hn : 0 ≤ n) : toDecimal n ≠ [] := by
  rw [toDecimal_of_nonneg hn]
  simp [Nat.toDigits_ne_nil]

theorem all_isDigit_toDecimal (hn : 0 ≤ n) : (toDecimal n).all isDigit := by
  rw [toDecimal_of_nonneg hn, List.all_eq_true]
  intro b hb
  obtain ⟨c, hc, rfl⟩ := List.mem_map.mp hb
  exact isDigit_toUInt8 (Nat.isDigit_of_mem_toDigits (by omega) le_rfl hc)

theorem digitsValue_map_toUInt8 {cs : List Char} (hcs : ∀ c ∈ cs, c.isDigit) (acc : ℕ) :
    (cs.map Char.toUInt8).foldl (fun n b => 10 * n + (b.toNat - 48)) acc =
      Nat.ofDigitChars 10 cs acc := by
  induction cs generalizing acc with
  | nil => simp
  | cons c cs ih =>
    rw [List.map_cons, List.foldl_cons, Nat.ofDigitChars_cons,
      toNat_toUInt8_of_isDigit (hcs c List.mem_cons_self),
      ih fun d hd => hcs d (List.mem_cons_of_mem c hd)]
    rfl

theorem digitsValue_toDecimal (hn : 0 ≤ n) : (digitsValue (toDecimal n) : ℤ) = n := by
  have hdigits : ∀ c ∈ Nat.toDigits 10 n.natAbs, c.isDigit := fun c hc =>
    Nat.isDigit_of_mem_toDigits (by omega) le_rfl hc
  rw [toDecimal_of_nonneg hn, digitsValue, digitsValue_map_toUInt8 hdigits,
    Nat.ofDigitChars_ten_toDigits]
  omega

/-- Reading back what `std::to_string` wrote. -/
theorem stoi_toDecimal (hn : 0 ≤ n) (hmax : n ≤ intMax) : stoi (toDecimal n) = some n := by
  have hvalue := digitsValue_toDecimal hn
  exact stoi_eq_some_iff.mpr ⟨toDecimal_ne_nil hn, by omega, hvalue.symm⟩

end Decimal

end BeamMP
