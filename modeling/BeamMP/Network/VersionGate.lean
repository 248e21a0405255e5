import BeamMP.Network.FrameLimit

/-!
# The version of a launcher

The first packet of a connection carries the version of the launcher.
`VersionStrToInts` reads three parts of it into an array that it does not
initialize: `from_chars` stores nothing for a part that does not start with a
digit or denotes more than 255, and the component is then whatever was in memory.
-/
namespace BeamMP

open Bytes

structure Version where
  major : UInt8
  minor : UInt8
  patch : UInt8
deriving DecidableEq

namespace Version

/-- The component at an index of the array. -/
def get (v : Version) : ℕ → UInt8
  | 0 => v.major
  | 1 => v.minor
  | _ => v.patch

/-- The components in the order of their weight. -/
def lexicographic (v : Version) : ℕ ×ₗ ℕ ×ₗ ℕ :=
  toLex (v.major.toNat, toLex (v.minor.toNat, v.patch.toNat))

def asString (v : Version) : Bytes :=
  toDecimal v.major.toNat ++ '.'.toUInt8 ::
    (toDecimal v.minor.toNat ++ '.'.toUInt8 :: toDecimal v.patch.toNat)

end Version

def clientMinimumVersion : Version := ⟨2, 7, 0⟩

/-- `std::getline` up to a dot, with what is left of the stream. -/
def getlineDot (ss : Bytes) : Bytes × Bytes :=
  (ss.takeWhile (· != '.'.toUInt8), (ss.dropWhile (· != '.'.toUInt8)).drop 1)

/-- The digits `std::from_chars` reads. -/
def leadingDigits (Part : Bytes) : Bytes := Part.takeWhile isDigit

/-- `std::from_chars` for a `uint8_t`, where `none` leaves the variable alone. -/
def fromChars (Part : Bytes) : Option UInt8 :=
  if leadingDigits Part = [] then none
  else if digitsValue (leadingDigits Part) ≤ 255 then
    some (UInt8.ofNat (digitsValue (leadingDigits Part)))
  else none

/-- `memory` is what the array holds before anything is stored in it. -/
def versionStrToInts (memory : Version) (str : Bytes) : Version :=
  let (major, ss) := getlineDot str
  let (minor, ss) := getlineDot ss
  let (patch, _) := getlineDot ss
  ⟨(fromChars major).getD memory.major, (fromChars minor).getD memory.minor,
    (fromChars patch).getD memory.patch⟩

def isOutdated (Current Newest : Version) : Bool :=
  if Newest.major > Current.major then true
  else if Newest.major = Current.major ∧ Newest.minor > Current.minor then true
  else if Newest.major = Current.major ∧ Newest.minor = Current.minor ∧
    Newest.patch > Current.patch then true
  else false

/-- The test of the version packet in `Authentication`. -/
def passesVersion (memory : Version) (Data : Bytes) : Bool :=
  Connection.versionAccepted
    (fun str => isOutdated (versionStrToInts memory str) clientMinimumVersion) Data

/-- The part at an index between dots, which is empty behind the last one. -/
def dotPart (str : Bytes) (i : ℕ) : Bytes := (str.splitOn '.'.toUInt8).getD i []

theorem isOutdated_iff (Current Newest : Version) :
    isOutdated Current Newest = true ↔ Current.lexicographic < Newest.lexicographic := by
  simp only [isOutdated, Version.lexicographic, Prod.Lex.toLex_lt_toLex, gt_iff_lt,
    UInt8.lt_iff_toNat_lt, ← UInt8.toNat_inj]
  split_ifs <;> simp <;> omega

section Parts

variable {t u : Bytes} (i : ℕ)

theorem getlineDot_of_not_mem (ht : '.'.toUInt8 ∉ t) : getlineDot t = (t, []) := by
  have hkeep : ∀ b ∈ t, (b != '.'.toUInt8) = true := by
    intro b hb
    exact bne_iff_ne.mpr fun hdot => ht (hdot ▸ hb)
  rw [getlineDot, List.takeWhile_eq_self_iff.mpr hkeep, List.dropWhile_eq_nil_iff.mpr hkeep]
  rfl

theorem getlineDot_append (ht : '.'.toUInt8 ∉ t) :
    getlineDot (t ++ '.'.toUInt8 :: u) = (t, u) := by
  have hkeep : ∀ b ∈ t, (b != '.'.toUInt8) = true := by
    intro b hb
    exact bne_iff_ne.mpr fun hdot => ht (hdot ▸ hb)
  rw [getlineDot, List.takeWhile_append_of_pos hkeep, List.dropWhile_append_of_pos hkeep]
  simp

theorem splitOn_of_not_mem (ht : '.'.toUInt8 ∉ t) : t.splitOn '.'.toUInt8 = [t] := by
  refine List.splitOnP_eq_singleton fun b hb => ?_
  exact beq_eq_false_iff_ne.mpr fun hdot => ht (hdot ▸ hb)

theorem splitOn_append (ht : '.'.toUInt8 ∉ t) :
    (t ++ '.'.toUInt8 :: u).splitOn '.'.toUInt8 = t :: u.splitOn '.'.toUInt8 := by
  have hkeep : ∀ b ∈ t, (b == '.'.toUInt8) = false := by
    intro b hb
    exact beq_eq_false_iff_ne.mpr fun hdot => ht (hdot ▸ hb)
  exact List.splitOnP_append_cons_of_forall_mem hkeep '.'.toUInt8 (beq_self_eq_true _) u

theorem dotPart_getlineDot (ss : Bytes) :
    dotPart ss 0 = (getlineDot ss).1 ∧ dotPart ss (i + 1) = dotPart (getlineDot ss).2 i := by
  by_cases hdot : '.'.toUInt8 ∈ ss
  · obtain ⟨t, u, rfl, ht⟩ := List.eq_append_cons_of_mem hdot
    rw [getlineDot_append ht]
    unfold dotPart
    rw [splitOn_append ht]
    exact ⟨rfl, rfl⟩
  · rw [getlineDot_of_not_mem hdot]
    unfold dotPart
    rw [splitOn_of_not_mem hdot]
    refine ⟨rfl, ?_⟩
    cases i with
    | zero => rfl
    | succ i => rfl

end Parts

/-- Each component has its part of the text, or keeps what was in memory. -/
theorem versionStrToInts_get (memory : Version) (str : Bytes) {i : ℕ} (hi : i < 3) :
    (versionStrToInts memory str).get i = (fromChars (dotPart str i)).getD (memory.get i) := by
  have hmajor := (dotPart_getlineDot 0 str).1
  have hminor := (dotPart_getlineDot 0 str).2.trans (dotPart_getlineDot 0 (getlineDot str).2).1
  have hpatch := (dotPart_getlineDot 1 str).2.trans
    ((dotPart_getlineDot 0 (getlineDot str).2).2.trans
      (dotPart_getlineDot 0 (getlineDot (getlineDot str).2).2).1)
  match i, hi with
  | 0, _ => rw [hmajor]; rfl
  | 1, _ => rw [hminor]; rfl
  | 2, _ => rw [hpatch]; rfl

theorem fromChars_of_le {Part : Bytes} (hdigits : leadingDigits Part ≠ [])
    (hrange : digitsValue (leadingDigits Part) ≤ 255) :
    fromChars Part = some (UInt8.ofNat (digitsValue (leadingDigits Part))) := by
  rw [fromChars, if_neg hdigits, if_pos hrange]

theorem fromChars_eq_none_iff {Part : Bytes} :
    fromChars Part = none ↔
      ¬(leadingDigits Part ≠ [] ∧ digitsValue (leadingDigits Part) ≤ 255) := by
  unfold fromChars
  split_ifs with hdigits hrange
  · simp [hdigits]
  · simp [hdigits, hrange]
  · simp [hrange]

/-- The version is read from the text alone, and decides on the version packet: no component
depends on what was in memory, and a part that denotes a number of at most 255 is that
component. -/
def GatesByText (Data : Bytes) : Prop :=
  (∃ v : Version, ∀ memory, versionStrToInts memory (Data.drop 2 ++ ascii ".0") = v ∧
    ∀ i < 3, leadingDigits (dotPart (Data.drop 2 ++ ascii ".0") i) ≠ [] →
      digitsValue (leadingDigits (dotPart (Data.drop 2 ++ ascii ".0") i)) ≤ 255 →
      (v.get i).toNat = digitsValue (leadingDigits (dotPart (Data.drop 2 ++ ascii ".0") i))) ∧
  ∀ memory, passesVersion memory Data = true ↔
    ¬(versionStrToInts memory (Data.drop 2 ++ ascii ".0")).lexicographic <
      clientMinimumVersion.lexicographic

theorem passesVersion_iff {Data : Bytes} (hsize : 3 < Data.length) (hheader : ascii "VC" <+: Data)
    (memory : Version) :
    passesVersion memory Data = true ↔
      ¬(versionStrToInts memory (Data.drop 2 ++ ascii ".0")).lexicographic <
        clientMinimumVersion.lexicographic := by
  rw [← isOutdated_iff]
  simp [passesVersion, Connection.versionAccepted, hsize, hheader]

theorem Version.ext_get {v w : Version} (h : ∀ i < 3, v.get i = w.get i) : v = w := by
  obtain ⟨major, minor, patch⟩ := v
  have hmajor := h 0 (by decide)
  have hminor := h 1 (by decide)
  have hpatch := h 2 (by decide)
  subst hmajor hminor hpatch
  rfl

theorem versionStrToInts_asString (memory v : Version) :
    versionStrToInts memory v.asString = v := by
  have hnonneg : ∀ n : UInt8, (0 : ℤ) ≤ n.toNat := fun n => Int.natCast_nonneg n.toNat
  have hall : ∀ n : UInt8, (toDecimal n.toNat).all isDigit = true := fun n =>
    all_isDigit_toDecimal (hnonneg n)
  have hdot : ∀ n : UInt8, '.'.toUInt8 ∉ toDecimal n.toNat := by
    intro n hmem
    have hdigit := List.all_eq_true.mp (hall n) _ hmem
    exact absurd hdigit (by decide)
  have hread : ∀ (n i : UInt8), (fromChars (toDecimal n.toNat)).getD i = n := by
    intro n i
    have hdigits : leadingDigits (toDecimal n.toNat) = toDecimal n.toNat := by
      refine List.takeWhile_eq_self_iff.mpr fun d hd => ?_
      exact List.all_eq_true.mp (hall n) d hd
    have hvalue : digitsValue (toDecimal n.toNat) = n.toNat :=
      Int.ofNat_inj.mp (digitsValue_toDecimal (hnonneg n))
    have hlt := n.toNat_lt
    rw [fromChars_of_le, hdigits, hvalue]
    · simp
    · rw [hdigits]
      exact toDecimal_ne_nil (hnonneg n)
    · rw [hdigits, hvalue]
      omega
  unfold versionStrToInts Version.asString
  simp only [getlineDot_append (hdot _), getlineDot_of_not_mem (hdot _), hread]

/-- A version packet is decided by its text exactly when each of the three parts of the text
starts with the digits of a number of at most 255; and every version that the server writes is
read back. -/
theorem versionGate_iff (Data : Bytes) (hsize : 3 < Data.length)
    (hheader : ascii "VC" <+: Data) :
    (GatesByText Data ↔ ∀ i < 3,
      leadingDigits (dotPart (Data.drop 2 ++ ascii ".0") i) ≠ [] ∧
        digitsValue (leadingDigits (dotPart (Data.drop 2 ++ ascii ".0") i)) ≤ 255) ∧
    ∀ memory v : Version, versionStrToInts memory v.asString = v := by
  refine ⟨⟨?_, ?_⟩, versionStrToInts_asString⟩
  · rintro ⟨⟨v, hv⟩, -⟩ i hi
    by_contra hpart
    have hnone := fromChars_eq_none_iff.mpr hpart
    have hzero := versionStrToInts_get ⟨0, 0, 0⟩ (Data.drop 2 ++ ascii ".0") hi
    have hone := versionStrToInts_get ⟨1, 1, 1⟩ (Data.drop 2 ++ ascii ".0") hi
    rw [(hv ⟨0, 0, 0⟩).1, hnone] at hzero
    rw [(hv ⟨1, 1, 1⟩).1, hnone] at hone
    have hsame : (Version.get ⟨0, 0, 0⟩ i) = Version.get ⟨1, 1, 1⟩ i := hzero.symm.trans hone
    match i, hi with
    | 0, _ | 1, _ | 2, _ => exact absurd hsame (by decide)
  · intro hparts
    have hget : ∀ memory, ∀ i < 3,
        (versionStrToInts memory (Data.drop 2 ++ ascii ".0")).get i =
          UInt8.ofNat (digitsValue (leadingDigits (dotPart (Data.drop 2 ++ ascii ".0") i))) := by
      intro memory i hi
      rw [versionStrToInts_get memory _ hi, fromChars_of_le (hparts i hi).1 (hparts i hi).2]
      rfl
    refine ⟨⟨versionStrToInts ⟨0, 0, 0⟩ (Data.drop 2 ++ ascii ".0"), fun memory => ⟨?_, ?_⟩⟩,
      passesVersion_iff hsize hheader⟩
    · exact Version.ext_get fun i hi => (hget memory i hi).trans (hget ⟨0, 0, 0⟩ i hi).symm
    · intro i hi _ hrange
      rw [hget ⟨0, 0, 0⟩ i hi, UInt8.toNat_ofNat']
      exact Nat.mod_eq_of_lt (by omega)

theorem versionGate_current : GatesByText (ascii "VC2.7") := by
  refine (versionGate_iff (ascii "VC2.7") (by decide) (by decide)).1.mpr fun i hi => ?_
  match i, hi with
  | 0, _ | 1, _ | 2, _ => decide

/-- A version without digits passes or not by what happens to be in memory. -/
theorem not_gatesByText_without_digits :
    passesVersion ⟨0, 0, 0⟩ (ascii "VCab") = false ∧
      passesVersion ⟨3, 0, 0⟩ (ascii "VCab") = true ∧ ¬GatesByText (ascii "VCab") := by
  refine ⟨by decide, by decide, ?_⟩
  rintro ⟨⟨v, hv⟩, -⟩
  have hzero := (hv ⟨0, 0, 0⟩).1
  have hthree := (hv ⟨3, 0, 0⟩).1
  exact absurd (hzero.trans hthree.symm) (by decide)

end BeamMP
