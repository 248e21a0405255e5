import BeamMP.Common.Bytes
import BeamMP.Foundation.Moments

/-!
# Execution time profiles

`UnitExecutionTime` keeps a count, two sums and two extrema, from which `stats`
computes its figures. A duration is an exact rational here; the extrema start at
the largest and at the smallest positive normal `double`.
-/
namespace BeamMP

/-- `std::numeric_limits<double>::max()`. -/
def doubleMax : ℚ := (2 ^ 53 - 1) * 2 ^ 971

/-- `std::numeric_limits<double>::min()`, the smallest positive normal number. -/
def doubleMin : ℚ := 1 / 2 ^ 1022

/-- `prof::Stats`, with the number that `stdev` is the square root of. -/
structure Stats where
  mean : ℚ
  stdevRadicand : ℚ
  min : ℚ
  max : ℚ
  n : ℕ
deriving DecidableEq

structure UnitExecutionTime where
  totalCalls : ℕ := 0
  sum : ℚ := 0
  measurementSqrSum : ℚ := 0
  min : ℚ := doubleMax
  max : ℚ := doubleMin

namespace UnitExecutionTime

variable (u : UnitExecutionTime)

/-- `stats`; its two extrema come out of each other's field. -/
def stats : Stats :=
  let mean := u.sum / u.totalCalls
  { n := u.totalCalls
    max := u.min
    min := u.max
    mean := mean
    stdevRadicand := u.measurementSqrSum / u.totalCalls - mean * mean }

def addSample (dur : ℚ) : UnitExecutionTime where
  sum := u.sum + dur
  measurementSqrSum := u.measurementSqrSum + dur * dur
  min := Min.min dur u.min
  max := Max.max dur u.max
  totalCalls := u.totalCalls + 1

def measurementCount : ℕ := u.totalCalls

/-- The unit after a sequence of samples. -/
def addSamples (samples : List ℚ) : UnitExecutionTime := samples.foldl addSample u

/-- What the fields are after these samples; the extrema count their start values in. -/
structure Records (samples : List ℚ) : Prop where
  totalCalls_eq : u.totalCalls = samples.length
  sum_eq : u.sum = samples.sum
  measurementSqrSum_eq : u.measurementSqrSum = (samples.map (· ^ 2)).sum
  isLeast_min : IsLeast (insert doubleMax { d | d ∈ samples }) u.min
  isGreatest_max : IsGreatest (insert doubleMin { d | d ∈ samples }) u.max

variable {u} {samples : List ℚ}

theorem records_nil : Records {} [] := by
  constructor <;> simp

theorem Records.addSample (h : u.Records samples) (dur : ℚ) :
    (u.addSample dur).Records (samples ++ [dur]) := by
  have hset : { d | d ∈ samples ++ [dur] } = insert dur { d | d ∈ samples } := by
    ext d
    simp [or_comm]
  constructor
  · simp [UnitExecutionTime.addSample, h.totalCalls_eq]
  · simp [UnitExecutionTime.addSample, h.sum_eq]
  · simp [UnitExecutionTime.addSample, h.measurementSqrSum_eq, sq]
  · rw [hset, Set.insert_comm]
    exact h.isLeast_min.insert dur
  · rw [hset, Set.insert_comm]
    exact h.isGreatest_max.insert dur

theorem Records.addSamples (h : u.Records samples) (more : List ℚ) :
    (u.addSamples more).Records (samples ++ more) := by
  induction more generalizing u samples with
  | nil => simpa [UnitExecutionTime.addSamples] using h
  | cons dur more ih => simpa [UnitExecutionTime.addSamples] using ih (h.addSample dur)

theorem records_addSamples (samples : List ℚ) :
    (UnitExecutionTime.addSamples {} samples).Records samples :=
  records_nil.addSamples samples

theorem Records.stats_n (h : u.Records samples) : u.stats.n = samples.length := h.totalCalls_eq

theorem Records.stats_mean (h : u.Records samples) : u.stats.mean = Moments.mean samples := by
  simp [stats, Moments.mean, h.sum_eq, h.totalCalls_eq]

theorem Records.stats_stdevRadicand (h : u.Records samples) (hne : samples ≠ []) :
    u.stats.stdevRadicand = Moments.variance samples := by
  have hn : (samples.length : ℚ) ≠ 0 :=
    Nat.cast_ne_zero.mpr (List.length_pos_iff.mpr hne).ne'
  rw [Moments.variance_eq hn, ← h.stats_mean]
  simp [stats, h.measurementSqrSum_eq, h.totalCalls_eq]

/-- The exchanged extrema are right only if there is one value to report. -/
theorem Records.extrema_iff (h : u.Records samples) (hne : samples ≠ []) :
    IsLeast { d | d ∈ samples } u.stats.min ∧ IsGreatest { d | d ∈ samples } u.stats.max ↔
      ∃ d, doubleMin ≤ d ∧ d ≤ doubleMax ∧ ∀ x ∈ samples, x = d := by
  have hmax : ∀ x ∈ samples, x ≤ u.max := fun x hx => h.isGreatest_max.2 (Or.inr hx)
  have hmin : ∀ x ∈ samples, u.min ≤ x := fun x hx => h.isLeast_min.2 (Or.inr hx)
  have hmaxStart : doubleMin ≤ u.max := h.isGreatest_max.2 (Or.inl rfl)
  have hminStart : u.min ≤ doubleMax := h.isLeast_min.2 (Or.inl rfl)
  constructor
  · rintro ⟨⟨hmem, hlower⟩, hmem', -⟩
    have hsame : ∀ x ∈ samples, x = u.max := fun x hx => le_antisymm (hmax x hx) (hlower hx)
    refine ⟨u.max, hmaxStart, ?_, hsame⟩
    rw [← hsame u.min hmem']
    exact hminStart
  · rintro ⟨d, hd, hd', hsame⟩
    obtain ⟨x, hx⟩ := List.exists_mem_of_ne_nil samples hne
    obtain rfl := hsame x hx
    have hmaxEq : u.max = x := by
      rcases h.isGreatest_max.1 with heq | hmem
      · exact le_antisymm (heq ▸ hd) (hmax x hx)
      · exact hsame _ hmem
    have hminEq : u.min = x := by
      rcases h.isLeast_min.1 with heq | hmem
      · exact le_antisymm (hmin x hx) (heq ▸ hd')
      · exact hsame _ hmem
    refine ⟨⟨?_, fun y hy => ?_⟩, ?_, fun y hy => ?_⟩
    · rwa [show u.stats.min = x from hmaxEq]
    · exact (hmaxEq.trans (hsame y hy).symm).le
    · rwa [show u.stats.max = x from hminEq]
    · exact ((hsame y hy).trans hminEq.symm).le

end UnitExecutionTime

/-- The figures describe these samples. -/
structure Stats.Describes (r : Stats) (samples : List ℚ) : Prop where
  n_eq : r.n = samples.length
  mean_eq : r.mean = Moments.mean samples
  isLeast_min : IsLeast { d | d ∈ samples } r.min
  isGreatest_max : IsGreatest { d | d ∈ samples } r.max
  variance_eq : r.stdevRadicand = Moments.variance samples
  nonneg : 0 ≤ r.stdevRadicand
  min_le_mean : r.min ≤ r.mean
  mean_le_max : r.mean ≤ r.max

/-- After any samples the figures are right if and only if all samples are one and the same
normal number; the count, the mean and the variance always are. -/
theorem stats_describes_iff (first : ℚ) (rest : List ℚ) :
    ((UnitExecutionTime.addSamples {} (first :: rest)).stats.n = (first :: rest).length ∧
      (UnitExecutionTime.addSamples {} (first :: rest)).stats.mean =
        Moments.mean (first :: rest) ∧
      (UnitExecutionTime.addSamples {} (first :: rest)).stats.stdevRadicand =
        Moments.variance (first :: rest)) ∧
    ((UnitExecutionTime.addSamples {} (first :: rest)).stats.Describes (first :: rest) ↔
      ∃ d, doubleMin ≤ d ∧ d ≤ doubleMax ∧ ∀ x ∈ first :: rest, x = d) := by
  have hne : first :: rest ≠ [] := List.cons_ne_nil first rest
  have hrec := UnitExecutionTime.records_addSamples (first :: rest)
  refine ⟨⟨hrec.stats_n, hrec.stats_mean, hrec.stats_stdevRadicand hne⟩, ?_⟩
  rw [← hrec.extrema_iff hne]
  refine ⟨fun h => ⟨h.isLeast_min, h.isGreatest_max⟩, ?_⟩
  rintro ⟨hmin, hmax⟩
  exact {
    n_eq := hrec.stats_n
    mean_eq := hrec.stats_mean
    isLeast_min := hmin
    isGreatest_max := hmax
    variance_eq := hrec.stats_stdevRadicand hne
    nonneg := (hrec.stats_stdevRadicand hne).symm ▸ Moments.variance_nonneg _
    min_le_mean := hrec.stats_mean.symm ▸ Moments.le_mean hne fun x hx => hmin.2 hx
    mean_le_max := hrec.stats_mean.symm ▸ Moments.mean_le hne fun x hx => hmax.2 hx }

/-- Two samples of one and of two milliseconds: two is reported as the least. -/
theorem two_samples_exchanged :
    ¬ (UnitExecutionTime.addSamples {} [1, 2]).stats.Describes [1, 2] := by
  intro h
  have hle : (UnitExecutionTime.addSamples {} [1, 2]).stats.min ≤ 1 := h.isLeast_min.2 (by simp)
  have hmax : (2 : ℚ) ≤ (UnitExecutionTime.addSamples {} [1, 2]).stats.min :=
    (UnitExecutionTime.records_addSamples [1, 2]).isGreatest_max.2 (by simp)
  linarith

/-- `prof::UnitProfileCollection`; `operator[]` makes the unit that is asked for. -/
abbrev UnitProfileCollection := Bytes → UnitExecutionTime

namespace UnitProfileCollection

variable (c : UnitProfileCollection)

def addSample (unit : Bytes) (duration : ℚ) : UnitProfileCollection :=
  Function.update c unit ((c unit).addSample duration)

def stats (unit : Bytes) : Stats := (c unit).stats

def measurementCount (unit : Bytes) : ℕ := (c unit).measurementCount

/-- The samples of one unit among those of all. -/
def samplesOf (unit : Bytes) (samples : List (Bytes × ℚ)) : List ℚ :=
  (samples.filter (·.1 = unit)).map Prod.snd

theorem addSamples_apply (samples : List (Bytes × ℚ)) (unit : Bytes) :
    samples.foldl (fun c s => addSample c s.1 s.2) c unit =
      (c unit).addSamples (samplesOf unit samples) := by
  induction samples generalizing c with
  | nil => rfl
  | cons s samples ih =>
    rw [List.foldl_cons, ih]
    by_cases hs : s.1 = unit
    · simp [addSample, samplesOf, hs, UnitExecutionTime.addSamples]
    · simp [addSample, samplesOf, hs, Function.update_of_ne (Ne.symm hs)]

/-- What a new collection reports for a unit depends on the samples of this unit only. -/
theorem stats_addSamples (samples : List (Bytes × ℚ)) (unit : Bytes) :
    stats (samples.foldl (fun c s => addSample c s.1 s.2) fun _ => {}) unit =
        (UnitExecutionTime.addSamples {} (samplesOf unit samples)).stats ∧
      measurementCount (samples.foldl (fun c s => addSample c s.1 s.2) fun _ => {}) unit =
        (samplesOf unit samples).length := by
  rw [stats, measurementCount, addSamples_apply]
  exact ⟨rfl, (UnitExecutionTime.records_addSamples _).totalCalls_eq⟩

end UnitProfileCollection

end BeamMP
