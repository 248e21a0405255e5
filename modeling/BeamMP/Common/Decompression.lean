import BeamMP.Common.Compression

/-!
# What decompression costs

`DeComp` with the calls it makes and the sizes it gives its buffer. Over a codec
that refuses a buffer only because it is too small, the second attempt has the
full size, so that no input costs more than two calls and 30 MiB.
-/
namespace BeamMP

/-- A step of `DeComp`: a call of `uncompress` with a size of the output buffer, or the
buffer getting a size. -/
inductive DeCompStep
  | resize (size : ℕ)
  | uncompress (size : ℕ)
deriving DecidableEq

def DeCompStep.isCall : DeCompStep → Bool
  | .uncompress _ => true
  | .resize _ => false

/-- `uncompress` as far as `DeComp` depends on it, over the streams that are valid. -/
def uncompressOf (decode : Bytes → Option Bytes) (size : ℕ) (input : Bytes) : ZResult :=
  match decode input with
  | none => .dataError
  | some x => if x.length ≤ size then .ok x else .bufError

def Zlib.decoding (z : Zlib) (decode : Bytes → Option Bytes) : Zlib :=
  { z with uncompress := uncompressOf decode }

/-- The loop of `DeComp` together with its steps. -/
def deCompLoopCounted (z : Zlib) (input : Bytes) :
    ℕ → ℕ → List DeCompStep × Option (Except DeCompError Bytes)
  | 0, _ => ([], none)
  | calls + 1, size =>
    match z.uncompress size input with
    | .ok output => ([.uncompress size, .resize output.length], some (.ok output))
    | .bufError =>
      if maxDecompressionBufferSize ≤ size then
        ([.uncompress size], some (.error .sizeExceeded))
      else
        let grown := max (size * 2) maxDecompressionBufferSize
        let again := deCompLoopCounted z input calls grown
        (.uncompress size :: .resize grown :: again.1, again.2)
    | .dataError => ([.uncompress size], some (.error .invalidData))
    | .memError => ([.uncompress size], some (.error .uncompressFailed))

/-- `DeComp` with at most so many calls of `uncompress`. -/
def deCompCounted (z : Zlib) (input : Bytes) (calls : ℕ) :
    List DeCompStep × Option (Except DeCompError Bytes) :=
  let run := deCompLoopCounted z input calls (startingBufferSize input)
  (.resize (startingBufferSize input) :: run.1, run.2)

theorem deCompLoopCounted_value (z : Zlib) (input : Bytes) (calls size : ℕ) :
    (deCompLoopCounted z input calls size).2 = deCompLoop z input calls size := by
  induction calls generalizing size with
  | zero => rfl
  | succ calls ih =>
    unfold deCompLoopCounted deCompLoop
    cases z.uncompress size input with
    | bufError =>
      by_cases hfull : maxDecompressionBufferSize ≤ size
      · simp only [if_pos hfull]
      · simp only [if_neg hfull]
        exact ih _
    | _ => rfl

theorem deCompCounted_value (z : Zlib) (input : Bytes) :
    (deCompCounted z input 2).2 = some (deComp z input) := by
  simp [deCompCounted, deCompLoopCounted_value, deComp]

theorem startingBufferSize_le (input : Bytes) :
    startingBufferSize input ≤ startingMaxDecompressionBufferSize := min_le_right _ _

/-- A buffer that is too small gets the full size at once. -/
theorem grown_eq {size : ℕ} (h : size ≤ startingMaxDecompressionBufferSize) :
    max (size * 2) maxDecompressionBufferSize = maxDecompressionBufferSize := by
  unfold startingMaxDecompressionBufferSize at h
  apply max_eq_right
  unfold maxDecompressionBufferSize
  omega

section Decoding

variable (z : Zlib) {decode : Bytes → Option Bytes} {input : Bytes} (calls size : ℕ)

theorem deCompLoopCounted_invalid (h : decode input = none) :
    deCompLoopCounted (z.decoding decode) input (calls + 1) size =
      ([.uncompress size], some (.error .invalidData)) := by
  simp [deCompLoopCounted, Zlib.decoding, uncompressOf, h]

variable {x : Bytes} (h : decode input = some x) {size}
include h

theorem deCompLoopCounted_fits (hx : x.length ≤ size) :
    deCompLoopCounted (z.decoding decode) input (calls + 1) size =
      ([.uncompress size, .resize x.length], some (.ok x)) := by
  simp [deCompLoopCounted, Zlib.decoding, uncompressOf, h, hx]

theorem deCompLoopCounted_exceeds (hx : size < x.length)
    (hfull : maxDecompressionBufferSize ≤ size) :
    deCompLoopCounted (z.decoding decode) input (calls + 1) size =
      ([.uncompress size], some (.error .sizeExceeded)) := by
  simp [deCompLoopCounted, Zlib.decoding, uncompressOf, h, not_le.mpr hx, hfull]

theorem deCompLoopCounted_grows (hx : size < x.length)
    (hsize : size ≤ startingMaxDecompressionBufferSize) :
    deCompLoopCounted (z.decoding decode) input (calls + 1) size =
      let again := deCompLoopCounted (z.decoding decode) input calls maxDecompressionBufferSize
      (.uncompress size :: .resize maxDecompressionBufferSize :: again.1, again.2) := by
  have hsmall : ¬maxDecompressionBufferSize ≤ size := by
    unfold startingMaxDecompressionBufferSize at hsize
    unfold maxDecompressionBufferSize
    omega
  rw [deCompLoopCounted]
  simp [Zlib.decoding, uncompressOf, h, not_le.mpr hx, hsmall, grown_eq hsize]

end Decoding

/-- The steps of `DeComp` on a stream, valid or not. -/
def deCompSteps (decoded : Option Bytes) (size : ℕ) : List DeCompStep :=
  match decoded with
  | none => [.uncompress size]
  | some x =>
    if x.length ≤ size then [.uncompress size, .resize x.length]
    else if x.length ≤ maxDecompressionBufferSize then
      [.uncompress size, .resize maxDecompressionBufferSize,
        .uncompress maxDecompressionBufferSize, .resize x.length]
    else
      [.uncompress size, .resize maxDecompressionBufferSize,
        .uncompress maxDecompressionBufferSize]

/-- What a stream is worth to `DeComp`. -/
def deCompResult : Option Bytes → Except DeCompError Bytes
  | none => .error .invalidData
  | some x => if x.length ≤ maxDecompressionBufferSize then .ok x else .error .sizeExceeded

theorem deCompLoopCounted_eq (z : Zlib) (decode : Bytes → Option Bytes) (input : Bytes)
    (calls : ℕ) {size : ℕ} (hsize : size ≤ startingMaxDecompressionBufferSize) :
    deCompLoopCounted (z.decoding decode) input (calls + 2) size =
      (deCompSteps (decode input) size, some (deCompResult (decode input))) := by
  have hlimit : startingMaxDecompressionBufferSize ≤ maxDecompressionBufferSize := by decide
  cases h : decode input with
  | none => exact deCompLoopCounted_invalid z (calls + 1) size h
  | some x =>
    by_cases hfits : x.length ≤ size
    · rw [deCompLoopCounted_fits z (calls + 1) h hfits]
      simp [deCompSteps, deCompResult, hfits, hfits.trans (hsize.trans hlimit)]
    · rw [deCompLoopCounted_grows z (calls + 1) h (not_le.mp hfits) hsize]
      by_cases hmax : x.length ≤ maxDecompressionBufferSize
      · rw [deCompLoopCounted_fits z calls h hmax]
        simp [deCompSteps, deCompResult, hfits, hmax]
      · rw [deCompLoopCounted_exceeds z calls h (not_le.mp hmax) le_rfl]
        simp [deCompSteps, deCompResult, hfits, hmax]

theorem deCompSteps_calls (decoded : Option Bytes) (size : ℕ) :
    (deCompSteps decoded size).countP DeCompStep.isCall ≤ 2 := by
  unfold deCompSteps
  cases decoded with
  | none => simp [DeCompStep.isCall]
  | some x =>
    dsimp only
    split_ifs <;> simp [DeCompStep.isCall, List.countP_cons]

theorem deCompSteps_resize {decoded : Option Bytes} {size n : ℕ}
    (hsize : size ≤ maxDecompressionBufferSize)
    (h : DeCompStep.resize n ∈ deCompSteps decoded size) : n ≤ maxDecompressionBufferSize := by
  unfold deCompSteps at h
  cases decoded with
  | none => simp at h
  | some x =>
    dsimp only at h
    split_ifs at h with hfits hmax
    · obtain rfl : n = x.length := by simpa using h
      exact hfits.trans hsize
    · obtain rfl | rfl : n = maxDecompressionBufferSize ∨ n = x.length := by simpa using h
      · exact le_rfl
      · exact hmax
    · obtain rfl : n = maxDecompressionBufferSize := by simpa using h
      exact le_rfl

/-- Whatever `uncompress` makes of the input, `DeComp` ends after at most two calls of it with
no buffer above 30 MiB, and it returns exactly the decoded bytes, or tells an invalid stream
from one that is too long. More calls than two are never used. -/
theorem deComp_bounded_and_complete (z : Zlib) (decode : Bytes → Option Bytes) (input : Bytes) :
    let run := deCompCounted (z.decoding decode) input 2
    (∀ calls, deCompCounted (z.decoding decode) input (calls + 2) = run) ∧
    run.2 = some (deComp (z.decoding decode) input) ∧
    run.1.countP DeCompStep.isCall ≤ 2 ∧
    (∀ n, DeCompStep.resize n ∈ run.1 → n ≤ maxDecompressionBufferSize) ∧
    deComp (z.decoding decode) input =
      match decode input with
      | none => .error .invalidData
      | some x =>
        if x.length ≤ maxDecompressionBufferSize then .ok x else .error .sizeExceeded := by
  have hstart := startingBufferSize_le input
  have hlimit : startingMaxDecompressionBufferSize ≤ maxDecompressionBufferSize := by decide
  have hrun : ∀ calls, deCompCounted (z.decoding decode) input (calls + 2) =
      (.resize (startingBufferSize input) ::
        deCompSteps (decode input) (startingBufferSize input),
        some (deCompResult (decode input))) := by
    intro calls
    rw [deCompCounted, deCompLoopCounted_eq z decode input calls hstart]
  have hvalue := deCompCounted_value (z.decoding decode) input
  refine ⟨fun calls => (hrun calls).trans (hrun 0).symm, hvalue, ?_, ?_, ?_⟩
  · rw [hrun 0, List.countP_cons_of_neg (by simp [DeCompStep.isCall])]
    exact deCompSteps_calls _ _
  · intro n hn
    rw [hrun 0] at hn
    rcases List.mem_cons.mp hn with hfirst | hlater
    · obtain rfl : n = startingBufferSize input := by simpa using hfirst
      exact hstart.trans hlimit
    · exact deCompSteps_resize (hstart.trans hlimit) hlater
  · rw [hrun 0] at hvalue
    rw [← Option.some.inj hvalue]
    rfl

end BeamMP
