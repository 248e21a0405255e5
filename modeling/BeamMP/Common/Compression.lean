import BeamMP.Common.Bytes

/-!
# Compression

`Comp` and `DeComp` call zlib, which is a parameter here: both calls get the size
of the output buffer. `DeComp` starts with a small buffer and tries again with a
larger one as long as zlib reports that the buffer is full.
-/
namespace BeamMP

/-- The return codes of zlib's `compress` and `uncompress`, with the output of `Z_OK`. -/
inductive ZResult
  | ok (output : Bytes)
  | bufError
  | dataError
  | memError

/-- The zlib functions in use: a buffer size and an input give a result. -/
structure Zlib where
  compressBound : ℕ → ℕ
  compress : ℕ → Bytes → ZResult
  uncompress : ℕ → Bytes → ZResult

/-- What zlib documents: `compressBound` bytes suffice for `compress`, which expands its
input only slightly, and `uncompress` inverts it in every buffer that is large enough. -/
structure Zlib.Lawful (z : Zlib) : Prop where
  compress_ok : ∀ x, ∃ y, z.compress (z.compressBound x.length) x = .ok y ∧
    y.length ≤ z.compressBound x.length
  compressBound_le : ∀ n, z.compressBound n ≤ 2 * n + 64
  uncompress_ok : ∀ n x y m, z.compress n x = .ok y → x.length ≤ m → z.uncompress m y = .ok x
  uncompress_bufError : ∀ n x y m, z.compress n x = .ok y → m < x.length →
    z.uncompress m y = .bufError

/-- The exceptions of `DeComp`. -/
inductive DeCompError
  | invalidData
  | sizeExceeded
  | uncompressFailed
deriving DecidableEq

def startingMaxDecompressionBufferSize : ℕ := 15 * 1024 * 1024

def maxDecompressionBufferSize : ℕ := 30 * 1024 * 1024

variable (z : Zlib)

/-- The loop of `DeComp`, which gives up after a number of calls of `uncompress`. -/
def deCompLoop (input : Bytes) : ℕ → ℕ → Option (Except DeCompError Bytes)
  | 0, _ => none
  | calls + 1, size =>
    match z.uncompress size input with
    | .ok output => some (.ok output)
    | .bufError =>
      if maxDecompressionBufferSize ≤ size then some (.error .sizeExceeded)
      else deCompLoop input calls (max (size * 2) maxDecompressionBufferSize)
    | .dataError => some (.error .invalidData)
    | .memError => some (.error .uncompressFailed)

theorem deCompLoop_isSome_of_le (input : Bytes) (calls : ℕ) {size : ℕ}
    (h : maxDecompressionBufferSize ≤ size) : (deCompLoop z input (calls + 1) size).isSome := by
  unfold deCompLoop
  cases z.uncompress size input <;> simp [h]

/-- The buffer has the full size in the second call at the latest. -/
theorem deCompLoop_isSome (input : Bytes) (size : ℕ) : (deCompLoop z input 2 size).isSome := by
  unfold deCompLoop
  cases z.uncompress size input with
  | bufError =>
    by_cases h : maxDecompressionBufferSize ≤ size
    · simp [h]
    · have hgrown := deCompLoop_isSome_of_le z input 0
        (le_max_right (size * 2) maxDecompressionBufferSize)
      simpa [h] using hgrown
  | _ => simp

/-- The size of the first output buffer of `DeComp`. -/
def startingBufferSize (input : Bytes) : ℕ :=
  min (input.length * 5) startingMaxDecompressionBufferSize

def deComp (input : Bytes) : Except DeCompError Bytes :=
  (deCompLoop z input 2 (startingBufferSize input)).get (deCompLoop_isSome z input _)

/-- `Comp`, where `none` is its exception. -/
def comp (input : Bytes) : Option Bytes :=
  match z.compress (z.compressBound input.length) input with
  | .ok output => some output
  | _ => none

def compressProperly (Data : Bytes) : Option Bytes := (comp z Data).map (ascii "ABG:" ++ ·)

variable {z}

/-- A stream that decodes to a packet within the limit decodes to it in `DeComp`, with
or without a second attempt. -/
theorem deComp_eq_ok {input x : Bytes}
    (hok : ∀ m, x.length ≤ m → z.uncompress m input = .ok x)
    (hbuf : ∀ m, m < x.length → z.uncompress m input = .bufError)
    (hx : x.length ≤ maxDecompressionBufferSize) : deComp z input = .ok x := by
  have hloop : deCompLoop z input 2 (startingBufferSize input) = some (.ok x) := by
    rcases Nat.lt_or_ge (startingBufferSize input) x.length with hlt | hge
    · have hsmall : ¬ maxDecompressionBufferSize ≤ startingBufferSize input := by omega
      have hgrown := hok _ (hx.trans
        (le_max_right (startingBufferSize input * 2) maxDecompressionBufferSize))
      simp [deCompLoop, hbuf _ hlt, hsmall, hgrown]
    · simp [deCompLoop, hok _ hge]
  simp [deComp, hloop]

variable (hz : z.Lawful)
include hz

theorem Zlib.Lawful.exists_comp (x : Bytes) :
    ∃ y, comp z x = some y ∧ z.compress (z.compressBound x.length) x = .ok y ∧
      y.length ≤ 2 * x.length + 64 := by
  obtain ⟨y, hy, hlen⟩ := hz.compress_ok x
  exact ⟨y, by simp [comp, hy], hy, hlen.trans (hz.compressBound_le _)⟩

theorem Zlib.Lawful.deComp_comp {x y : Bytes} (hy : comp z x = some y)
    (hx : x.length ≤ maxDecompressionBufferSize) : deComp z y = .ok x := by
  obtain ⟨y', hcomp, hcompress, -⟩ := hz.exists_comp x
  obtain rfl : y = y' := Option.some.inj (hy.symm.trans hcomp)
  apply deComp_eq_ok
  · exact fun m hm => hz.uncompress_ok _ _ _ _ hcompress hm
  · exact fun m hm => hz.uncompress_bufError _ _ _ _ hcompress hm
  · exact hx

omit hz

/-- A codec that marks its output and otherwise stores the input. -/
def storingZlib : Zlib where
  compressBound n := n + 1
  compress size x := if x.length + 1 ≤ size then .ok (120 :: x) else .bufError
  uncompress size y :=
    match y with
    | 120 :: x => if x.length ≤ size then .ok x else .bufError
    | _ => .dataError

theorem storingZlib_lawful : storingZlib.Lawful where
  compress_ok x := ⟨120 :: x, by simp [storingZlib], by simp [storingZlib]⟩
  compressBound_le n := by simp only [storingZlib]; omega
  uncompress_ok n x y m hy hm := by
    simp only [storingZlib] at hy
    split_ifs at hy
    cases hy
    simp [storingZlib, hm]
  uncompress_bufError n x y m hy hm := by
    simp only [storingZlib] at hy
    split_ifs at hy
    cases hy
    simp [storingZlib, hm]

end BeamMP
