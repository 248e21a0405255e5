import Mathlib.Data.List.Basic
import Mathlib.Tactic.Common

/-!
# Length-prefixed frames

A frame is a header of fixed width, which encodes the length of the payload,
followed by the payload. A stream of frames can be read back in one way only;
what remains after the last complete frame is the part of a frame that has not
arrived.
-/
namespace Framing

variable {β : Type*}

/-- Take a number of elements off a stream, or nothing when there are fewer. -/
def takeExactly (n : ℕ) (s : List β) : Option (List β × List β) :=
  if n ≤ s.length then some (s.take n, s.drop n) else none

@[simp] theorem takeExactly_append (xs ys : List β) :
    takeExactly xs.length (xs ++ ys) = some (xs, ys) := by
  simp [takeExactly]

theorem takeExactly_of_length {n : ℕ} {xs : List β} (ys : List β) (h : xs.length = n) :
    takeExactly n (xs ++ ys) = some (xs, ys) := by
  rw [← h, takeExactly_append]

theorem takeExactly_eq_some {n : ℕ} {s xs ys : List β} (h : takeExactly n s = some (xs, ys)) :
    xs.length = n ∧ s = xs ++ ys := by
  unfold takeExactly at h
  split_ifs at h with hn
  simp only [Option.some.injEq, Prod.mk.injEq] at h
  obtain ⟨rfl, rfl⟩ := h
  exact ⟨List.length_take_of_le hn, by simp⟩

/-- A length header. It carries the lengths below `limit`. -/
structure Header (β : Type*) where
  width : ℕ
  limit : ℕ
  encode : ℕ → List β
  decode : List β → Option ℕ
  width_pos : 0 < width
  length_encode : ∀ n, (encode n).length = width
  decode_encode : ∀ n < limit, decode (encode n) = some n
  encode_of_decode : ∀ h n, h.length = width → decode h = some n → n < limit ∧ encode n = h

namespace Header

variable (H : Header β)

def frame (p : List β) : List β := H.encode p.length ++ p

def frames (ps : List (List β)) : List β := ps.flatMap H.frame

/-- Read one frame off a stream, or nothing when it is not complete. -/
def readFrame (s : List β) : Option (List β × List β) :=
  (takeExactly H.width s).bind fun (h, rest) => (H.decode h).bind fun n => takeExactly n rest

/-- Read at most a number of frames: the payloads, and what is left of the stream. -/
def readFrames : ℕ → List β → List (List β) × List β
  | 0, s => ([], s)
  | n + 1, s =>
    match H.readFrame s with
    | none => ([], s)
    | some (p, rest) => (p :: (readFrames n rest).1, (readFrames n rest).2)

/-- The stream is a concatenation of complete frames. -/
def Framed (s : List β) : Prop := ∃ ps, (∀ p ∈ ps, p.length < H.limit) ∧ s = H.frames ps

variable {H}

@[simp] theorem frames_nil : H.frames [] = [] := rfl

@[simp] theorem frames_cons (p : List β) (ps : List (List β)) :
    H.frames (p :: ps) = H.frame p ++ H.frames ps := rfl

theorem frames_append (ps qs : List (List β)) : H.frames (ps ++ qs) = H.frames ps ++ H.frames qs :=
  List.flatMap_append

theorem length_frame (p : List β) : (H.frame p).length = H.width + p.length := by
  simp [frame, H.length_encode]

theorem frame_ne_nil (p : List β) : H.frame p ≠ [] := by
  have hpos := H.width_pos
  have hlen := H.length_frame p
  intro h
  simp [h] at hlen
  omega

theorem readFrame_frame_append {p : List β} (hp : p.length < H.limit) (rest : List β) :
    H.readFrame (H.frame p ++ rest) = some (p, rest) := by
  have hheader : takeExactly H.width (H.frame p ++ rest) = some (H.encode p.length, p ++ rest) := by
    rw [frame, List.append_assoc]
    exact takeExactly_of_length _ (H.length_encode _)
  simp [readFrame, hheader, H.decode_encode _ hp]

theorem readFrame_eq_some {s p rest : List β} (h : H.readFrame s = some (p, rest)) :
    p.length < H.limit ∧ s = H.frame p ++ rest := by
  obtain ⟨⟨header, tail⟩, htake, h⟩ := Option.bind_eq_some_iff.mp h
  obtain ⟨n, hdecode, hpayload⟩ := Option.bind_eq_some_iff.mp h
  obtain ⟨hwidth, rfl⟩ := takeExactly_eq_some htake
  obtain ⟨rfl, rfl⟩ := takeExactly_eq_some hpayload
  obtain ⟨hlimit, henc⟩ := H.encode_of_decode header _ hwidth hdecode
  exact ⟨hlimit, by rw [frame, henc, List.append_assoc]⟩

/-- Reading a stream of frames gives the payloads back and nothing else. -/
theorem readFrames_frames {ps : List (List β)} (hps : ∀ p ∈ ps, p.length < H.limit) {n : ℕ}
    (hn : ps.length ≤ n) : H.readFrames n (H.frames ps) = (ps, []) := by
  induction ps generalizing n with
  | nil =>
    cases n with
    | zero => rfl
    | succ n =>
      have hwidth : takeExactly H.width ([] : List β) = none := by
        have hpos := H.width_pos
        simp [takeExactly]
        omega
      simp [readFrames, readFrame, hwidth]
  | cons p ps ih =>
    cases n with
    | zero => simp at hn
    | succ n =>
      have hread := readFrame_frame_append (hps p List.mem_cons_self) (H.frames ps)
      have hrest := ih (fun q hq => hps q (List.mem_cons_of_mem _ hq)) (Nat.le_of_succ_le_succ hn)
      simp [readFrames, hread, hrest]

theorem eq_frames_append_readFrames (n : ℕ) (s : List β) :
    (∀ p ∈ (H.readFrames n s).1, p.length < H.limit) ∧
      s = H.frames (H.readFrames n s).1 ++ (H.readFrames n s).2 := by
  induction n generalizing s with
  | zero => simp [readFrames]
  | succ n ih =>
    cases h : H.readFrame s with
    | none => simp [readFrames, h]
    | some r =>
      obtain ⟨hlimit, hs⟩ := readFrame_eq_some h
      obtain ⟨hfit, hrest⟩ := ih r.2
      have hread : H.readFrames (n + 1) s =
          (r.1 :: (H.readFrames n r.2).1, (H.readFrames n r.2).2) := by
        simp [readFrames, h]
      rw [hread]
      refine ⟨?_, ?_⟩
      · intro p hp
        rcases List.mem_cons.mp hp with rfl | hp
        · exact hlimit
        · exact hfit p hp
      · rw [frames_cons, List.append_assoc, ← hrest]
        exact hs

theorem length_le_length_frames (ps : List (List β)) : ps.length ≤ (H.frames ps).length := by
  induction ps with
  | nil => simp
  | cons p ps ih =>
    have hpos := H.width_pos
    have hlen := H.length_frame p
    simp only [List.length_cons, frames_cons, List.length_append]
    omega

/-- A stream is a concatenation of frames when reading frames uses it up. -/
theorem framed_iff {s : List β} : H.Framed s ↔ (H.readFrames s.length s).2 = [] := by
  constructor
  · rintro ⟨ps, hps, rfl⟩
    rw [readFrames_frames hps (length_le_length_frames ps)]
  · intro h
    obtain ⟨hfit, hs⟩ := H.eq_frames_append_readFrames s.length s
    rw [h, List.append_nil] at hs
    exact ⟨_, hfit, hs⟩

instance (s : List β) : Decidable (H.Framed s) :=
  decidable_of_iff ((H.readFrames s.length s).2 = []) framed_iff.symm

end Header
end Framing
