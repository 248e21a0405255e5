import BeamMP.Foundation.Execution
import BeamMP.Foundation.Locals
import BeamMP.Network.Frames
import Mathlib.Data.Fintype.Defs

/-!
# Frames on a shared socket

Any thread may call `TCPSend` for a client, and `boost::asio::write` puts a frame
on the socket in several pieces. Nothing keeps the pieces of two frames apart.
-/
namespace BeamMP

/-- A `TCPSend` call inside `write`: the frame, how much of it is on the socket, and
whether `write` came back with an error. -/
structure Write where
  ToSend : Bytes
  written : ℕ
  failed : Bool
deriving DecidableEq

/-- The socket of one client, with the calls of the threads that are sending. -/
structure Socket (τ : Type*) where
  stream : Bytes
  closed : Bool
  calls : τ → Option Write

inductive SocketAction (τ : Type*)
  | tcpSend (t : τ) (isSyncing : Bool) (Data : Bytes) (IsSync : Bool)
  | write (t : τ) (n : ℕ)
  | fail (t : τ)
  | disconnectClient (t : τ)
  | disconnect

/-- A fresh connection that nobody has written to. -/
def Socket.start (τ : Type*) : Socket τ where
  stream := []
  closed := false
  calls _ := none

namespace Socket

variable {τ : Type*}

/-- Part of the frame of the thread is on the socket, and the rest is not. -/
def PartlyWritten (s : Socket τ) (t : τ) : Prop := ∃ w, s.calls t = some w ∧ 0 < w.written

/-- The stream is a concatenation of frames, and after it a part of one frame only while
that frame is being written or when the client is disconnected. -/
def Untorn (s : Socket τ) : Prop :=
  ∃ ps rest, (∀ p ∈ ps, p.length < sizeHeader.limit) ∧ s.stream = sizeHeader.frames ps ++ rest ∧
    (rest = [] ∨ ∃ p, p.length < sizeHeader.limit ∧ rest <+: sizeHeader.frame p ∧
      (s.closed = true ∨
        ∃ t w, s.calls t = some w ∧ w.ToSend = sizeHeader.frame p ∧ rest = w.ToSend.take w.written))

/-- A piece of a frame does not go out while another frame is partly written, also when that write
has failed and the socket is still open, and a packet is not longer than its header can say. -/
def writesAlone (s : Socket τ) : SocketAction τ → Prop
  | .tcpSend _ _ Data _ => Data.length < sizeHeader.limit
  | .write t _ => ∀ u, u ≠ t → ¬ s.PartlyWritten u
  | _ => True

instance (s : Socket τ) (t : τ) : Decidable (s.PartlyWritten t) :=
  decidable_of_iff ((s.calls t).any (0 < ·.written) = true)
    (by simp [PartlyWritten, Option.any_eq_true])

instance [Fintype τ] [DecidableEq τ] (s : Socket τ) : ∀ a, Decidable (s.writesAlone a)
  | .tcpSend _ _ Data _ => inferInstanceAs (Decidable (Data.length < _))
  | .write t _ => inferInstanceAs (Decidable (∀ u, u ≠ t → ¬ s.PartlyWritten u))
  | .fail _ | .disconnectClient _ | .disconnect => inferInstanceAs (Decidable True)

/-- What follows the complete frames is the written part of the one frame that is being
written, if there is one. -/
def TailOf (s : Socket τ) (rest : Bytes) : Prop :=
  (rest = [] ∧ ∀ t, ¬ s.PartlyWritten t) ∨
    ∃ t w, s.calls t = some w ∧ rest = w.ToSend.take w.written ∧ ∀ u, u ≠ t → ¬ s.PartlyWritten u

structure FrameInvariant (s : Socket τ) : Prop where
  sending : ∀ t w, s.calls t = some w → w.written < w.ToSend.length ∧
    ∃ p, p.length < sizeHeader.limit ∧ w.ToSend = sizeHeader.frame p
  framed : ∃ ps rest, (∀ p ∈ ps, p.length < sizeHeader.limit) ∧
    s.stream = sizeHeader.frames ps ++ rest ∧
    (∃ p, p.length < sizeHeader.limit ∧ rest <+: sizeHeader.frame p) ∧
    (s.closed = false → s.TailOf rest)

variable {s s' : Socket τ} {t : τ} {w : Write}

theorem start_frameInvariant : (start τ).FrameInvariant where
  sending _ _ h := by cases h
  framed := by
    refine ⟨[], [], by simp, rfl, ⟨[], by decide, List.nil_prefix⟩, fun _ => Or.inl ⟨rfl, ?_⟩⟩
    rintro t ⟨w, hw, -⟩
    cases hw

theorem FrameInvariant.untorn (h : s.FrameInvariant) : s.Untorn := by
  obtain ⟨ps, rest, hps, hstream, ⟨p, hp, hprefix⟩, htail⟩ := h.framed
  refine ⟨ps, rest, hps, hstream, ?_⟩
  cases hclosed : s.closed with
  | true => exact Or.inr ⟨p, hp, hprefix, Or.inl rfl⟩
  | false =>
    rcases htail hclosed with ⟨hnil, -⟩ | ⟨t, w, hw, hrest, -⟩
    · exact Or.inl hnil
    · obtain ⟨-, q, hq, hframe⟩ := h.sending t w hw
      refine Or.inr ⟨q, hq, ?_, Or.inr ⟨t, w, hw, hframe, hrest⟩⟩
      rw [hrest, ← hframe]
      exact List.take_prefix _ _

theorem FrameInvariant.close (h : s.FrameInvariant) {calls : τ → Option Write}
    (hcalls : ∀ u w, calls u = some w → s.calls u = some w) :
    (⟨s.stream, true, calls⟩ : Socket τ).FrameInvariant where
  sending u w hw := h.sending u w (hcalls u w hw)
  framed := by
    obtain ⟨ps, rest, hps, hstream, hprefix, -⟩ := h.framed
    exact ⟨ps, rest, hps, hstream, hprefix, fun hopen => by cases hopen⟩

/-- When no other frame is partly written, the stream ends with the written part of the
frame of the thread. -/
theorem TailOf.eq_take {rest : Bytes} (htail : s.TailOf rest) (hw : s.calls t = some w)
    (halone : ∀ u, u ≠ t → ¬ s.PartlyWritten u) : rest = w.ToSend.take w.written := by
  have hnone : ¬ s.PartlyWritten t → w.written = 0 := by
    intro h
    by_contra hpos
    exact h ⟨w, hw, Nat.pos_of_ne_zero hpos⟩
  rcases htail with ⟨hnil, hno⟩ | ⟨v, x, hx, hrest, hothers⟩
  · rw [hnone (hno t), List.take_zero, hnil]
  · by_cases hvt : v = t
    · subst hvt
      obtain rfl : w = x := Option.some.inj (hw.symm.trans hx)
      exact hrest
    · have hzero : x.written = 0 := by
        by_contra hpos
        exact halone v hvt ⟨x, hx, Nat.pos_of_ne_zero hpos⟩
      rw [hnone (hothers t (Ne.symm hvt)), hrest, hzero, List.take_zero, List.take_zero]

theorem Untorn.framed (h : s.Untorn) (hopen : s.closed = false) (hquiet : ∀ t, s.calls t = none) :
    sizeHeader.Framed s.stream := by
  obtain ⟨ps, rest, hps, hstream, hnil | ⟨-, -, -, hclosed | ⟨t, w, hw, -⟩⟩⟩ := h
  · exact ⟨ps, hps, by rw [hstream, hnil, List.append_nil]⟩
  · rw [hopen] at hclosed
    cases hclosed
  · rw [hquiet t] at hw
    cases hw

section Step

variable [DecidableEq τ]

/-- One atomic step: `TCPSend` builds its frame, one piece of at least a byte goes out, `write`
fails, the caller disconnects the client after that, or somebody else disconnects it. -/
def step (s : Socket τ) : SocketAction τ → Option (Socket τ)
  | .tcpSend t isSyncing Data IsSync =>
    if s.calls t = none then
      match BeamMP.tcpSend isSyncing Data IsSync with
      | .write ToSend => some { s with calls := Locals.enter s.calls t ⟨ToSend, 0, false⟩ }
      | _ => some s
    else none
  | .write t n =>
    (s.calls t).bind fun w =>
      if s.closed = false ∧ w.failed = false ∧ 0 < n ∧ w.written + n ≤ w.ToSend.length then
        some { s with
          stream := s.stream ++ (w.ToSend.drop w.written).take n
          calls :=
            if w.written + n = w.ToSend.length then Locals.leave s.calls t
            else Locals.enter s.calls t { w with written := w.written + n } }
      else none
  | .fail t =>
    (s.calls t).bind fun w =>
      some { s with calls := Locals.enter s.calls t { w with failed := true } }
  | .disconnectClient t =>
    (s.calls t).bind fun w =>
      if w.failed = true then some { s with closed := true, calls := Locals.leave s.calls t }
      else none
  | .disconnect => some { s with closed := true }

theorem partlyWritten_enter {calls : τ → Option Write} {u : τ} {stream : Bytes} {closed : Bool} :
    (⟨stream, closed, Locals.enter calls t w⟩ : Socket τ).PartlyWritten u ↔
      u = t ∧ 0 < w.written ∨ u ≠ t ∧ (⟨stream, closed, calls⟩ : Socket τ).PartlyWritten u := by
  simp only [PartlyWritten, Locals.enter_eq_some_iff]
  by_cases hu : u = t <;> simp [hu]

theorem partlyWritten_leave {calls : τ → Option Write} {u : τ} {stream : Bytes} {closed : Bool} :
    (⟨stream, closed, Locals.leave calls t⟩ : Socket τ).PartlyWritten u ↔
      u ≠ t ∧ (⟨stream, closed, calls⟩ : Socket τ).PartlyWritten u := by
  simp only [PartlyWritten, Locals.leave_eq_some_iff]
  by_cases hu : u = t <;> simp [hu]

theorem TailOf.enter {rest : Bytes} (htail : s.TailOf rest)
    (hsame : ∀ x, s.calls t = some x → w.ToSend = x.ToSend ∧ w.written = x.written)
    (hnew : s.calls t = none → w.written = 0) :
    ({ s with calls := Locals.enter s.calls t w } : Socket τ).TailOf rest := by
  have hpartly : ∀ u, ({ s with calls := Locals.enter s.calls t w } : Socket τ).PartlyWritten u →
      s.PartlyWritten u := by
    intro u hu
    rcases partlyWritten_enter.mp hu with ⟨rfl, hpos⟩ | ⟨-, hu⟩
    · cases hx : s.calls u with
      | none => exact absurd (hnew hx) (Nat.ne_of_gt hpos)
      | some x => exact ⟨x, hx, (hsame x hx).2 ▸ hpos⟩
    · exact hu
  rcases htail with ⟨hnil, hnone⟩ | ⟨v, x, hx, hrest, hothers⟩
  · exact Or.inl ⟨hnil, fun u hu => hnone u (hpartly u hu)⟩
  · refine Or.inr ?_
    by_cases hvt : v = t
    · subst hvt
      obtain ⟨hsend, hwritten⟩ := hsame x hx
      exact ⟨v, w, Locals.enter_self, by rw [hrest, hsend, hwritten],
        fun u huv hu => hothers u huv (hpartly u hu)⟩
    · exact ⟨v, x, (Locals.enter_of_ne hvt).trans hx, hrest,
        fun u huv hu => hothers u huv (hpartly u hu)⟩

theorem FrameInvariant.tcpSend (h : s.FrameInvariant) {p : Bytes} (hp : p.length < sizeHeader.limit)
    (ht : s.calls t = none) :
    ({ s with calls := Locals.enter s.calls t ⟨sizeHeader.frame p, 0, false⟩ } :
      Socket τ).FrameInvariant where
  sending u w hw := by
    rcases Locals.enter_eq_some_iff.mp hw with ⟨-, rfl⟩ | ⟨-, hw⟩
    · exact ⟨List.length_pos_iff.mpr (Framing.Header.frame_ne_nil p), p, hp, rfl⟩
    · exact h.sending u w hw
  framed := by
    obtain ⟨ps, rest, hps, hstream, hprefix, htail⟩ := h.framed
    refine ⟨ps, rest, hps, hstream, hprefix, fun hopen => (htail hopen).enter ?_ fun _ => rfl⟩
    intro x hx
    rw [ht] at hx
    cases hx

theorem FrameInvariant.fail (h : s.FrameInvariant) (hw : s.calls t = some w) :
    ({ s with calls := Locals.enter s.calls t { w with failed := true } } :
      Socket τ).FrameInvariant where
  sending u v hv := by
    rcases Locals.enter_eq_some_iff.mp hv with ⟨-, rfl⟩ | ⟨-, hv⟩
    · exact h.sending t w hw
    · exact h.sending u v hv
  framed := by
    obtain ⟨ps, rest, hps, hstream, hprefix, htail⟩ := h.framed
    refine ⟨ps, rest, hps, hstream, hprefix, fun hopen => (htail hopen).enter ?_ ?_⟩
    · intro x hx
      obtain rfl : w = x := Option.some.inj (hw.symm.trans hx)
      exact ⟨rfl, rfl⟩
    · intro hnone
      rw [hw] at hnone
      cases hnone

theorem FrameInvariant.write (h : s.FrameInvariant) (hw : s.calls t = some w) {n : ℕ}
    (hopen : s.closed = false) (hn : w.written + n ≤ w.ToSend.length)
    (halone : ∀ u, u ≠ t → ¬ s.PartlyWritten u) :
    ({ s with
      stream := s.stream ++ (w.ToSend.drop w.written).take n
      calls :=
        if w.written + n = w.ToSend.length then Locals.leave s.calls t
        else Locals.enter s.calls t { w with written := w.written + n } } :
      Socket τ).FrameInvariant := by
  obtain ⟨ps, rest, hps, hstream, -, htail⟩ := h.framed
  obtain ⟨-, p, hp, hframe⟩ := h.sending t w hw
  have hrest := (htail hopen).eq_take hw halone
  have hstream' : s.stream ++ (w.ToSend.drop w.written).take n =
      sizeHeader.frames ps ++ w.ToSend.take (w.written + n) := by
    rw [hstream, hrest, List.append_assoc, ← List.take_add]
  split_ifs with hdone
  · refine ⟨?_, ps ++ [p], [], ?_, ?_, ⟨p, hp, List.nil_prefix⟩, fun _ => Or.inl ⟨rfl, ?_⟩⟩
    · exact fun u v hv => h.sending u v (Locals.leave_eq_some_iff.mp hv).2
    · intro q hq
      rcases List.mem_append.mp hq with hq | hq
      · exact hps q hq
      · rwa [List.mem_singleton.mp hq]
    · rw [hstream', hdone, List.take_length, hframe, Framing.Header.frames_append]
      simp
    · intro u hu
      obtain ⟨hut, hu⟩ := partlyWritten_leave.mp hu
      exact halone u hut hu
  · refine ⟨?_, ps, w.ToSend.take (w.written + n), hps, hstream', ⟨p, hp, ?_⟩, fun _ => Or.inr ?_⟩
    · intro u v hv
      rcases Locals.enter_eq_some_iff.mp hv with ⟨-, rfl⟩ | ⟨-, hv⟩
      · exact ⟨Nat.lt_of_le_of_ne hn hdone, p, hp, hframe⟩
      · exact h.sending u v hv
    · rw [hframe]
      exact List.take_prefix _ _
    · refine ⟨t, _, Locals.enter_self, rfl, fun u hut hu => ?_⟩
      rcases partlyWritten_enter.mp hu with ⟨heq, -⟩ | ⟨-, hu⟩
      · exact hut heq
      · exact halone u hut hu

/-- Step lemma: only a piece that goes out between the pieces of another frame breaks the
invariant. -/
theorem FrameInvariant.step {a : SocketAction τ} (h : s.FrameInvariant) (halone : s.writesAlone a)
    (hstep : s.step a = some s') : s'.FrameInvariant := by
  cases a with
  | tcpSend t isSyncing Data IsSync =>
    obtain ⟨ht, hstep⟩ := Option.ite_none_right_eq_some.mp hstep
    unfold BeamMP.tcpSend at hstep
    split at hstep
    case h_1 ToSend hsend =>
      cases hstep
      split_ifs at hsend
      · split at hsend
        · cases hsend
        · split_ifs at hsend
      · cases hsend
        exact h.tcpSend halone ht
    case h_2 =>
      cases hstep
      exact h
  | write t n =>
    obtain ⟨w, hw, hstep⟩ := Option.bind_eq_some_iff.mp hstep
    obtain ⟨⟨hopen, -, -, hn⟩, hstep⟩ := Option.ite_none_right_eq_some.mp hstep
    cases hstep
    exact h.write hw hopen hn halone
  | fail t =>
    obtain ⟨w, hw, hstep⟩ := Option.bind_eq_some_iff.mp hstep
    cases hstep
    exact h.fail hw
  | disconnectClient t =>
    obtain ⟨w, hw, hstep⟩ := Option.bind_eq_some_iff.mp hstep
    obtain ⟨-, hstep⟩ := Option.ite_none_right_eq_some.mp hstep
    cases hstep
    exact h.close fun u v hv => (Locals.leave_eq_some_iff.mp hv).2
  | disconnect =>
    cases hstep
    exact h.close fun _ _ hv => hv

/-- When the pieces of a frame go out with no piece of another frame between them, no frame
is torn. -/
theorem untorn_of_writesAlone (as : List (SocketAction τ))
    (has : Execution.Along Socket.step writesAlone (start τ) as) (s : Socket τ)
    (hrun : Execution.run Socket.step (start τ) as = some s) : s.Untorn := by
  have hinv : s.FrameInvariant :=
    Execution.run_invariant (fun _ _ _ h halone hstep => h.step halone hstep)
      start_frameInvariant has hrun
  exact hinv.untorn

/-- Two threads whose packets go out one after the other, the second one in part only. -/
theorem untorn_after_two_writes :
    ∃ s, Execution.run Socket.step (start (Fin 2))
        [.tcpSend 0 false (ascii "A") false, .tcpSend 1 false (ascii "B") true, .write 0 2,
          .write 0 3, .write 1 4, .disconnect] = some s ∧
      s.Untorn :=
  ⟨_, rfl, untorn_of_writesAlone
    [.tcpSend 0 false (ascii "A") false, .tcpSend 1 false (ascii "B") true, .write 0 2,
      .write 0 3, .write 1 4, .disconnect]
    (by decide) _ rfl⟩

/-- The pieces of two one-byte packets of two threads alternate. -/
theorem not_untorn_after_alternating_writes :
    ∃ s, Execution.run Socket.step (start (Fin 2))
        [.tcpSend 0 false (ascii "A") false, .tcpSend 1 false (ascii "B") true, .write 0 2,
          .write 1 5, .write 0 3] = some s ∧
      ¬ s.Untorn :=
  ⟨_, rfl, fun h => absurd (h.framed rfl (by decide)) (by decide)⟩

end Step
end Socket
end BeamMP
