import BeamMP.Common.Compression
import BeamMP.Foundation.Execution
import BeamMP.Foundation.Locals

/-!
# Reliable broadcasts to one client

`SendToAll` puts a packet into the queue of every client that is synced or syncing,
`SyncClient` moves a client from syncing to synced with two separate writes, and
`Looper` empties the queue. This module follows one client: every test of a flag,
every write of a flag and every access to the queue is one atomic step.
-/
namespace BeamMP

inductive Route
  | enqueue (Packet : Bytes)
  | udp (Data : Bytes)
deriving DecidableEq

/-- The transport and the packet `SendToAll` chooses, where `none` is an exception. -/
def sendToAllRoute (z : Zlib) (Data : Bytes) (Rel : Bool) : Option Route :=
  match Data with
  | [] => none
  | C :: _ =>
    if Rel || C ∈ ascii "WYVE" || 1024 < z.compressBound Data.length then
      if C ∈ ascii "OT" || 1000 < Data.length then
        if 400 < Data.length then (compressProperly z Data).map .enqueue
        else some (.enqueue Data)
      else some (.enqueue Data)
    else some (.udp Data)

/-- With a working zlib a reliable packet always ends up in the queue. -/
theorem Zlib.Lawful.exists_sendToAllRoute {z : Zlib} (hz : z.Lawful) {Data : Bytes}
    (hne : Data ≠ []) : ∃ Packet, sendToAllRoute z Data true = some (.enqueue Packet) := by
  obtain ⟨y, hy, -, -⟩ := hz.exists_comp Data
  have hcompress : compressProperly z Data = some (ascii "ABG:" ++ y) := by
    simp [compressProperly, hy]
  cases Data with
  | nil => exact absurd rfl hne
  | cons C rest =>
    simp only [sendToAllRoute, Bool.true_or, if_true]
    split_ifs
    · exact ⟨_, by rw [hcompress]; rfl⟩
    · exact ⟨_, rfl⟩
    · exact ⟨_, rfl⟩

/-- The place of the client's thread in `SyncClient`, from `SetIsSyncing(true)` on. -/
inductive SyncPhase
  | unsynced
  | syncing
  | handover
  | synced
  | aborted
deriving DecidableEq

/-- The place of `Looper` in its loop. -/
inductive LooperPhase
  | start
  | testSyncing
  | testSynced
  | testSize
  | draining
  | sending (QData : Bytes)
  | clearing
  | ended
deriving DecidableEq

/-- The packet that `Looper` has taken off the queue and not yet sent. -/
def LooperPhase.inHand : LooperPhase → List Bytes
  | .sending QData => [QData]
  | _ => []

/-- How many steps `Looper` needs for the next `n` packets. -/
def LooperPhase.stepsFor (n : ℕ) : LooperPhase → ℕ
  | .start | .clearing | .ended => 2 * n + 4
  | .testSyncing => 2 * n + 3
  | .testSynced => 2 * n + 2
  | .testSize => 2 * n + 1
  | .draining => 2 * n
  | .sending _ => 2 * n - 1

/-- The place of a `SendToAll` call in the iteration for the client. -/
inductive CastPhase
  | testSynced
  | testSyncing
  | enqueuing
  | done
deriving DecidableEq

/-- A reliable `SendToAll` call that targets the client. `due` records whether it was issued
after `SetIsSyncing(true)` and before the client disconnected. -/
structure Cast where
  Data : Bytes
  due : Bool
  phase : CastPhase

/-- The client and the threads that work on it. `enqueued` is the history of the queue, with
the call that enqueued a packet unless it was no reliable broadcast, and `written` is what
`Looper` has sent. -/
structure Delivery (ι : Type*) where
  mIsSyncing : Bool
  mIsSynced : Bool
  disconnected : Bool
  mPacketsSync : List Bytes
  sync : SyncPhase
  looper : LooperPhase
  casts : ι → Option Cast
  enqueued : List (Option ι × Bytes)
  written : List Bytes
  failed : Bool

inductive DeliveryAction (ι : Type*)
  | sync (abort : Bool)
  | looper (sent : Bool)
  | issue (i : ι) (Data : Bytes)
  | cast (i : ι)
  | enqueue (Packet : Bytes)
  | disconnect

/-- The client stays connected, and its socket takes what `Looper` writes. -/
def DeliveryAction.calm {ι : Type*} : DeliveryAction ι → Bool
  | .disconnect | .looper false => false
  | _ => true

def DeliveryAction.ofLooper {ι : Type*} : DeliveryAction ι → Bool
  | .looper _ => true
  | _ => false

namespace Delivery

def start (ι : Type*) : Delivery ι where
  mIsSyncing := false
  mIsSynced := false
  disconnected := false
  mPacketsSync := []
  sync := .unsynced
  looper := .start
  casts _ := none
  enqueued := []
  written := []
  failed := false

variable {ι : Type*}

def syncStep (s : Delivery ι) (abort : Bool) : Option (Delivery ι) :=
  match s.sync with
  | .unsynced => some { s with mIsSyncing := true, sync := .syncing }
  | .syncing =>
    some { s with
      mIsSyncing := false
      sync := if abort && s.disconnected then .aborted else .handover }
  | .handover => some { s with mIsSynced := true, sync := .synced }
  | .synced | .aborted => none

/-- `Looper`; a failed `TCPSend` disconnects the client, and the queue is cleared after it. -/
def looperStep (s : Delivery ι) (sent : Bool) : Option (Delivery ι) :=
  match s.looper with
  | .start => some { s with looper := if s.disconnected then .ended else .testSyncing }
  | .testSyncing => some { s with looper := if s.mIsSyncing then .start else .testSynced }
  | .testSynced => some { s with looper := if s.mIsSynced then .testSize else .start }
  | .testSize => some { s with looper := if s.mPacketsSync = [] then .start else .draining }
  | .draining =>
    match s.mPacketsSync with
    | [] => some { s with looper := .start }
    | QData :: rest => some { s with mPacketsSync := rest, looper := .sending QData }
  | .sending QData =>
    if sent then some { s with written := s.written ++ [QData], looper := .draining }
    else some { s with disconnected := true, failed := true, looper := .clearing }
  | .clearing => some { s with mPacketsSync := [], looper := .start }
  | .ended => none

def enqueuePacket (s : Delivery ι) (source : Option ι) (Packet : Bytes) : Delivery ι :=
  { s with
    mPacketsSync := s.mPacketsSync ++ [Packet]
    enqueued := s.enqueued ++ [(source, Packet)] }

def waiting (s : Delivery ι) : List Bytes := s.looper.inHand ++ s.mPacketsSync

/-- The flags are those of the place in `SyncClient`, and `Looper` ends for a disconnected client
only. -/
structure FlagsInvariant (s : Delivery ι) : Prop where
  syncing : s.mIsSyncing = true ↔ s.sync = .syncing
  synced : s.mIsSynced = true ↔ s.sync = .synced
  ended : s.looper = .ended → s.disconnected = true

structure QueueInvariant (s : Delivery ι) : Prop where
  in_order : s.written <+: s.enqueued.map Prod.snd
  complete : s.failed = false →
    s.enqueued.map Prod.snd = s.written ++ s.looper.inHand ++ s.mPacketsSync
  gave_up : s.failed = true → s.disconnected = true ∧
    (s.looper = .clearing ∨ s.looper = .start ∨ s.looper = .ended)
  clearing : s.looper = .clearing → s.failed = true

/-- What the history of the queue can hold for a broadcast, by its state. -/
inductive Recorded (z : Zlib) (i : ι) : Option Cast → List (Option ι × Bytes) → Prop
  | absent : Recorded z i none []
  | pending {c : Cast} (hne : c.Data ≠ []) (hphase : c.phase ≠ .done) : Recorded z i (some c) []
  | delivered {c : Cast} {Packet : Bytes} (hphase : c.phase = .done)
    (hroute : sendToAllRoute z c.Data true = some (.enqueue Packet)) :
    Recorded z i (some c) [(some i, Packet)]
  | skipped {c : Cast} (hdue : c.due = false) (hphase : c.phase = .done) : Recorded z i (some c) []

variable {z : Zlib} {s s' : Delivery ι} {i : ι} {c : Cast}

theorem start_queueInvariant : (start ι).QueueInvariant where
  in_order := List.nil_prefix
  complete _ := rfl
  gave_up h := by cases h
  clearing h := by cases h

theorem syncStep_eq {abort : Bool} (h : s.syncStep abort = some s') :
    ∃ syncing synced phase,
      s' = { s with mIsSyncing := syncing, mIsSynced := synced, sync := phase } := by
  unfold syncStep at h
  split at h
  case h_1 => exact ⟨_, _, _, (Option.some.inj h).symm⟩
  case h_2 => exact ⟨_, _, _, (Option.some.inj h).symm⟩
  case h_3 => exact ⟨_, _, _, (Option.some.inj h).symm⟩
  all_goals cases h

theorem looperStep_history {sent : Bool} (h : s.looperStep sent = some s') :
    s'.casts = s.casts ∧ s'.enqueued = s.enqueued := by
  unfold looperStep at h
  split at h
  case h_5 => split at h <;> cases h <;> exact ⟨rfl, rfl⟩
  case h_6 => split_ifs at h <;> cases h <;> exact ⟨rfl, rfl⟩
  case h_8 => cases h
  all_goals
    cases h
    exact ⟨rfl, rfl⟩

theorem QueueInvariant.enqueuePacket (h : s.QueueInvariant) (source : Option ι) (Packet : Bytes) :
    (s.enqueuePacket source Packet).QueueInvariant where
  in_order := by
    simp only [Delivery.enqueuePacket, List.map_append]
    exact h.in_order.trans (List.prefix_append _ _)
  complete hfailed := by
    have hold := h.complete hfailed
    simp only [Delivery.enqueuePacket, List.map_append, List.map_cons, List.map_nil, hold,
      List.append_assoc]
  gave_up := h.gave_up
  clearing := h.clearing

theorem QueueInvariant.not_failed (h : s.QueueInvariant) (hclearing : s.looper ≠ .clearing)
    (hstart : s.looper ≠ .start) (hended : s.looper ≠ .ended) : s.failed = false := by
  by_contra hfailed
  rcases (h.gave_up (by simpa using hfailed)).2 with h | h | h <;> contradiction

theorem QueueInvariant.move {phase : LooperPhase} (h : s.QueueInvariant)
    (hold : s.looper.inHand = []) (hnew : phase.inHand = []) (hclearing : phase ≠ .clearing)
    (hgave : s.failed = true → phase = .start ∨ phase = .ended) :
    ({ s with looper := phase } : Delivery ι).QueueInvariant where
  in_order := h.in_order
  complete hfailed := by
    have hall := h.complete hfailed
    rw [hold] at hall
    simpa only [hnew] using hall
  gave_up hfailed := ⟨(h.gave_up hfailed).1, Or.inr (hgave hfailed)⟩
  clearing h := absurd h hclearing

/-- Step lemma for `Looper`: packets move from the queue to the socket in order, and after a
failed send nothing is written any more. -/
theorem QueueInvariant.looperStep {sent : Bool} (h : s.QueueInvariant)
    (hstep : s.looperStep sent = some s') : s'.QueueInvariant := by
  unfold Delivery.looperStep at hstep
  split at hstep
  case h_1 hphase =>
    cases hstep
    apply h.move
    · rw [hphase]
      rfl
    · split_ifs <;> rfl
    · split_ifs <;> simp
    · exact fun hfailed => Or.inr (if_pos (h.gave_up hfailed).1)
  case h_2 hphase | h_3 hphase | h_4 hphase =>
    cases hstep
    have hfailed := h.not_failed (by simp [hphase]) (by simp [hphase]) (by simp [hphase])
    apply h.move
    · rw [hphase]
      rfl
    · split_ifs <;> rfl
    · split_ifs <;> simp
    · simp [hfailed]
  case h_5 hphase =>
    have hfailed := h.not_failed (by simp [hphase]) (by simp [hphase]) (by simp [hphase])
    have hall := h.complete hfailed
    split at hstep
    case h_1 hqueue =>
      cases hstep
      apply h.move
      · rw [hphase]
        rfl
      · rfl
      · simp
      · simp
    case h_2 QData rest hqueue =>
      cases hstep
      refine ⟨h.in_order, fun _ => ?_, by simp [hfailed], by simp⟩
      simpa [hphase, hqueue, LooperPhase.inHand] using hall
  case h_6 QData hphase =>
    have hfailed := h.not_failed (by simp [hphase]) (by simp [hphase]) (by simp [hphase])
    have hall := h.complete hfailed
    split_ifs at hstep
    · cases hstep
      refine ⟨?_, fun _ => ?_, by simp [hfailed], by simp⟩
      · rw [hall, hphase]
        exact List.prefix_append _ _
      · simpa [hphase, LooperPhase.inHand] using hall
    · cases hstep
      exact ⟨h.in_order, by simp, fun _ => ⟨rfl, Or.inl rfl⟩, fun _ => rfl⟩
  case h_7 hphase =>
    cases hstep
    have hfailed := h.clearing hphase
    exact ⟨h.in_order, by simp [hfailed], fun _ => ⟨(h.gave_up hfailed).1, Or.inr (Or.inl rfl)⟩,
      by simp⟩
  case h_8 => cases hstep

theorem start_flagsInvariant : (start ι).FlagsInvariant where
  syncing := by simp [start]
  synced := by simp [start]
  ended h := by cases h

theorem FlagsInvariant.syncStep {abort : Bool} (h : s.FlagsInvariant)
    (hstep : s.syncStep abort = some s') : s'.FlagsInvariant := by
  unfold Delivery.syncStep at hstep
  have hsyncing := h.syncing
  have hsynced := h.synced
  split at hstep
  case h_1 hphase =>
    cases hstep
    exact ⟨by simp, by simpa [hphase] using hsynced, h.ended⟩
  case h_2 hphase =>
    cases hstep
    refine ⟨?_, ?_, h.ended⟩
    · split_ifs <;> simp
    · split_ifs <;> simpa [hphase] using hsynced
  case h_3 hphase =>
    cases hstep
    exact ⟨by simpa [hphase] using hsyncing, by simp, h.ended⟩
  all_goals cases hstep

theorem FlagsInvariant.looperStep {sent : Bool} (h : s.FlagsInvariant)
    (hstep : s.looperStep sent = some s') : s'.FlagsInvariant := by
  unfold Delivery.looperStep at hstep
  split at hstep
  case h_1 =>
    cases hstep
    refine ⟨h.syncing, h.synced, fun hended => ?_⟩
    by_contra hconnected
    rw [if_neg hconnected] at hended
    cases hended
  case h_2 | h_3 | h_4 =>
    cases hstep
    exact ⟨h.syncing, h.synced, fun hended => by split_ifs at hended⟩
  case h_5 =>
    split at hstep <;> cases hstep <;> exact ⟨h.syncing, h.synced, fun hended => by cases hended⟩
  case h_6 =>
    split_ifs at hstep <;> cases hstep <;>
      exact ⟨h.syncing, h.synced, fun hended => by cases hended⟩
  case h_7 =>
    cases hstep
    exact ⟨h.syncing, h.synced, fun hended => by cases hended⟩
  case h_8 => cases hstep

/-- How many steps `Looper` needs until it has written the first `k` packets. -/
def stepsLeft (s : Delivery ι) (k : ℕ) : ℕ :=
  if k ≤ s.written.length then 0 else s.looper.stepsFor (k - s.written.length)

structure Synced (s : Delivery ι) : Prop where
  flags : s.FlagsInvariant
  queue : s.QueueInvariant
  synced : s.sync = .synced
  connected : s.disconnected = false

theorem Synced.not_failed (h : s.Synced) : s.failed = false := by
  by_contra hfailed
  have hdisconnected := (h.queue.gave_up (by simpa using hfailed)).1
  simp [h.connected] at hdisconnected

theorem Synced.length_enqueued (h : s.Synced) :
    s.enqueued.length = s.written.length + s.waiting.length := by
  have hall := congrArg List.length (h.queue.complete h.not_failed)
  rw [List.length_map, List.append_assoc, List.length_append] at hall
  exact hall

theorem Synced.exists_looperStep (h : s.Synced) : ∃ s', s.looperStep true = some s' := by
  have hended : s.looper ≠ .ended := fun hended => by simpa [h.connected] using h.flags.ended hended
  unfold Delivery.looperStep
  split
  case h_5 => split <;> exact ⟨_, rfl⟩
  case h_8 hphase => exact absurd hphase hended
  all_goals exact ⟨_, rfl⟩

theorem looperStep_true_eq (h : s.looperStep true = some s') :
    ∃ mPacketsSync looper written,
      s' = { s with mPacketsSync, looper, written } ∧ s.written <+: written := by
  unfold looperStep at h
  split at h
  case h_5 => split at h <;> cases h <;> exact ⟨_, _, _, rfl, List.prefix_rfl⟩
  case h_6 =>
    cases h
    exact ⟨_, _, _, rfl, List.prefix_append _ _⟩
  case h_8 => cases h
  all_goals
    cases h
    exact ⟨_, _, _, rfl, List.prefix_rfl⟩

theorem Synced.looperStep (h : s.Synced) (hstep : s.looperStep true = some s') : s'.Synced := by
  have hflags := h.flags.looperStep hstep
  have hqueue := h.queue.looperStep hstep
  obtain ⟨_, _, _, rfl, -⟩ := looperStep_true_eq hstep
  exact ⟨hflags, hqueue, h.synced, h.connected⟩

theorem Synced.stepsLeft_looperStep (h : s.Synced) {k : ℕ} (hk : k ≤ s.enqueued.length)
    (hstep : s.looperStep true = some s') : s'.stepsLeft k ≤ s.stepsLeft k - 1 := by
  by_cases hdone : k ≤ s.written.length
  · obtain ⟨_, _, written, rfl, hgrow⟩ := looperStep_true_eq hstep
    have hdone' : k ≤ written.length := hdone.trans hgrow.length_le
    simp [stepsLeft, hdone']
  · have hlength := h.length_enqueued
    have hsyncing : s.mIsSyncing = false := by
      have hiff := h.flags.syncing
      simpa [h.synced] using hiff
    have hsynced : s.mIsSynced = true := h.flags.synced.mpr h.synced
    have hfailed := h.not_failed
    have hconnected := h.connected
    unfold Delivery.looperStep at hstep
    unfold stepsLeft
    rw [if_neg hdone]
    split at hstep
    case h_1 hphase | h_2 hphase | h_3 hphase =>
      cases hstep
      simp [hphase, hconnected, hsyncing, hsynced, hdone, LooperPhase.stepsFor]
    case h_4 hphase =>
      have hqueue : s.mPacketsSync ≠ [] := by
        rintro hnil
        simp [waiting, hphase, hnil, LooperPhase.inHand] at hlength
        omega
      cases hstep
      simp [hphase, hqueue, hdone, LooperPhase.stepsFor]
    case h_5 hphase =>
      split at hstep
      case h_1 hnil =>
        simp [waiting, hphase, hnil, LooperPhase.inHand] at hlength
        omega
      case h_2 QData rest hqueue =>
        cases hstep
        simp [hphase, hdone, LooperPhase.stepsFor]
    case h_6 QData hphase =>
      cases hstep
      simp only [hphase, LooperPhase.stepsFor, List.length_append, List.length_singleton]
      split_ifs <;> omega
    case h_7 hphase =>
      have hclearing := h.queue.clearing hphase
      simp [hfailed] at hclearing
    case h_8 => cases hstep

theorem le_of_stepsLeft_eq_zero {k : ℕ} (h : s.stepsLeft k = 0) : k ≤ s.written.length := by
  by_contra hleft
  unfold stepsLeft LooperPhase.stepsFor at h
  rw [if_neg hleft] at h
  split at h <;> omega

theorem stepsLeft_le (s : Delivery ι)
    (h : s.enqueued.length = s.written.length + s.waiting.length) :
    s.stepsLeft s.enqueued.length ≤ 2 * s.waiting.length + 4 := by
  unfold stepsLeft LooperPhase.stepsFor
  rw [h, Nat.add_sub_cancel_left]
  split_ifs
  · omega
  · split <;> omega

theorem Recorded.length_le {o : Option Cast} {es : List (Option ι × Bytes)}
    (h : Recorded z i o es) : es.length ≤ 1 := by
  cases h <;> simp

theorem Recorded.of_done {es : List (Option ι × Bytes)} (h : Recorded z i (some c) es)
    (hphase : c.phase = .done) (hdue : c.due = true) :
    ∃ Packet, sendToAllRoute z c.Data true = some (.enqueue Packet) ∧ es = [(some i, Packet)] := by
  cases h with
  | pending _ hnot => exact absurd hphase hnot
  | delivered _ hroute => exact ⟨_, hroute, rfl⟩
  | skipped hnot _ => simp [hdue] at hnot

theorem Recorded.of_not_done {es : List (Option ι × Bytes)} (h : Recorded z i (some c) es)
    (hphase : c.phase ≠ .done) : c.Data ≠ [] ∧ es = [] := by
  cases h with
  | pending hne _ => exact ⟨hne, rfl⟩
  | delivered hdone _ => exact absurd hdone hphase
  | skipped _ hdone => exact absurd hdone hphase

variable (z) [DecidableEq ι]

def setCast (s : Delivery ι) (i : ι) (c : Cast) : Delivery ι :=
  { s with casts := Locals.enter s.casts i c }

/-- One step of a reliable `SendToAll` call in the iteration for the client. -/
def castStep (s : Delivery ι) (i : ι) (c : Cast) : Option (Delivery ι) :=
  match c.phase with
  | .testSynced =>
    some (s.setCast i { c with phase := if s.mIsSynced then .enqueuing else .testSyncing })
  | .testSyncing =>
    some (s.setCast i { c with phase := if s.mIsSyncing then .enqueuing else .done })
  | .enqueuing =>
    match sendToAllRoute z c.Data true with
    | some (.enqueue Packet) =>
      some ((s.enqueuePacket (some i) Packet).setCast i { c with phase := .done })
    | _ => some (s.setCast i { c with phase := .done })
  | .done => none

def step (s : Delivery ι) : DeliveryAction ι → Option (Delivery ι)
  | .sync abort => s.syncStep abort
  | .looper sent => s.looperStep sent
  | .issue i Data =>
    if s.casts i = none ∧ Data ≠ [] then
      some (s.setCast i ⟨Data, s.sync ≠ .unsynced && !s.disconnected, .testSynced⟩)
    else none
  | .cast i => (s.casts i).bind fun c => s.castStep z i c
  | .enqueue Packet => some (s.enqueuePacket none Packet)
  | .disconnect => some { s with disconnected := true }

def entries (s : Delivery ι) (i : ι) : List (Option ι × Bytes) :=
  s.enqueued.filter fun e => e.1 = some i

/-- `Looper` writes what is in the queue: on its own it empties it, and whatever the other threads
do, a number of its steps is enough for the packets that are there. -/
structure Drains (s : Delivery ι) : Prop where
  empties : ∃ n t, Execution.run (step z) s (List.replicate n (.looper true)) = some t ∧
    t.written = s.enqueued.map Prod.snd ∧ t.mPacketsSync = []
  bounded : ∀ bs t, Execution.run (step z) s bs = some t → (∀ a ∈ bs, a.calm = true) →
    2 * s.waiting.length + 4 ≤ bs.countP DeliveryAction.ofLooper →
      s.enqueued.map Prod.snd <+: t.written

/-- No reliable broadcast is lost, duplicated or reordered, and once the client is synced and as
long as it is connected, each packet that was enqueued gets written. -/
structure Reliable (s : Delivery ι) : Prop where
  once : ∀ i c, s.casts i = some c → c.due = true → c.phase = .done →
    ∃ Packet, sendToAllRoute z c.Data true = some (.enqueue Packet) ∧
      s.entries i = [(some i, Packet)]
  not_twice : ∀ i, (s.entries i).length ≤ 1
  in_order : s.written <+: s.enqueued.map Prod.snd
  complete : s.failed = false →
    s.enqueued.map Prod.snd = s.written ++ s.looper.inHand ++ s.mPacketsSync
  drains : s.sync = .synced → s.disconnected = false → s.Drains z

/-- A broadcast that is due does not read `IsSyncing` when it is false. -/
def seesSyncing (s : Delivery ι) : DeliveryAction ι → Bool
  | .cast i => (s.casts i).all fun c => !(c.due && c.phase = .testSyncing) || s.mIsSyncing
  | _ => true

structure CastInvariant (s : Delivery ι) : Prop where
  recorded : ∀ i, Recorded z i (s.casts i) (s.entries i)

variable {z}

theorem start_castInvariant : (start ι).CastInvariant z where
  recorded _ := .absent

theorem CastInvariant.of_eq (h : s.CastInvariant z) (hcasts : s'.casts = s.casts)
    (hentries : ∀ i, s'.entries i = s.entries i) : s'.CastInvariant z where
  recorded i := by
    rw [hcasts, hentries]
    exact h.recorded i

theorem CastInvariant.setCast (h : s.CastInvariant z) (hrec : Recorded z i (some c) (s.entries i)) :
    (s.setCast i c).CastInvariant z where
  recorded j := by
    by_cases hj : j = i
    · subst hj
      have hcasts : (s.setCast j c).casts j = some c := Locals.enter_self
      rw [hcasts]
      exact hrec
    · have hcasts : (s.setCast i c).casts j = s.casts j := Locals.enter_of_ne hj
      rw [hcasts]
      exact h.recorded j

theorem entries_enqueuePacket_of_ne {source : Option ι} {Packet : Bytes} (h : source ≠ some i) :
    (s.enqueuePacket source Packet).entries i = s.entries i := by
  simp [entries, enqueuePacket, h]

theorem entries_enqueuePacket_self {Packet : Bytes} :
    (s.enqueuePacket (some i) Packet).entries i = s.entries i ++ [(some i, Packet)] := by
  simp [entries, enqueuePacket]

/-- Step lemma for one broadcast: only a broadcast that is due and finds both flags false
gets lost. -/
theorem CastInvariant.castStep (hz : z.Lawful) (h : s.CastInvariant z) (hc : s.casts i = some c)
    (hsees : s.seesSyncing (.cast i) = true) (hstep : s.castStep z i c = some s') :
    s'.CastInvariant z := by
  have hempty : c.phase ≠ .done → c.Data ≠ [] ∧ s.entries i = [] :=
    (hc ▸ h.recorded i).of_not_done
  unfold Delivery.castStep at hstep
  split at hstep
  case h_1 hphase =>
    obtain ⟨hne, hnil⟩ := hempty (by simp [hphase])
    cases hstep
    apply h.setCast
    rw [hnil]
    exact .pending hne (by dsimp only; split_ifs <;> simp)
  case h_2 hphase =>
    obtain ⟨hne, hnil⟩ := hempty (by simp [hphase])
    cases hstep
    apply h.setCast
    rw [hnil]
    cases hsyncing : s.mIsSyncing with
    | true => exact .pending hne (by simp)
    | false => exact .skipped (by simpa [seesSyncing, hc, hphase, hsyncing] using hsees) (by simp)
  case h_3 hphase =>
    obtain ⟨hne, hnil⟩ := hempty (by simp [hphase])
    obtain ⟨Packet, hroute⟩ := hz.exists_sendToAllRoute hne
    rw [hroute] at hstep
    cases hstep
    constructor
    intro j
    by_cases hj : j = i
    · subst hj
      have hentries : (s.enqueuePacket (some j) Packet).entries j = [(some j, Packet)] := by
        rw [entries_enqueuePacket_self, hnil, List.nil_append]
      have hcasts : ((s.enqueuePacket (some j) Packet).setCast j
          { c with phase := .done }).casts j = some { c with phase := .done } := Locals.enter_self
      rw [hcasts]
      exact hentries ▸ .delivered rfl hroute
    · have hentries : (s.enqueuePacket (some i) Packet).entries j = s.entries j :=
        entries_enqueuePacket_of_ne (by simpa using Ne.symm hj)
      have hcasts : ((s.enqueuePacket (some i) Packet).setCast i
          { c with phase := .done }).casts j = s.casts j := Locals.enter_of_ne hj
      rw [hcasts]
      exact hentries ▸ h.recorded j
  case h_4 => cases hstep

theorem castStep_eq (h : s.castStep z i c = some s') :
    (∃ c', s' = s.setCast i c') ∨
      ∃ Packet c', s' = (s.enqueuePacket (some i) Packet).setCast i c' := by
  unfold Delivery.castStep at h
  split at h
  case h_1 => exact Or.inl ⟨_, (Option.some.inj h).symm⟩
  case h_2 => exact Or.inl ⟨_, (Option.some.inj h).symm⟩
  case h_3 =>
    split at h
    · exact Or.inr ⟨_, _, (Option.some.inj h).symm⟩
    · exact Or.inl ⟨_, (Option.some.inj h).symm⟩
  case h_4 => cases h

theorem QueueInvariant.step {a : DeliveryAction ι} (h : s.QueueInvariant)
    (hstep : s.step z a = some s') : s'.QueueInvariant := by
  cases a with
  | sync abort =>
    obtain ⟨_, _, _, rfl⟩ := syncStep_eq hstep
    exact ⟨h.in_order, h.complete, h.gave_up, h.clearing⟩
  | looper sent => exact h.looperStep hstep
  | issue i Data =>
    obtain ⟨-, hstep⟩ := Option.ite_none_right_eq_some.mp hstep
    cases hstep
    exact ⟨h.in_order, h.complete, h.gave_up, h.clearing⟩
  | cast i =>
    obtain ⟨c, -, hstep⟩ := Option.bind_eq_some_iff.mp hstep
    rcases castStep_eq hstep with ⟨c', rfl⟩ | ⟨Packet, c', rfl⟩
    · exact ⟨h.in_order, h.complete, h.gave_up, h.clearing⟩
    · have henq := h.enqueuePacket (some i) Packet
      exact ⟨henq.in_order, henq.complete, henq.gave_up, henq.clearing⟩
  | enqueue Packet =>
    cases hstep
    exact h.enqueuePacket none Packet
  | disconnect =>
    cases hstep
    exact ⟨h.in_order, h.complete, fun hfailed => ⟨rfl, (h.gave_up hfailed).2⟩, h.clearing⟩

theorem FlagsInvariant.step {a : DeliveryAction ι} (h : s.FlagsInvariant)
    (hstep : s.step z a = some s') : s'.FlagsInvariant := by
  cases a with
  | sync abort => exact h.syncStep hstep
  | looper sent => exact h.looperStep hstep
  | issue i Data =>
    obtain ⟨-, hstep⟩ := Option.ite_none_right_eq_some.mp hstep
    cases hstep
    exact ⟨h.syncing, h.synced, h.ended⟩
  | cast i =>
    obtain ⟨c, -, hstep⟩ := Option.bind_eq_some_iff.mp hstep
    rcases castStep_eq hstep with ⟨c', rfl⟩ | ⟨Packet, c', rfl⟩
    · exact ⟨h.syncing, h.synced, h.ended⟩
    · exact ⟨h.syncing, h.synced, h.ended⟩
  | enqueue Packet =>
    cases hstep
    exact ⟨h.syncing, h.synced, h.ended⟩
  | disconnect =>
    cases hstep
    exact ⟨h.syncing, h.synced, fun _ => rfl⟩

theorem Synced.step_of_not_ofLooper {a : DeliveryAction ι} (h : s.Synced) (hcalm : a.calm = true)
    (hother : a.ofLooper = false) (hstep : s.step z a = some s') :
    ∃ casts mPacketsSync enqueued,
      s' = { s with casts, mPacketsSync, enqueued } ∧ s.enqueued <+: enqueued := by
  cases a with
  | sync abort =>
    have hnone : s.syncStep abort = none := by
      unfold syncStep
      rw [h.synced]
    cases hnone.symm.trans hstep
  | looper sent => cases hother
  | issue i Data =>
    obtain ⟨-, hstep⟩ := Option.ite_none_right_eq_some.mp hstep
    cases hstep
    exact ⟨_, _, _, rfl, List.prefix_rfl⟩
  | cast i =>
    obtain ⟨c, -, hstep⟩ := Option.bind_eq_some_iff.mp hstep
    rcases castStep_eq hstep with ⟨c', rfl⟩ | ⟨Packet, c', rfl⟩
    · exact ⟨_, _, _, rfl, List.prefix_rfl⟩
    · exact ⟨_, _, _, rfl, List.prefix_append _ _⟩
  | enqueue Packet =>
    cases hstep
    exact ⟨_, _, _, rfl, List.prefix_append _ _⟩
  | disconnect => cases hcalm

/-- Step lemma: a calm step keeps the client synced and brings the next writes closer if it is
one of `Looper`. -/
theorem Synced.step {a : DeliveryAction ι} (h : s.Synced) (hcalm : a.calm = true) {k : ℕ}
    (hk : k ≤ s.enqueued.length) (hstep : s.step z a = some s') :
    s'.Synced ∧ s.enqueued <+: s'.enqueued ∧
      s'.stepsLeft k ≤ s.stepsLeft k - [a].countP DeliveryAction.ofLooper := by
  cases hother : a.ofLooper with
  | true =>
    cases a with
    | looper sent =>
      obtain rfl : sent = true := by
        cases sent with
        | false => cases hcalm
        | true => rfl
      have hhistory := (looperStep_history hstep).2
      exact ⟨h.looperStep hstep, hhistory ▸ List.prefix_rfl, h.stepsLeft_looperStep hk hstep⟩
    | _ => cases hother
  | false =>
    have hflags := h.flags.step hstep
    have hqueue := h.queue.step hstep
    obtain ⟨_, _, _, rfl, hgrow⟩ := h.step_of_not_ofLooper hcalm hother hstep
    have hcount : [a].countP DeliveryAction.ofLooper = 0 := by simp [hother]
    rw [hcount]
    exact ⟨⟨hflags, hqueue, h.synced, h.connected⟩, hgrow, le_rfl⟩

theorem Synced.run {bs : List (DeliveryAction ι)} (h : s.Synced) {k : ℕ}
    (hk : k ≤ s.enqueued.length) (hcalm : ∀ a ∈ bs, a.calm = true)
    (hrun : Execution.run (Delivery.step z) s bs = some s') :
    s'.Synced ∧ s.enqueued <+: s'.enqueued ∧
      s'.stepsLeft k ≤ s.stepsLeft k - bs.countP DeliveryAction.ofLooper := by
  induction bs generalizing s with
  | nil =>
    obtain rfl : s = s' := by simpa using hrun
    exact ⟨h, List.prefix_rfl, le_rfl⟩
  | cons a bs ih =>
    obtain ⟨m, hm, hrest⟩ := Execution.run_cons_eq_some.mp hrun
    obtain ⟨hsynced, hgrow, hleft⟩ := h.step (hcalm a List.mem_cons_self) hk hm
    obtain ⟨hsynced', hgrow', hleft'⟩ := ih hsynced (hk.trans hgrow.length_le)
      (fun b hb => hcalm b (List.mem_cons_of_mem _ hb)) hrest
    have hcount : (a :: bs).countP DeliveryAction.ofLooper =
        bs.countP DeliveryAction.ofLooper + [a].countP DeliveryAction.ofLooper := by
      rw [List.countP_cons, List.countP_singleton]
    refine ⟨hsynced', hgrow.trans hgrow', ?_⟩
    omega

theorem Synced.exists_run (h : s.Synced) (n : ℕ) :
    ∃ t, Execution.run (Delivery.step z) s (List.replicate n (.looper true)) = some t ∧
      t.enqueued = s.enqueued := by
  induction n generalizing s with
  | zero => exact ⟨s, rfl, rfl⟩
  | succ n ih =>
    obtain ⟨m, hm⟩ := h.exists_looperStep
    obtain ⟨t, ht, hsame⟩ := ih (h.looperStep hm)
    exact ⟨t, Execution.run_cons_eq_some.mpr ⟨m, hm, ht⟩, hsame.trans (looperStep_history hm).2⟩

theorem Synced.drains (h : s.Synced) : s.Drains z := by
  have hbounded : ∀ bs t, Execution.run (Delivery.step z) s bs = some t →
      (∀ a ∈ bs, a.calm = true) →
      2 * s.waiting.length + 4 ≤ bs.countP DeliveryAction.ofLooper →
        t.Synced ∧ s.enqueued.map Prod.snd <+: t.written := by
    intro bs t hrun hcalm hcount
    obtain ⟨hsynced, hgrow, hleft⟩ := h.run le_rfl hcalm hrun
    have hstart := s.stepsLeft_le h.length_enqueued
    have hdone : s.enqueued.length ≤ t.written.length := le_of_stepsLeft_eq_zero (by omega)
    refine ⟨hsynced, List.prefix_of_prefix_length_le (hgrow.map Prod.snd)
      hsynced.queue.in_order ?_⟩
    rwa [List.length_map]
  constructor
  · obtain ⟨t, ht, hsame⟩ := h.exists_run (2 * s.waiting.length + 4)
    have hcount : 2 * s.waiting.length + 4 ≤ (List.replicate (2 * s.waiting.length + 4)
        (.looper true : DeliveryAction ι)).countP DeliveryAction.ofLooper := by
      rw [List.countP_replicate]
      exact le_rfl
    obtain ⟨hsynced, hwritten⟩ :=
      hbounded _ t ht (fun a ha => List.eq_of_mem_replicate ha ▸ rfl) hcount
    have hall : t.written = s.enqueued.map Prod.snd :=
      (hsame ▸ hsynced.queue.in_order).eq_of_length_le hwritten.length_le
    have hrest := hsynced.queue.complete hsynced.not_failed
    rw [hsame, ← hall, List.append_assoc, List.self_eq_append_right,
      List.append_eq_nil_iff] at hrest
    exact ⟨_, t, ht, hall, hrest.2⟩
  · exact fun bs t hrun hcalm hcount => (hbounded bs t hrun hcalm hcount).2

theorem reliable_of_invariants (hcast : s.CastInvariant z) (hqueue : s.QueueInvariant)
    (hflags : s.FlagsInvariant) : s.Reliable z where
  once i _ hc hdue hphase := (hc ▸ hcast.recorded i).of_done hphase hdue
  not_twice i := (hcast.recorded i).length_le
  in_order := hqueue.in_order
  complete := hqueue.complete
  drains hsynced hconnected := Synced.drains ⟨hflags, hqueue, hsynced, hconnected⟩

/-- Step lemma: every broadcast is recorded as its state says, unless one that is due finds
`IsSyncing` false. -/
theorem CastInvariant.step (hz : z.Lawful) {a : DeliveryAction ι} (h : s.CastInvariant z)
    (hsees : s.seesSyncing a = true) (hstep : s.step z a = some s') : s'.CastInvariant z := by
  cases a with
  | sync abort =>
    obtain ⟨_, _, _, rfl⟩ := syncStep_eq hstep
    exact ⟨h.recorded⟩
  | looper sent =>
    obtain ⟨hcasts, henqueued⟩ := looperStep_history hstep
    exact h.of_eq hcasts fun i => by simp only [entries, henqueued]
  | issue i Data =>
    obtain ⟨⟨hnone, hne⟩, hstep⟩ := Option.ite_none_right_eq_some.mp hstep
    cases hstep
    have hrec := h.recorded i
    rw [hnone] at hrec
    apply h.setCast
    generalize s.entries i = es at hrec
    cases hrec
    exact .pending hne (by simp)
  | cast i =>
    obtain ⟨c, hc, hstep⟩ := Option.bind_eq_some_iff.mp hstep
    exact h.castStep hz hc hsees hstep
  | enqueue Packet =>
    cases hstep
    exact h.of_eq rfl fun i => entries_enqueuePacket_of_ne (by simp)
  | disconnect =>
    cases hstep
    exact ⟨h.recorded⟩

/-- A broadcast that is due and reads `IsSyncing` when it is false is lost. -/
theorem seesSyncing_of_reliable {a : DeliveryAction ι} (h : s.CastInvariant z)
    (hstep : s.step z a = some s') (hreliable : s'.Reliable z) : s.seesSyncing a = true := by
  by_contra hsees
  cases a with
  | cast i =>
    obtain ⟨c, hc, hstep⟩ := Option.bind_eq_some_iff.mp hstep
    obtain ⟨⟨hdue, hphase⟩, hsyncing⟩ :
        (c.due = true ∧ c.phase = .testSyncing) ∧ s.mIsSyncing = false := by
      simpa [seesSyncing, hc] using hsees
    obtain ⟨-, hnil⟩ := (hc ▸ h.recorded i).of_not_done (by simp [hphase])
    simp only [Delivery.castStep, hphase, hsyncing] at hstep
    cases hstep
    obtain ⟨Packet, -, hentries⟩ :=
      hreliable.once i { c with phase := .done } Locals.enter_self hdue rfl
    have hentries' : s.entries i = [(some i, Packet)] := hentries
    rw [hnil] at hentries'
    cases hentries'
  | _ => exact hsees rfl

/-- Every broadcast that is due reaches the queue exactly once, and `Looper` writes the queue
in order and to its end, in every state of a run if and only if no broadcast that is due finds
`IsSyncing` false after it found `IsSynced` false. -/
theorem reliable_iff_seesSyncing (z : Zlib) (hz : z.Lawful) (as : List (DeliveryAction ι)) :
    (∀ s, Execution.Visits (step z) (start ι) as s → s.Reliable z) ↔
      Execution.Along (step z) (fun s a => s.seesSyncing a = true) (start ι) as := by
  apply Execution.always_iff_along
    (I := fun s => s.CastInvariant z ∧ s.QueueInvariant ∧ s.FlagsInvariant)
  · exact fun s h => reliable_of_invariants h.1 h.2.1 h.2.2
  · exact fun s a t h hsees hstep =>
      ⟨h.1.step hz hsees hstep, h.2.1.step hstep, h.2.2.step hstep⟩
  · exact fun s a t h hstep hreliable => seesSyncing_of_reliable h.1 hstep hreliable
  · exact ⟨start_castInvariant, start_queueInvariant, start_flagsInvariant⟩

/-- A broadcast that reads both flags while the client is syncing, and `Looper` after it. -/
theorem reliable_after_sync :
    ∃ s, Execution.run (step storingZlib) (start (Fin 1))
        [.sync false, .issue 0 (ascii "Od:1-0"), .cast 0, .cast 0, .sync false, .cast 0,
          .sync false, .looper true, .looper true, .looper true, .looper true, .looper true,
          .looper true] = some s ∧
      s.Reliable storingZlib ∧ s.written = [ascii "Od:1-0"] :=
  ⟨_, rfl, (reliable_iff_seesSyncing storingZlib storingZlib_lawful
    [.sync false, .issue 0 (ascii "Od:1-0"), .cast 0, .cast 0, .sync false, .cast 0,
      .sync false, .looper true, .looper true, .looper true, .looper true, .looper true,
      .looper true]).mpr (by decide) _ ⟨_, List.prefix_rfl, rfl⟩, rfl⟩

/-- A broadcast that reads `IsSynced` before `SyncClient` sets it, and `IsSyncing` after
`SyncClient` has reset it. -/
theorem not_reliable_in_handover :
    ∃ s, Execution.run (step storingZlib) (start (Fin 1))
        [.sync false, .issue 0 (ascii "Od:1-0"), .cast 0, .sync false, .cast 0, .sync false] =
        some s ∧
      ¬ s.Reliable storingZlib := by
  refine ⟨_, rfl, fun h => ?_⟩
  obtain ⟨Packet, -, hentries⟩ := h.once 0 ⟨ascii "Od:1-0", true, .done⟩ rfl rfl rfl
  cases hentries

end Delivery
end BeamMP
