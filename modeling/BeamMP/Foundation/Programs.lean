import BeamMP.Foundation.Execution
import Mathlib.Logic.Function.Basic
import Mathlib.Tactic.Common

/-!
# Programs of atomic sections

A thread runs a program: a tree of calls, each an atomic section on the state
that all threads share, where the answer of a section selects the rest of the
program. Threads interleave between sections. The environment may decide part of
what a section does, and a guard may limit the states it is executed in.

A rely-guarantee triple says what a program does at each of its sections under
the steps of the other threads. Where the guarantee of every thread is within
what the others rely on, the triples give invariants of all interleavings.
-/
namespace Programs

inductive Program {κ : Type*} (Answer : κ → Type) (α : Type)
  | done (a : α)
  | call (k : κ) (next : Answer k → Program Answer α)

variable {κ σ τ ω : Type*} {Answer : κ → Type} {α β : Type}

namespace Program

def bind : Program Answer α → (α → Program Answer β) → Program Answer β
  | .done a, f => f a
  | .call k next, f => .call k fun x => (next x).bind f

instance : Monad (Program Answer) where
  pure := .done
  bind := Program.bind

def perform (k : κ) : Program Answer (Answer k) := .call k .done

/-- The section the program is about to execute. -/
def head? : Program Answer α → Option κ
  | .done _ => none
  | .call k _ => some k

/-- Every section the program can get to is allowed. -/
def Uses (allowed : κ → Prop) : Program Answer α → Prop
  | .done _ => True
  | .call k next => allowed k ∧ ∀ x, (next x).Uses allowed

variable {allowed : κ → Prop}

@[simp] theorem uses_pure (a : α) : (pure a : Program Answer α).Uses allowed := trivial

@[simp] theorem uses_perform (k : κ) :
    (perform k : Program Answer (Answer k)).Uses allowed ↔ allowed k := by
  simp [perform, Uses]

theorem Uses.bind {p : Program Answer α} {f : α → Program Answer β} (hp : p.Uses allowed)
    (hf : ∀ a, (f a).Uses allowed) : (p >>= f).Uses allowed := by
  induction p with
  | done a => exact hf a
  | call k next ih => exact ⟨hp.1, fun x => ih x (hp.2 x)⟩

section Alone

variable (exec : (k : κ) → σ → Answer k × σ)

/-- The result of the program when no other thread runs meanwhile. -/
def alone : Program Answer α → σ → α × σ
  | .done a, s => (a, s)
  | .call k next, s => (next (exec k s).1).alone (exec k s).2

@[simp] theorem alone_pure (a : α) (s : σ) :
    (pure a : Program Answer α).alone exec s = (a, s) := rfl

@[simp] theorem alone_perform (k : κ) (s : σ) : (perform k).alone exec s = exec k s := rfl

@[simp] theorem alone_bind (p : Program Answer α) (f : α → Program Answer β) (s : σ) :
    (p >>= f).alone exec s = (f (p.alone exec s).1).alone exec (p.alone exec s).2 := by
  induction p generalizing s with
  | done a => rfl
  | call k next ih => exact ih (exec k s).1 (exec k s).2

end Alone

end Program

/-- The shared state and what is left of the program of each thread. -/
structure Threads {κ : Type*} (Answer : κ → Type) (σ τ : Type*) where
  shared : σ
  program : τ → Program Answer Unit

namespace Threads

variable (s : Threads Answer σ τ) (exec : τ → ω → (k : κ) → σ → Answer k × σ)

/-- All threads are idle. -/
def idle (Answer : κ → Type) (τ : Type*) (shared : σ) : Threads Answer σ τ where
  shared := shared
  program _ := .done ()

variable [DecidableEq τ]

/-- An idle thread enters a program. -/
def start (t : τ) (p : Program Answer Unit) : Option (Threads Answer σ τ) :=
  match s.program t with
  | .done _ => some { s with program := Function.update s.program t p }
  | .call _ _ => none

/-- A thread executes its next section, in a way the environment picks. -/
def advance (t : τ) (o : ω) : Option (Threads Answer σ τ) :=
  match s.program t with
  | .done _ => none
  | .call k next =>
    some
      { shared := (exec t o k s.shared).2
        program := Function.update s.program t (next (exec t o k s.shared).1) }

variable {s} {t : Threads Answer σ τ} {u : τ} {p : Program Answer Unit} {o : ω} {exec}

theorem start_cases (h : s.start u p = some t) :
    t = { s with program := Function.update s.program u p } := by
  unfold start at h
  split at h
  · exact (Option.some.inj h).symm
  · cases h

theorem advance_cases (h : s.advance exec u o = some t) :
    ∃ k next, s.program u = .call k next ∧
      t = ⟨(exec u o k s.shared).2,
        Function.update s.program u (next (exec u o k s.shared).1)⟩ := by
  unfold advance at h
  split at h
  case h_1 => cases h
  case h_2 k next heq => exact ⟨k, next, heq, (Option.some.inj h).symm⟩

end Threads

section RelyGuarantee

variable (exec : ω → (k : κ) → σ → Answer k × σ) (ok : ω → κ → σ → Prop)

/-- The other threads do not change the truth of the assertion. -/
def Stable (rely : σ → σ → Prop) (pre : σ → Prop) : Prop := ∀ s s', pre s → rely s s' → pre s'

/-- From `pre`, every section of the program that is executed under the guard keeps the
guarantee, and the program ends in `post`, with the other threads within `rely`. -/
def Meets (rely guar : σ → σ → Prop) (post : α → σ → Prop) :
    Program Answer α → (σ → Prop) → Prop
  | .done a, pre => ∀ s, pre s → post a s
  | .call k next, pre =>
    ∃ mid : Answer k → σ → Prop,
      (∀ x, Stable rely (mid x)) ∧
      (∀ o s, pre s → ok o k s → guar s (exec o k s).2 ∧ mid (exec o k s).1 (exec o k s).2) ∧
      ∀ x, Meets rely guar post (next x) (mid x)

variable {exec ok} {rely guar : σ → σ → Prop} {pre : σ → Prop} {post : α → σ → Prop}

theorem meets_pure {a : α} (h : ∀ s, pre s → post a s) :
    Meets exec ok rely guar post (pure a : Program Answer α) pre := h

theorem meets_perform {k : κ} {post : Answer k → σ → Prop} (hstable : ∀ x, Stable rely (post x))
    (h : ∀ o s, pre s → ok o k s →
      guar s (exec o k s).2 ∧ post (exec o k s).1 (exec o k s).2) :
    Meets exec ok rely guar post (Program.perform k) pre :=
  ⟨post, hstable, h, fun _ _ hs => hs⟩

theorem Meets.mono {p : Program Answer α} {pre' : σ → Prop} {post' : α → σ → Prop}
    (h : Meets exec ok rely guar post p pre) (hpre : ∀ s, pre' s → pre s)
    (hpost : ∀ a s, post a s → post' a s) : Meets exec ok rely guar post' p pre' := by
  induction p generalizing pre pre' with
  | done a => exact fun s hs => hpost a s (h s (hpre s hs))
  | call k next ih =>
    obtain ⟨mid, hstable, hstep, hrest⟩ := h
    refine ⟨mid, hstable, fun o s hs => hstep o s (hpre s hs), ?_⟩
    exact fun x => ih x (hrest x) (fun _ hs => hs)

theorem Meets.bind {p : Program Answer α} {f : α → Program Answer β} {post' : β → σ → Prop}
    (hp : Meets exec ok rely guar post p pre)
    (hf : ∀ a, Meets exec ok rely guar post' (f a) (post a)) :
    Meets exec ok rely guar post' (p >>= f) pre := by
  induction p generalizing pre with
  | done a => exact (hf a).mono hp (fun _ _ h => h)
  | call k next ih =>
    obtain ⟨mid, hstable, hstep, hrest⟩ := hp
    exact ⟨mid, hstable, hstep, fun x => ih x (hrest x)⟩

/-- What is known before a program and does not depend on the state may be used as a fact. -/
theorem meets_of_fact {p : Program Answer α} {Q : Prop}
    (h : Q → Meets exec ok rely guar post p (fun _ => True)) :
    Meets exec ok rely guar post p (fun _ => Q) := by
  by_cases hQ : Q
  · exact (h hQ).mono (fun _ _ => trivial) (fun _ _ h => h)
  · induction p with
    | done a => exact fun _ hs => absurd hs hQ
    | call k next ih =>
      refine ⟨fun _ _ => Q, fun _ _ _ hs => absurd hs hQ, fun _ _ hs => absurd hs hQ, ?_⟩
      exact fun x => ih x fun hs => absurd hs hQ

/-- A program all of whose sections keep the guarantee and the assertion. -/
theorem meets_of_uses {allowed : κ → Prop} {p : Program Answer α} (hp : p.Uses allowed)
    (hstable : Stable rely pre)
    (h : ∀ k, allowed k → ∀ o s, pre s → ok o k s → guar s (exec o k s).2 ∧ pre (exec o k s).2) :
    Meets exec ok rely guar (fun _ => pre) p pre := by
  induction p with
  | done a => exact fun _ hs => hs
  | call k next ih =>
    exact ⟨fun _ => pre, fun _ => hstable, h k hp.1, fun x => ih x (hp.2 x)⟩

end RelyGuarantee

namespace Threads

variable (exec : τ → ω → (k : κ) → σ → Answer k × σ) (ok : τ → ω → κ → σ → Prop)
  (rely guar : τ → σ → σ → Prop) (I : σ → Prop)

/-- What is left of the program of every thread meets its guarantee from an assertion
that holds now and that the other threads keep. -/
structure Sound (s : Threads Answer σ τ) : Prop where
  invariant : I s.shared
  outline : ∀ u, ∃ pre, Stable (rely u) pre ∧ pre s.shared ∧
    Meets (exec u) (ok u) (rely u) (guar u) (fun _ _ => True) (s.program u) pre

variable {exec ok rely guar I}

theorem idle_sound {shared : σ} (h : I shared) :
    Sound exec ok rely guar I (idle Answer τ shared) where
  invariant := h
  outline _ := ⟨fun _ => True, fun _ _ _ _ => trivial, trivial, fun _ _ => trivial⟩

theorem Sound.interfere {s : Threads Answer σ τ} (h : Sound exec ok rely guar I s)
    (shared : σ) (hI : I shared) (hrely : ∀ u, rely u s.shared shared) :
    Sound exec ok rely guar I { s with shared := shared } where
  invariant := hI
  outline u := by
    obtain ⟨pre, hstable, hpre, hmeets⟩ := h.outline u
    exact ⟨pre, hstable, hstable _ _ hpre (hrely u), hmeets⟩

variable [DecidableEq τ] {s t : Threads Answer σ τ} {u : τ} {p : Program Answer Unit} {o : ω}

theorem Sound.start (h : Sound exec ok rely guar I s)
    (hp : Meets (exec u) (ok u) (rely u) (guar u) (fun _ _ => True) p (fun _ => True))
    (hstep : s.start u p = some t) : Sound exec ok rely guar I t := by
  cases start_cases hstep
  constructor
  case invariant => exact h.invariant
  case outline =>
    intro v
    by_cases hv : v = u
    · subst hv
      refine ⟨fun _ => True, fun _ _ _ _ => trivial, trivial, ?_⟩
      simpa using hp
    · simpa [hv] using h.outline v

/-- Step lemma: a section keeps the assertions of all threads. -/
theorem Sound.advance (h : Sound exec ok rely guar I s)
    (hrely : ∀ u v, v ≠ u → ∀ a b, guar u a b → rely v a b)
    (hI : ∀ u a b, I a → guar u a b → I b)
    (hok : ∀ k next, s.program u = .call k next → ok u o k s.shared)
    (hstep : s.advance exec u o = some t) : Sound exec ok rely guar I t := by
  obtain ⟨k, next, hcall, rfl⟩ := advance_cases hstep
  obtain ⟨pre, -, hpre, hmeets⟩ := h.outline u
  rw [hcall] at hmeets
  obtain ⟨mid, hstable, hsection, hrest⟩ := hmeets
  obtain ⟨hguar, hmid⟩ := hsection o s.shared hpre (hok k next hcall)
  constructor
  case invariant => exact hI u _ _ h.invariant hguar
  case outline =>
    intro v
    by_cases hv : v = u
    · subst hv
      refine ⟨mid _, hstable _, hmid, ?_⟩
      simpa using hrest _
    · obtain ⟨preV, hstableV, hpreV, hmeetsV⟩ := h.outline v
      refine ⟨preV, hstableV, hstableV _ _ hpreV (hrely u v hv _ _ hguar), ?_⟩
      simpa [hv] using hmeetsV

end Threads
end Programs
