import BeamMP.Foundation.Execution
import Mathlib.Data.Fintype.Defs
import Mathlib.Data.Nat.Notation
import Mathlib.Logic.Function.Basic
import Mathlib.Logic.Relation
import Mathlib.Tactic.Common

/-!
# Threads that lock mutexes in scopes

Every call locks one mutex, makes further calls in the scope of the lock and
unlocks the mutex again. A step of a thread is a lock together with the code up to
the next lock or unlock, or an unlock. A recursive mutex counts how often its owner
has locked it.
-/
namespace LockScopes

/-- What a thread has left to do. -/
inductive Instr (κ μ : Type*)
  | call (k : κ)
  | unlock (m : μ)
deriving DecidableEq

/-- Threads enter at an entry point, which is a sequence of calls. `enter` is the code of a
call after its lock: it changes the data and gives the calls that the scope makes, or `none`
when it throws. -/
structure Code (ε κ μ δ : Type*) where
  calls : ε → List κ
  mutex : κ → μ
  recursive : μ → Bool
  enter : κ → δ → δ × Option (List κ)

/-- The owner of a mutex comes with the number of times it has locked the mutex again. -/
structure State (τ κ μ δ : Type*) where
  data : δ
  owner : μ → Option (τ × ℕ)
  program : τ → List (Instr κ μ)

inductive Action (τ ε : Type*)
  | start (t : τ) (e : ε)
  | advance (t : τ)

variable {τ ε κ μ δ : Type*}

def Instr.isUnlock : Instr κ μ → Bool
  | .call _ => false
  | .unlock _ => true

/-- The instruction unlocks that mutex. -/
def Instr.unlocks [DecidableEq μ] (m : μ) : Instr κ μ → Bool
  | .call _ => false
  | .unlock a => a = m

/-- Nobody is inside of a call. -/
def State.idle (d : δ) : State τ κ μ δ := ⟨d, fun _ => none, fun _ => []⟩

/-- The rest of a program once a call has locked its mutex. An exception leaves only the
unlocks, which the destructors of the scopes make. -/
def proceed (m : μ) (inside : Option (List κ)) (rest : List (Instr κ μ)) : List (Instr κ μ) :=
  match inside with
  | some ks => ks.map .call ++ .unlock m :: rest
  | none => .unlock m :: rest.filter Instr.isUnlock

variable [DecidableEq τ] [DecidableEq μ]

def lock (recursive : μ → Bool) (owner : μ → Option (τ × ℕ)) (t : τ) (m : μ) :
    Option (μ → Option (τ × ℕ)) :=
  match owner m with
  | none => some (Function.update owner m (some (t, 0)))
  | some (u, n) =>
    if u = t && recursive m then some (Function.update owner m (some (t, n + 1))) else none

def unlock (owner : μ → Option (τ × ℕ)) (m : μ) : μ → Option (τ × ℕ) :=
  match owner m with
  | some (t, n + 1) => Function.update owner m (some (t, n))
  | _ => Function.update owner m none

/-- How often a thread has locked a mutex. -/
def depth (owner : μ → Option (τ × ℕ)) (t : τ) (m : μ) : ℕ :=
  match owner m with
  | some (u, n) => if u = t then n + 1 else 0
  | none => 0

variable (code : Code ε κ μ δ)

/-- A thread waits while it cannot lock the mutex of its next call. -/
def step (s : State τ κ μ δ) : Action τ ε → Option (State τ κ μ δ)
  | .start t e =>
    if s.program t = [] then
      some { s with program := Function.update s.program t ((code.calls e).map .call) }
    else none
  | .advance t =>
    match s.program t with
    | [] => none
    | .call k :: rest =>
      (lock code.recursive s.owner t (code.mutex k)).map fun owner =>
        let r := code.enter k s.data
        ⟨r.1, owner, Function.update s.program t (proceed (code.mutex k) r.2 rest)⟩
    | .unlock m :: rest =>
      some ⟨s.data, unlock s.owner m, Function.update s.program t rest⟩

/-- The next call of a thread locks a mutex that the other thread holds, or that the thread
holds itself and cannot lock twice. -/
def WaitsFor (s : State τ κ μ δ) (t u : τ) : Prop :=
  ∃ k rest n, s.program t = .call k :: rest ∧ s.owner (code.mutex k) = some (u, n) ∧
    (t ≠ u ∨ code.recursive (code.mutex k) = false)

/-- There is a cycle of threads each of which waits for a mutex held by the next. -/
def Deadlocked (s : State τ κ μ δ) : Prop := ∃ t, Relation.TransGen (WaitsFor code s) t t

/-- A thread owns the mutexes it has yet to unlock, as often as it has yet to unlock them. -/
def Owned (s : State τ κ μ δ) : Prop :=
  ∀ t m, (s.program t).countP (Instr.unlocks m) = depth s.owner t m

variable {code} {owner owner' : μ → Option (τ × ℕ)} {s s' : State τ κ μ δ} {t u : τ} {m a : μ}

theorem depth_lock (h : lock code.recursive owner t m = some owner') (u : τ) (a : μ) :
    depth owner' u a = depth owner u a + if t = u ∧ m = a then 1 else 0 := by
  unfold lock at h
  by_cases ha : m = a
  · subst ha
    cases hm : owner m with
    | none =>
      rw [hm] at h
      cases h
      simp [depth, hm]
    | some locked =>
      obtain ⟨v, n⟩ := locked
      rw [hm] at h
      obtain ⟨hv, h⟩ := Option.ite_none_right_eq_some.mp h
      cases h
      obtain ⟨rfl, -⟩ : v = t ∧ _ := by simpa using hv
      by_cases hu : v = u <;> simp [depth, hm, hu]
  · have hother : owner' a = owner a := by
      split at h
      · cases h
        exact Function.update_of_ne (Ne.symm ha) _ _
      · obtain ⟨-, h⟩ := Option.ite_none_right_eq_some.mp h
        cases h
        exact Function.update_of_ne (Ne.symm ha) _ _
    simp [depth, hother, ha]

theorem depth_unlock (h : depth owner t m ≠ 0) (u : τ) (a : μ) :
    depth (unlock owner m) u a + (if t = u ∧ m = a then 1 else 0) = depth owner u a := by
  obtain ⟨n, hn⟩ : ∃ n, owner m = some (t, n) := by
    unfold depth at h
    cases hm : owner m with
    | none => simp [hm] at h
    | some locked =>
      obtain ⟨v, n⟩ := locked
      rw [hm] at h
      obtain rfl : v = t := by
        by_contra hne
        simp [hne] at h
      exact ⟨n, rfl⟩
  by_cases ha : m = a
  · subst ha
    cases n with
    | zero => by_cases hu : t = u <;> simp [depth, unlock, hn, hu]
    | succ n => by_cases hu : t = u <;> simp [depth, unlock, hn, hu]
  · have hother : unlock owner m a = owner a := by
      cases n <;> simp [unlock, hn, Function.update_of_ne (Ne.symm ha)]
    simp [depth, hother, ha]

section Programs

variable {ks : List κ} {inside : Option (List κ)} {rest : List (Instr κ μ)}

omit [DecidableEq τ]

@[simp] theorem unlocks_call (k : κ) : (Instr.call k).unlocks m = false := rfl

@[simp] theorem unlocks_unlock : (Instr.unlock a : Instr κ μ).unlocks m = decide (a = m) := rfl

theorem unlocks_iff {i : Instr κ μ} : i.unlocks m = true ↔ i = .unlock m := by
  cases i <;> simp

theorem countP_unlocks_filter (rest : List (Instr κ μ)) :
    (rest.filter Instr.isUnlock).countP (Instr.unlocks m) = rest.countP (Instr.unlocks m) := by
  induction rest with
  | nil => rfl
  | cons i rest ih =>
    cases i with
    | call k => simpa [Instr.isUnlock] using ih
    | unlock a => rw [List.filter_cons_of_pos rfl, List.countP_cons, List.countP_cons, ih]

/-- Whether or not it throws, a call adds one unlock of its mutex. -/
theorem countP_unlocks_proceed (inside : Option (List κ)) (rest : List (Instr κ μ)) :
    (proceed m inside rest).countP (Instr.unlocks a) =
      rest.countP (Instr.unlocks a) + if m = a then 1 else 0 := by
  cases inside with
  | none => simp [proceed, List.countP_cons, countP_unlocks_filter]
  | some ks => simp [proceed, List.countP_cons]

end Programs

theorem step_cases {act : Action τ ε} (h : step code s act = some s') :
    (∃ t e, act = .start t e ∧ s.program t = [] ∧
      s' = ⟨s.data, s.owner, Function.update s.program t ((code.calls e).map .call)⟩) ∨
    (∃ t k rest owner, act = .advance t ∧ s.program t = .call k :: rest ∧
      lock code.recursive s.owner t (code.mutex k) = some owner ∧
      s' = ⟨(code.enter k s.data).1, owner,
        Function.update s.program t (proceed (code.mutex k) (code.enter k s.data).2 rest)⟩) ∨
    ∃ t m rest, act = .advance t ∧ s.program t = .unlock m :: rest ∧
      s' = ⟨s.data, unlock s.owner m, Function.update s.program t rest⟩ := by
  cases act with
  | start t e =>
    obtain ⟨hidle, h⟩ := Option.ite_none_right_eq_some.mp h
    cases h
    exact Or.inl ⟨t, e, rfl, hidle, rfl⟩
  | advance t =>
    unfold step at h
    cases hprogram : s.program t with
    | nil => simp [hprogram] at h
    | cons i rest =>
      cases i with
      | call k =>
        simp only [hprogram] at h
        obtain ⟨owner, hlock, rfl⟩ := Option.map_eq_some_iff.mp h
        exact Or.inr (Or.inl ⟨t, k, rest, owner, rfl, hprogram, hlock, rfl⟩)
      | unlock m =>
        simp only [hprogram] at h
        cases h
        exact Or.inr (Or.inr ⟨t, m, rest, rfl, hprogram, rfl⟩)

theorem owned_idle (d : δ) : Owned (State.idle d : State τ κ μ δ) := fun _ _ => rfl

theorem Owned.step {act : Action τ ε} (h : Owned s)
    (hstep : LockScopes.step code s act = some s') : Owned s' := by
  intro u a
  have hbefore := h u a
  rcases step_cases hstep with ⟨t, e, -, hidle, rfl⟩ |
    ⟨t, k, rest, owner, -, hprogram, hlock, rfl⟩ | ⟨t, m, rest, -, hprogram, rfl⟩
  · by_cases hu : u = t
    · subst hu
      rw [hidle] at hbefore
      simp [← hbefore]
    · simpa [hu] using hbefore
  · rw [depth_lock hlock]
    by_cases hu : u = t
    · subst hu
      rw [hprogram] at hbefore
      simpa [countP_unlocks_proceed] using hbefore
    · simpa [hu, Ne.symm hu] using hbefore
  · have hheld : depth s.owner t m ≠ 0 := by
      rw [← h t m, hprogram]
      simp
    have hafter := depth_unlock hheld u a
    by_cases hu : u = t
    · subst hu
      rw [hprogram, List.countP_cons] at hbefore
      simp only [Function.update_self, unlocks_unlock, decide_eq_true_eq, true_and] at *
      omega
    · simp only [Ne.symm hu, false_and, if_false, Nat.add_zero] at hafter
      simpa [hu, hafter] using hbefore

theorem Owned.unlock_mem (h : Owned s) {n : ℕ} (howner : s.owner m = some (t, n)) :
    Instr.unlock m ∈ s.program t := by
  have hpos : 0 < (s.program t).countP (Instr.unlocks m) := by
    rw [h t m]
    simp [depth, howner]
  obtain ⟨i, hi, hunlocks⟩ := List.countP_pos_iff.mp hpos
  exact unlocks_iff.mp hunlocks ▸ hi

/-- The threads respect a rank of the mutexes: what a thread locks next ranks above all that it
holds, unless it locks a recursive mutex again. -/
def Ranked (code : Code ε κ μ δ) (rank : μ → ℕ) (s : State τ κ μ δ) : Prop :=
  ∀ t k rest a, s.program t = .call k :: rest → Instr.unlock a ∈ rest →
    rank a < rank (code.mutex k) ∨ a = code.mutex k ∧ code.recursive a = true

/-- Along two waits in a row, the rank of the awaited mutex grows. -/
theorem Ranked.lt_of_waitsFor {rank : μ → ℕ} (hranked : Ranked code rank s) (hs : Owned s)
    {t u v : τ} (htu : WaitsFor code s t u) (huv : WaitsFor code s u v) :
    ∃ k rest k' rest', s.program t = .call k :: rest ∧ s.program u = .call k' :: rest' ∧
      rank (code.mutex k) < rank (code.mutex k') := by
  obtain ⟨k, rest, n, hk, howner, -⟩ := htu
  obtain ⟨k', rest', n', hk', howner', hwait⟩ := huv
  refine ⟨k, rest, k', rest', hk, hk', ?_⟩
  have hmem : Instr.unlock (code.mutex k) ∈ rest' := by
    have hmem := hs.unlock_mem howner
    rw [hk'] at hmem
    simpa using hmem
  rcases hranked u k' rest' _ hk' hmem with hlt | ⟨heq, hrecursive⟩
  · exact hlt
  · -- the thread locks again what it holds, so that it does not wait
    rw [← heq, howner] at howner'
    obtain ⟨rfl, -⟩ : u = v ∧ _ := by simpa using howner'
    rcases hwait with hne | hnot
    · exact absurd rfl hne
    · rw [← heq, hrecursive] at hnot
      cases hnot

/-- Where the threads respect a rank, there is no cycle of waits. -/
theorem Ranked.not_deadlocked {rank : μ → ℕ} (hranked : Ranked code rank s) (hs : Owned s) :
    ¬ Deadlocked code s := by
  have hgrows : ∀ t u, Relation.TransGen (WaitsFor code s) t u → ∀ v, WaitsFor code s u v →
      ∃ k rest k' rest', s.program t = .call k :: rest ∧ s.program u = .call k' :: rest' ∧
        rank (code.mutex k) < rank (code.mutex k') := by
    intro t u htu
    induction htu with
    | single htu => exact fun v huv => hranked.lt_of_waitsFor hs htu huv
    | tail _ hbc ih =>
      intro v hcv
      obtain ⟨k, rest, k₁, rest₁, hk, hk₁, hlt⟩ := ih _ hbc
      obtain ⟨k₂, rest₂, k', rest', hk₂, hk', hlt'⟩ := hranked.lt_of_waitsFor hs hbc hcv
      rw [hk₁] at hk₂
      obtain ⟨hkk, -⟩ := List.cons.inj hk₂
      cases hkk
      exact ⟨k, rest, k', rest', hk, hk', Nat.lt_trans hlt hlt'⟩
  rintro ⟨t, hcycle⟩
  obtain ⟨u, htu, -⟩ := Relation.TransGen.head'_iff.mp hcycle
  obtain ⟨k, rest, k', rest', hk, hk', hlt⟩ := hgrows t t hcycle u htu
  rw [hk] at hk'
  cases hk'
  exact Nat.lt_irrefl _ hlt

/-- `Inside m k` says that the call may be made while the mutex is held. The scope of a call
makes only calls that may be made while its own mutex is held, and all that may be held around
the call. -/
structure Code.Nesting (code : Code ε κ μ δ) (Inside : μ → κ → Prop) : Prop where
  scope : ∀ k d ks, (code.enter k d).2 = some ks → ∀ c ∈ ks, Inside (code.mutex k) c
  around : ∀ m k d ks, Inside m k → (code.enter k d).2 = some ks → ∀ c ∈ ks, Inside m c

/-- All calls of the threads are made where they may be. -/
def Nested (Inside : μ → κ → Prop) (s : State τ κ μ δ) : Prop :=
  ∀ t, (s.program t).Pairwise fun
    | .call k, .unlock m => Inside m k
    | _, _ => True

section Nested

variable {Inside : μ → κ → Prop}

omit [DecidableEq τ] [DecidableEq μ] in
theorem nested_idle (d : δ) : Nested Inside (State.idle d : State τ κ μ δ) :=
  fun _ => List.Pairwise.nil

omit [DecidableEq τ] [DecidableEq μ] in
theorem Nested.inside (h : Nested Inside s) {k : κ} {rest : List (Instr κ μ)}
    (hprogram : s.program t = .call k :: rest) (hm : Instr.unlock m ∈ rest) : Inside m k := by
  have hpairs := h t
  rw [hprogram] at hpairs
  exact List.rel_of_pairwise_cons hpairs hm

theorem Nested.step (hcode : code.Nesting Inside) {act : Action τ ε} (h : Nested Inside s)
    (hstep : LockScopes.step code s act = some s') : Nested Inside s' := by
  intro u
  rcases step_cases hstep with ⟨t, e, -, hidle, rfl⟩ | ⟨t, k, rest, owner, -, hprogram, -, rfl⟩ |
    ⟨t, m, rest, -, hprogram, rfl⟩
  · by_cases hu : u = t
    · subst hu
      simp only [Function.update_self, List.pairwise_map]
      exact List.pairwise_of_forall (fun _ _ => trivial)
    · simpa [hu] using h u
  · by_cases hu : u = t
    · subst hu
      have hbefore := h u
      rw [hprogram] at hbefore
      obtain ⟨hhead, hrest⟩ := List.pairwise_cons.mp hbefore
      simp only [Function.update_self]
      cases hinside : (code.enter k s.data).2 with
      | none => exact List.pairwise_cons.mpr ⟨fun _ _ => trivial, hrest.filter _⟩
      | some ks =>
        apply List.pairwise_append.mpr
        refine ⟨?_, List.pairwise_cons.mpr ⟨fun _ _ => trivial, hrest⟩, ?_⟩
        · rw [List.pairwise_map]
          exact List.pairwise_of_forall (fun _ _ => trivial)
        · intro x hx y hy
          obtain ⟨c, hc, rfl⟩ := List.mem_map.mp hx
          rcases List.mem_cons.mp hy with rfl | hy
          · exact hcode.scope k _ ks hinside c hc
          · cases y with
            | call _ => trivial
            | unlock m => exact hcode.around m k _ ks (hhead _ hy) hinside c hc
    · simpa [hu] using h u
  · by_cases hu : u = t
    · subst hu
      have hbefore := h u
      rw [hprogram] at hbefore
      simpa using (List.pairwise_cons.mp hbefore).2
    · simpa [hu] using h u

end Nested

/-- The program makes a call that satisfies `p` before it unlocks the mutex for the last time. -/
def pending (p : κ → Bool) (m : μ) : List (Instr κ μ) → Bool
  | [] => false
  | .call k :: rest => (p k && rest.any (Instr.unlocks m)) || pending p m rest
  | .unlock _ :: rest => pending p m rest

section Pending

variable {p q : κ → Bool} {k : κ} {ks : List κ} {rest : List (Instr κ μ)}

omit [DecidableEq τ]

theorem pending_mono (h : ∀ k, p k = true → q k = true) {program : List (Instr κ μ)}
    (hp : pending p m program = true) : pending q m program = true := by
  induction program with
  | nil => cases hp
  | cons i rest ih =>
    cases i with
    | call k =>
      simp only [pending, Bool.or_eq_true, Bool.and_eq_true] at hp ⊢
      exact hp.imp (fun hk => ⟨h k hk.1, hk.2⟩) ih
    | unlock a => exact ih hp

theorem pending_calls (ks : List κ) :
    pending p m (ks.map Instr.call : List (Instr κ μ)) = false := by
  induction ks with
  | nil => rfl
  | cons k ks ih => simpa [pending] using ih

theorem pending_append (ks : List κ) (rest : List (Instr κ μ)) :
    pending p m (ks.map Instr.call ++ rest) = true ↔
      (ks.any p = true ∧ rest.any (Instr.unlocks m) = true) ∨ pending p m rest = true := by
  induction ks with
  | nil => simp
  | cons k ks ih =>
    simp only [List.map_cons, List.cons_append, pending, Bool.or_eq_true, ih, List.any_cons]
    have hany : (ks.map Instr.call ++ rest).any (Instr.unlocks m) =
        rest.any (Instr.unlocks m) := by
      simp [List.any_append]
    rw [hany, Bool.and_eq_true]
    tauto

theorem pending_filter (rest : List (Instr κ μ)) :
    pending p m (rest.filter Instr.isUnlock) = false := by
  induction rest with
  | nil => rfl
  | cons i rest ih =>
    cases i with
    | call k => simpa [Instr.isUnlock] using ih
    | unlock a =>
      rw [List.filter_cons_of_pos rfl]
      exact ih

/-- A call that has just locked its mutex leaves pending what was pending before, what it makes
while its own mutex is held, and what it makes while another one is held around it. -/
theorem pending_proceed {inside : Option (List κ)}
    (h : pending p m (proceed a inside rest) = true) :
    pending p m rest = true ∨
      ∃ ks, inside = some ks ∧ ks.any p = true ∧ (a = m ∨ rest.any (Instr.unlocks m) = true) := by
  cases inside with
  | none =>
    rw [proceed, pending, pending_filter] at h
    cases h
  | some ks =>
    rcases (pending_append ks _).mp h with ⟨hp, hunlocks⟩ | hrest
    · exact Or.inr ⟨ks, rfl, hp, by simpa [List.any_cons] using hunlocks⟩
    · exact Or.inl hrest

end Pending

/-- The thread holds the mutex and has yet to make a call that satisfies `p` before it unlocks
the mutex. -/
def State.pends (p : δ → κ → Bool) (m : μ) (s : State τ κ μ δ) (t : τ) : Bool :=
  pending (p s.data) m (s.program t)

/-- The call locks the mutex and makes a call that satisfies `p` in its scope. -/
def Code.opens (code : Code ε κ μ δ) (p : δ → κ → Bool) (m : μ) (d : δ) (k : κ) : Bool :=
  code.mutex k = m && ((code.enter k d).2.getD []).any (p (code.enter k d).1)

/-- What satisfies `p` has done so before, and under the mutex only calls that satisfy `p`
themselves make such calls. -/
structure Code.Foreseen (code : Code ε κ μ δ) (Inside : μ → κ → Prop) (m : μ)
    (p : δ → κ → Bool) : Prop where
  before : ∀ k d c, p (code.enter k d).1 c = true → p d c = true
  around : ∀ k d ks, Inside m k → (code.enter k d).2 = some ks → ∀ c ∈ ks,
    p (code.enter k d).1 c = true → p d k = true

section Crossing

variable {Inside : μ → κ → Prop} {p q : δ → κ → Bool} {b : μ}

theorem pends_step (hp : code.Foreseen Inside m p) (hnested : Nested Inside s)
    {act : Action τ ε} (hstep : step code s act = some s') (h : s'.pends p m u = true) :
    s.pends p m u = true ∨
      ∃ k rest, act = .advance u ∧ s.program u = .call k :: rest ∧
        code.opens p m s.data k = true := by
  unfold State.pends at h ⊢
  rcases step_cases hstep with ⟨t, e, -, -, rfl⟩ | ⟨t, k, rest, owner, rfl, hprogram, -, rfl⟩ |
    ⟨t, a, rest, -, hprogram, rfl⟩
  · by_cases hu : u = t
    · subst hu
      simp [pending_calls] at h
    · exact Or.inl (by simpa [hu] using h)
  · have hbefore : ∀ c, p (code.enter k s.data).1 c = true → p s.data c = true := hp.before k _
    by_cases hu : u = t
    · subst hu
      simp only [Function.update_self] at h
      rcases pending_proceed h with hrest | ⟨ks, hks, hany, hmutex⟩
      · left
        rw [hprogram, pending, pending_mono hbefore hrest, Bool.or_true]
      · by_cases hm : code.mutex k = m
        · right
          exact ⟨k, rest, rfl, hprogram, by simp [Code.opens, hm, hks, hany]⟩
        · left
          -- the mutex is held around the call
          have hunlocks : rest.any (Instr.unlocks m) = true := hmutex.resolve_left hm
          obtain ⟨i, hi, him⟩ := List.any_eq_true.mp hunlocks
          obtain rfl := unlocks_iff.mp him
          obtain ⟨c, hc, hpc⟩ := List.any_eq_true.mp hany
          have hk : p s.data k = true :=
            hp.around k _ ks (hnested.inside hprogram hi) hks c hc hpc
          rw [hprogram, pending, hk, hunlocks, Bool.and_true, Bool.true_or]
    · left
      simp only [Function.update_of_ne hu] at h
      exact pending_mono hbefore h
  · left
    by_cases hu : u = t
    · subst hu
      rw [hprogram]
      simpa [pending] using h
    · simpa [hu] using h

/-- Nobody has a `p` pending under one mutex while somebody has a `q` pending under the other. -/
def Uncrossed (p q : δ → κ → Bool) (m b : μ) (s : State τ κ μ δ) : Prop :=
  ∀ t u, s.pends p m t = true → s.pends q b u = false

/-- No call opens one of the scopes while a thread has something pending in the other one. -/
def Code.takesTurns (code : Code ε κ μ δ) (p q : δ → κ → Bool) (m b : μ) (s : State τ κ μ δ) :
    Action τ ε → Prop
  | .start _ _ => True
  | .advance t =>
    match s.program t with
    | .call k :: _ =>
      (code.opens p m s.data k = true → ∀ u, s.pends q b u = false) ∧
        (code.opens q b s.data k = true → ∀ u, s.pends p m u = false)
    | _ => True

instance [Fintype τ] (s : State τ κ μ δ) : ∀ act : Action τ ε,
    Decidable (code.takesTurns p q m b s act)
  | .start _ _ => isTrue trivial
  | .advance t =>
    match h : s.program t with
    | [] | .unlock _ :: _ => isTrue (by simp [Code.takesTurns, h])
    | .call k :: _ =>
      decidable_of_iff ((code.opens p m s.data k = true → ∀ u, s.pends q b u = false) ∧
        (code.opens q b s.data k = true → ∀ u, s.pends p m u = false))
        (by simp only [Code.takesTurns, h])

theorem Uncrossed.step (hp : code.Foreseen Inside m p) (hq : code.Foreseen Inside b q)
    (hmb : m ≠ b) (hnested : Nested Inside s) {act : Action τ ε} (h : Uncrossed p q m b s)
    (hturns : code.takesTurns p q m b s act) (hstep : LockScopes.step code s act = some s') :
    Uncrossed p q m b s' := by
  intro t u ht
  by_contra hu
  rw [Bool.not_eq_false] at hu
  rcases pends_step hp hnested hstep ht with htbefore | ⟨k, rest, rfl, hk, hopens⟩
  · rcases pends_step hq hnested hstep hu with hubefore | ⟨k, rest, rfl, hk, hopens⟩
    · rw [h t u htbefore] at hubefore
      cases hubefore
    · simp only [Code.takesTurns, hk] at hturns
      rw [hturns.2 hopens t] at htbefore
      cases htbefore
  · simp only [Code.takesTurns, hk] at hturns
    rcases pends_step hq hnested hstep hu with hubefore | ⟨k', rest', hact, hk', hopens'⟩
    · rw [hturns.1 hopens u] at hubefore
      cases hubefore
    · -- one call does not lock both mutexes
      cases hact
      rw [hk] at hk'
      cases hk'
      simp only [Code.opens, Bool.and_eq_true, decide_eq_true_eq] at hopens hopens'
      exact hmb (hopens.1.symm.trans hopens'.1)

end Crossing

end LockScopes
