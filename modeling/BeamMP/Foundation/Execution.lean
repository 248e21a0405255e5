import Mathlib.Logic.Basic
import Mathlib.Tactic.TypeStar

/-!
# Finite executions of a partial step function

A system is a step function `σ → α → Option σ`: the label carries every choice
the scheduler or the environment makes, and `none` means that the label is not
enabled. A guard is a condition on the state a label is taken in; `Along` says
that every step of one execution meets it. The two rules below turn a fact
about one step into a fact about whole executions.
-/
namespace Execution

variable {σ α : Type*} (step : σ → α → Option σ)

/-- Execute the labels in order, failing at the first one that is not enabled. -/
def run : σ → List α → Option σ
  | s, [] => some s
  | s, a :: as => (step s a).bind fun t => run t as

/-- Every step of the execution is taken in a state that meets the guard. -/
def Along (guard : σ → α → Prop) : σ → List α → Prop
  | _, [] => True
  | s, a :: as =>
    match step s a with
    | none => True
    | some t => guard s a ∧ Along guard t as

/-- The states an execution passes through, its first and last state included. -/
def Visits (s : σ) (as : List α) (t : σ) : Prop :=
  ∃ bs, bs <+: as ∧ run step s bs = some t

variable {step} {guard : σ → α → Prop}

@[simp] theorem run_nil (s : σ) : run step s [] = some s := rfl

theorem run_cons (s : σ) (a : α) (as : List α) :
    run step s (a :: as) = (step s a).bind fun t => run step t as := rfl

theorem run_cons_eq_some {s t : σ} {a : α} {as : List α} :
    run step s (a :: as) = some t ↔ ∃ m, step s a = some m ∧ run step m as = some t := by
  simp [run_cons, Option.bind_eq_some_iff]

instance decidableAlong [∀ s a, Decidable (guard s a)] :
    ∀ (s : σ) (as : List α), Decidable (Along step guard s as)
  | _, [] => isTrue trivial
  | s, a :: as =>
    match h : step s a with
    | none => isTrue (by simp [Along, h])
    | some t =>
      have : Decidable (Along step guard t as) := decidableAlong t as
      decidable_of_iff (guard s a ∧ Along step guard t as) (by simp [Along, h])

@[simp] theorem along_nil (s : σ) : Along step guard s [] := trivial

theorem along_cons_of_step {s t : σ} {a : α} {as : List α} (h : step s a = some t) :
    Along step guard s (a :: as) ↔ guard s a ∧ Along step guard t as := by
  simp [Along, h]

theorem Along.head {s t : σ} {a : α} {as : List α} (h : Along step guard s (a :: as))
    (hstep : step s a = some t) : guard s a := ((along_cons_of_step hstep).mp h).1

theorem Along.tail {s t : σ} {a : α} {as : List α} (h : Along step guard s (a :: as))
    (hstep : step s a = some t) : Along step guard t as := ((along_cons_of_step hstep).mp h).2

theorem Along.and {guard' : σ → α → Prop} {s : σ} {as : List α} (h : Along step guard s as)
    (h' : Along step guard' s as) : Along step (fun s a => guard s a ∧ guard' s a) s as := by
  induction as generalizing s with
  | nil => trivial
  | cons a as ih =>
    cases hs : step s a with
    | none => simp [Along, hs]
    | some t =>
      exact (along_cons_of_step hs).mpr ⟨⟨h.head hs, h'.head hs⟩, ih (h.tail hs) (h'.tail hs)⟩

theorem along_true (s : σ) (as : List α) : Along step (fun _ _ => True) s as := by
  induction as generalizing s with
  | nil => trivial
  | cons a as ih =>
    cases hs : step s a with
    | none => simp [Along, hs]
    | some t => exact (along_cons_of_step hs).mpr ⟨trivial, ih t⟩

/-- Guards that agree in all states of an invariant agree along executions. -/
theorem along_congr {guard' : σ → α → Prop} {I : σ → Prop}
    (hkeep : ∀ s a t, I s → step s a = some t → I t)
    (hiff : ∀ s a, I s → (guard s a ↔ guard' s a)) {s : σ} {as : List α} (hs : I s) :
    Along step guard s as ↔ Along step guard' s as := by
  induction as generalizing s with
  | nil => exact Iff.rfl
  | cons a as ih =>
    cases hstep : step s a with
    | none => simp [Along, hstep]
    | some t =>
      rw [along_cons_of_step hstep, along_cons_of_step hstep, hiff s a hs,
        ih (hkeep s a t hs hstep)]

/-- A guard that follows from another one in all states of an invariant which the other one
keeps. -/
theorem Along.imp_of_invariant {guard' : σ → α → Prop} {I : σ → Prop}
    (hkeep : ∀ s a t, I s → guard s a → step s a = some t → I t)
    (himp : ∀ s a, I s → guard s a → guard' s a) {s : σ} {as : List α} (hs : I s)
    (h : Along step guard s as) : Along step guard' s as := by
  induction as generalizing s with
  | nil => trivial
  | cons a as ih =>
    cases hstep : step s a with
    | none => simp [Along, hstep]
    | some t =>
      have hguard := h.head hstep
      exact (along_cons_of_step hstep).mpr
        ⟨himp s a hs hguard, ih (hkeep s a t hs hguard hstep) (h.tail hstep)⟩

/-- A condition on the labels alone holds along the execution if all labels meet it. -/
theorem along_of_forall {P : α → Prop} {s : σ} {as : List α} (h : ∀ a ∈ as, P a) :
    Along step (fun _ a => P a) s as := by
  induction as generalizing s with
  | nil => trivial
  | cons a as ih =>
    cases hs : step s a with
    | none => simp [Along, hs]
    | some t =>
      have htail : ∀ b ∈ as, P b := fun b hb => h b (List.mem_cons_of_mem _ hb)
      exact (along_cons_of_step hs).mpr ⟨h a List.mem_cons_self, ih htail⟩

/-- The run rule: what one guarded step preserves, every guarded execution preserves. -/
theorem run_invariant {I : σ → Prop}
    (hstep : ∀ s a t, I s → guard s a → step s a = some t → I t)
    {s t : σ} {as : List α} (hs : I s) (hguard : Along step guard s as)
    (hrun : run step s as = some t) : I t := by
  induction as generalizing s with
  | nil =>
    obtain rfl : s = t := by simpa using hrun
    exact hs
  | cons a as ih =>
    obtain ⟨m, hm, hrest⟩ := run_cons_eq_some.mp hrun
    exact ih (hstep s a m hs (hguard.head hm) hm) (hguard.tail hm) hrest

theorem run_invariant_of_step {I : σ → Prop}
    (hstep : ∀ s a t, I s → step s a = some t → I t)
    {s t : σ} {as : List α} (hs : I s) (hrun : run step s as = some t) : I t :=
  run_invariant (fun s a t hI _ h => hstep s a t hI h) hs (along_true s as) hrun

/-- When a step that misses the guard spoils the execution for good, the state an execution ends
in tells whether all its steps met the guard. -/
theorem along_iff_of_run {Good Bad : σ → Prop} (hdisj : ∀ s, Good s → ¬Bad s)
    (hkeep : ∀ s a t, Good s → guard s a → step s a = some t → Good t)
    (hbreak : ∀ s a t, Good s → ¬guard s a → step s a = some t → Bad t)
    (hstay : ∀ s a t, Bad s → step s a = some t → Bad t)
    {s t : σ} {as : List α} (hs : Good s) (hrun : run step s as = some t) :
    Along step guard s as ↔ Good t := by
  induction as generalizing s with
  | nil =>
    obtain rfl : s = t := by simpa using hrun
    exact ⟨fun _ => hs, fun _ => trivial⟩
  | cons a as ih =>
    obtain ⟨m, hm, hrest⟩ := run_cons_eq_some.mp hrun
    rw [along_cons_of_step hm]
    by_cases hguard : guard s a
    · rw [ih (hkeep s a m hs hguard hm) hrest]
      exact and_iff_right hguard
    · have hbad : Bad t := run_invariant_of_step hstay (hbreak s a m hs hguard hm) hrest
      exact ⟨fun h => absurd h.1 hguard, fun h => absurd hbad (hdisj t h)⟩

theorem visits_start (s : σ) (as : List α) : Visits step s as s :=
  ⟨[], List.nil_prefix, rfl⟩

theorem visits_cons {s m t : σ} {a : α} {as : List α} (hm : step s a = some m)
    (h : Visits step m as t) : Visits step s (a :: as) t := by
  obtain ⟨bs, hbs, hrun⟩ := h
  exact ⟨a :: bs, List.cons_prefix_cons.mpr ⟨rfl, hbs⟩, run_cons_eq_some.mpr ⟨m, hm, hrun⟩⟩

theorem visits_cons_iff {s t : σ} {a : α} {as : List α} :
    Visits step s (a :: as) t ↔
      t = s ∨ ∃ m, step s a = some m ∧ Visits step m as t := by
  constructor
  · rintro ⟨bs, hbs, hrun⟩
    cases bs with
    | nil => exact Or.inl (by simpa using hrun.symm)
    | cons b bs =>
      obtain ⟨rfl, htail⟩ := List.cons_prefix_cons.mp hbs
      obtain ⟨m, hm, hrest⟩ := run_cons_eq_some.mp hrun
      exact Or.inr ⟨m, hm, bs, htail, hrest⟩
  · rintro (rfl | ⟨m, hm, h⟩)
    · exact visits_start t _
    · exact visits_cons hm h

/-- When the guard is exactly what one step needs to keep `P`, an execution keeps `P`
in all its states if and only if all its steps meet the guard. -/
theorem always_iff_along {I P : σ → Prop} (hP : ∀ s, I s → P s)
    (hkeep : ∀ s a t, I s → guard s a → step s a = some t → I t)
    (hneed : ∀ s a t, I s → step s a = some t → P t → guard s a)
    {s : σ} {as : List α} (hs : I s) :
    (∀ t, Visits step s as t → P t) ↔ Along step guard s as := by
  induction as generalizing s with
  | nil =>
    refine ⟨fun _ => trivial, ?_⟩
    rintro - t ⟨bs, hbs, hrun⟩
    obtain rfl := List.prefix_nil.mp hbs
    obtain rfl : s = t := by simpa using hrun
    exact hP s hs
  | cons a as ih =>
    cases hstep : step s a with
    | none => simp [Along, hstep, visits_cons_iff, hP s hs]
    | some m =>
      rw [along_cons_of_step hstep]
      constructor
      · intro hall
        have hguard : guard s a :=
          hneed s a m hs hstep (hall m (visits_cons hstep (visits_start m as)))
        refine ⟨hguard, (ih (hkeep s a m hs hguard hstep)).mp ?_⟩
        exact fun t ht => hall t (visits_cons hstep ht)
      · rintro ⟨hguard, hrest⟩ t ht
        rcases visits_cons_iff.mp ht with rfl | ⟨m', hm', ht⟩
        · exact hP t hs
        · obtain rfl : m = m' := Option.some.inj (hstep.symm.trans hm')
          exact (ih (hkeep s a m hs hguard hstep)).mpr hrest t ht

end Execution
