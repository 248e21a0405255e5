import BeamMP.Foundation.Observables

/-!
# Two runs of a computation

Two computations run alike from states that are related if they both return the
same answer or both throw the same exception, in states that are related again.
With a relation that leaves a secret out, a computation that runs like itself does
not let the secret out. The rules follow the ways computations are put together.
-/
namespace Noninterference

open Observables

variable {ε σ α β : Type}

/-- The same answer or the same exception, in related states; an answer meets `Q`. -/
inductive EndAlike (R : σ → σ → Prop) (Q : α → Prop) :
    EStateM.Result ε σ α → EStateM.Result ε σ α → Prop
  | ok {a : α} {s t : σ} : Q a → R s t → EndAlike R Q (.ok a s) (.ok a t)
  | error {e : ε} {s t : σ} : R s t → EndAlike R Q (.error e s) (.error e t)

/-- From related states the two computations end alike. -/
def Alike (R : σ → σ → Prop) (Q : α → Prop) (m m' : EStateM ε σ α) : Prop :=
  ∀ s t, R s t → EndAlike R Q (m s) (m' t)

/-- From related states the two computations end in related states, in whatever way. -/
def FinalAlike (R : σ → σ → Prop) (m m' : EStateM ε σ α) : Prop :=
  ∀ s t, R s t → R (final m s) (final m' t)

variable {R : σ → σ → Prop} {Q : α → Prop} {m m' : EStateM ε σ α}

theorem alike_pure {a : α} (h : Q a) : Alike R Q (pure a : EStateM ε σ α) (pure a) :=
  fun _ _ hR => .ok h hR

theorem alike_throw (e : ε) : Alike R Q (throw e : EStateM ε σ α) (throw e) :=
  fun _ _ hR => .error hR

theorem alike_modify {g : σ → σ} (h : ∀ s t, R s t → R (g s) (g t)) :
    Alike R (fun _ => True) (modify g : EStateM ε σ PUnit) (modify g) :=
  fun s t hR => .ok trivial (h s t hR)

/-- A computation that reads the state goes on in states that are related. -/
theorem alike_get_bind {k k' : σ → EStateM ε σ β} {P : β → Prop}
    (h : ∀ s t, R s t → EndAlike R P (k s s) (k' t t)) :
    Alike R P (EStateM.get >>= k) (EStateM.get >>= k') := h

theorem Alike.bind {k k' : α → EStateM ε σ β} {P : β → Prop} (hm : Alike R Q m m')
    (hk : ∀ a, Q a → Alike R P (k a) (k' a)) : Alike R P (m >>= k) (m' >>= k') := by
  intro s t hR
  have hend := hm s t hR
  change EndAlike R P (EStateM.bind m k s) (EStateM.bind m' k' t)
  unfold EStateM.bind
  generalize m s = r, m' t = r' at hend ⊢
  cases hend with
  | ok hQ hR' => exact hk _ hQ _ _ hR'
  | error hR' => exact .error hR'

theorem Alike.mono {P : α → Prop} (h : Alike R Q m m') (hP : ∀ a, Q a → P a) :
    Alike R P m m' := by
  intro s t hR
  have hend := h s t hR
  generalize m s = r, m' t = r' at hend ⊢
  cases hend with
  | ok hQ hR' => exact .ok (hP _ hQ) hR'
  | error hR' => exact .error hR'

theorem Alike.handle {handler handler' : ε → EStateM ε σ α} (hm : Alike R Q m m')
    (h : ∀ e, Alike R Q (handler e) (handler' e)) :
    Alike R Q (tryCatch m handler) (tryCatch m' handler') := by
  intro s t hR
  have hend := hm s t hR
  change EndAlike R Q (EStateM.tryCatch m handler s) (EStateM.tryCatch m' handler' t)
  unfold EStateM.tryCatch
  dsimp only
  generalize m s = r, m' t = r' at hend ⊢
  cases hend with
  | ok hQ hR' => exact .ok hQ hR'
  | error hR' => exact h _ _ _ hR'

theorem alike_forM {γ : Type} {body : γ → EStateM ε σ PUnit} {xs : List γ}
    (h : ∀ x ∈ xs, Alike R (fun _ => True) (body x) (body x)) :
    Alike R (fun _ => True) (xs.forM body) (xs.forM body) := by
  induction xs with
  | nil => exact alike_pure trivial
  | cons x xs ih =>
    refine (h x List.mem_cons_self).bind fun _ _ => ?_
    exact ih fun y hy => h y (List.mem_cons_of_mem x hy)

theorem Alike.finalAlike (h : Alike R Q m m') : FinalAlike R m m' := by
  intro s t hR
  have hend := h s t hR
  unfold final
  generalize m s = r, m' t = r' at hend ⊢
  cases hend with
  | ok _ hR' => exact hR'
  | error hR' => exact hR'

/-- What comes after the last related step may depend on the secret if it changes nothing that
is related. -/
theorem Alike.bind_finalAlike {k k' : α → EStateM ε σ β} (hm : Alike R Q m m')
    (hk : ∀ a, Q a → FinalAlike R (k a) (k' a)) : FinalAlike R (m >>= k) (m' >>= k') := by
  intro s t hR
  have hend := hm s t hR
  rw [final_bind, final_bind]
  generalize m s = r, m' t = r' at hend ⊢
  cases hend with
  | ok hQ hR' => exact hk _ hQ _ _ hR'
  | error hR' => exact hR'

theorem finalAlike_of_fixes (hm : Fixes id m) (hm' : Fixes id m') : FinalAlike R m m' := by
  intro s t hR
  have hs : final m s = s := hm s
  have ht : final m' t = t := hm' t
  rw [hs, ht]
  exact hR

theorem FinalAlike.discard (h : FinalAlike R m m') : FinalAlike R (discard m) (discard m') := by
  intro s t hR
  rw [final_discard, final_discard]
  exact h s t hR

/-- A sequence of computations each of which ends in related states. -/
theorem finalAlike_foldl {γ : Type} {body : γ → EStateM ε σ α}
    (h : ∀ x, FinalAlike R (body x) (body x)) (xs : List γ) {s t : σ} (hR : R s t) :
    R (xs.foldl (fun s x => final (body x) s) s) (xs.foldl (fun s x => final (body x) s) t) := by
  induction xs generalizing s t with
  | nil => exact hR
  | cons x xs ih => exact ih (h x s t hR)

end Noninterference
