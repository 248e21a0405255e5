import Mathlib.Tactic.Common
import Mathlib.Tactic.TypeStar

/-!
# What a computation leaves alone

A handler is a computation with a state and exceptions, and keeps the changes it
has made when it throws. An observation is a function of the state. A computation
fixes an observation if its value is the same before and after, however the
computation ends. The rules below follow the ways computations are put together.
-/
namespace Observables

variable {ε σ α β : Type} {ω ω' : Type*}

/-- The state in which a computation returns or throws. -/
def final (m : EStateM ε σ α) (s : σ) : σ :=
  match m s with
  | .ok _ t => t
  | .error _ t => t

/-- The observation has the same value before and after the computation. -/
def Fixes (f : σ → ω) (m : EStateM ε σ α) : Prop := ∀ s, f (final m s) = f s

@[simp] theorem final_pure (a : α) (s : σ) : final (pure a : EStateM ε σ α) s = s := rfl

@[simp] theorem final_throw (e : ε) (s : σ) : final (throw e : EStateM ε σ α) s = s := rfl

theorem final_bind (m : EStateM ε σ α) (k : α → EStateM ε σ β) (s : σ) :
    final (m >>= k) s =
      match m s with
      | .ok a t => final (k a) t
      | .error _ t => t := by
  have hbind : (m >>= k) s = EStateM.bind m k s := rfl
  unfold final
  rw [hbind, EStateM.bind]
  cases m s with
  | ok a t => rfl
  | error e t => rfl

variable {f : σ → ω} {m : EStateM ε σ α}

theorem final_discard (m : EStateM ε σ α) (s : σ) : final (discard m) s = final m s := by
  simp only [final, discard, Functor.mapConst, EStateM.map, Function.comp]
  cases m s with
  | ok a t => rfl
  | error e t => rfl

theorem fixes_pure (a : α) : Fixes f (pure a : EStateM ε σ α) := fun _ => rfl

theorem fixes_throw (e : ε) : Fixes f (throw e : EStateM ε σ α) := fun _ => rfl

theorem fixes_get : Fixes f (get : EStateM ε σ σ) := fun _ => rfl

theorem fixes_modify {g : σ → σ} (h : ∀ s, f (g s) = f s) :
    Fixes f (modify g : EStateM ε σ PUnit) := h

theorem Fixes.bind {k : α → EStateM ε σ β} (hm : Fixes f m) (hk : ∀ a, Fixes f (k a)) :
    Fixes f (m >>= k) := by
  intro s
  rw [final_bind]
  have hs : f (final m s) = f s := hm s
  unfold final at hs
  cases h : m s with
  | ok a t =>
    rw [h] at hs
    exact (hk a t).trans hs
  | error e t =>
    rw [h] at hs
    exact hs

/-- A computation that reads the state before it goes on. -/
theorem fixes_get_bind {k : σ → EStateM ε σ β} (hk : ∀ s, Fixes f (k s)) :
    Fixes f (get >>= k) := fixes_get.bind hk

theorem fixes_forM_of_mem {γ : Type} {body : γ → EStateM ε σ PUnit} {xs : List γ}
    (h : ∀ x ∈ xs, Fixes f (body x)) : Fixes f (xs.forM body) := by
  induction xs with
  | nil => exact fixes_pure PUnit.unit
  | cons x xs ih =>
    refine (h x List.mem_cons_self).bind fun _ => ?_
    exact ih fun y hy => h y (List.mem_cons_of_mem x hy)

theorem fixes_forM {γ : Type} {body : γ → EStateM ε σ PUnit} (h : ∀ x, Fixes f (body x))
    (xs : List γ) : Fixes f (xs.forM body) := fixes_forM_of_mem fun x _ => h x

theorem Fixes.map (g : ω → ω') (h : Fixes f m) : Fixes (fun s => g (f s)) m :=
  fun s => congrArg g (h s)

theorem Fixes.discard (h : Fixes f m) : Fixes f (discard m) := by
  intro s
  rw [final_discard]
  exact h s

/-- An exception is handled in the state it was thrown in; a handler that fixes the observation
does not show. -/
theorem final_tryCatch {handler : ε → EStateM ε σ α} (hhandler : ∀ e, Fixes f (handler e)) (s : σ) :
    f (final (tryCatch m handler) s) = f (final m s) := by
  unfold final
  simp only [tryCatch, tryCatchThe, MonadExceptOf.tryCatch, EStateM.tryCatch]
  cases m s with
  | ok a t => rfl
  | error e t => exact hhandler e t

theorem Fixes.tryCatch {handler : ε → EStateM ε σ α} (hm : Fixes f m)
    (hhandler : ∀ e, Fixes f (handler e)) : Fixes f (tryCatch m handler) :=
  fun s => (final_tryCatch hhandler s).trans (hm s)

section Moves

/-- The computation returns from every state. -/
def Returns (m : EStateM ε σ α) : Prop := ∀ s, ∃ a t, m s = .ok a t

/-- From a state with a given observation the computation returns, and what it returns and
the observation of the state it ends in are related. -/
def Moves (f : σ → ω) (v : ω) (m : EStateM ε σ α) (Q : α → ω → Prop) : Prop :=
  ∀ s, f s = v → ∃ a t, m s = .ok a t ∧ Q a (f t)

/-- Whether the computation throws. -/
def threw (m : EStateM ε σ α) (s : σ) : Bool :=
  match m s with
  | .ok _ _ => false
  | .error _ _ => true

/-- From a state with a given observation the computation ends in one of the ways that `R`
allows, where it may also throw. -/
def Ends (f : σ → ω) (v : ω) (m : EStateM ε σ α) (R : Bool → ω → Prop) : Prop :=
  ∀ s, f s = v → R (threw m s) (f (final m s))

theorem bind_of_ok {k : α → EStateM ε σ β} {s t : σ} {a : α} (h : m s = .ok a t) :
    (m >>= k) s = k a t := by
  have hbind : (m >>= k) s = EStateM.bind m k s := rfl
  rw [hbind, EStateM.bind, h]

theorem returns_pure (a : α) : Returns (pure a : EStateM ε σ α) := fun s => ⟨a, s, rfl⟩

theorem returns_get : Returns (get : EStateM ε σ σ) := fun s => ⟨s, s, rfl⟩

theorem returns_modify (g : σ → σ) : Returns (modify g : EStateM ε σ PUnit) :=
  fun s => ⟨PUnit.unit, g s, rfl⟩

theorem Returns.bind {k : α → EStateM ε σ β} (hm : Returns m) (hk : ∀ a, Returns (k a)) :
    Returns (m >>= k) := by
  intro s
  obtain ⟨a, t, ha⟩ := hm s
  rw [bind_of_ok ha]
  exact hk a t

theorem returns_forM {γ : Type} {body : γ → EStateM ε σ PUnit} (h : ∀ x, Returns (body x))
    (xs : List γ) : Returns (xs.forM body) := by
  induction xs with
  | nil => exact returns_pure PUnit.unit
  | cons x xs ih => exact (h x).bind fun _ => ih

theorem Returns.not_threw (h : Returns m) (s : σ) : threw m s = false := by
  obtain ⟨a, t, ha⟩ := h s
  unfold threw
  rw [ha]

theorem threw_get_bind (k : σ → EStateM ε σ β) (s : σ) :
    threw (EStateM.get >>= k) s = threw (k s) s := rfl

/-- A computation that returns and fixes the observation does not move it. -/
theorem Returns.moves {v : ω} (h : Returns m) (hf : Fixes f m) :
    Moves f v m fun _ w => w = v := by
  intro s hs
  obtain ⟨a, t, ha⟩ := h s
  refine ⟨a, t, ha, ?_⟩
  have hfinal : f (final m s) = f s := hf s
  unfold final at hfinal
  rw [ha] at hfinal
  exact hfinal.trans hs

variable {v : ω} {Q : α → ω → Prop}

theorem moves_pure {a : α} (h : Q a v) : Moves f v (pure a : EStateM ε σ α) Q :=
  fun s hs => ⟨a, s, rfl, hs ▸ h⟩

theorem moves_modify {g : σ → σ} {P : ω → Prop} (h : ∀ s, f s = v → P (f (g s))) :
    Moves f v (modify g : EStateM ε σ PUnit) fun _ => P :=
  fun s hs => ⟨PUnit.unit, g s, rfl, h s hs⟩

theorem Moves.bind {k : α → EStateM ε σ β} {R : β → ω → Prop} (hm : Moves f v m Q)
    (hk : ∀ a w, Q a w → Moves f w (k a) R) : Moves f v (m >>= k) R := by
  intro s hs
  obtain ⟨a, t, ha, hQ⟩ := hm s hs
  rw [bind_of_ok ha]
  exact hk a (f t) hQ t rfl

variable {R : Bool → ω → Prop}

theorem ends_pure (a : α) (h : R false v) : Ends f v (pure a : EStateM ε σ α) R :=
  fun _ hs => hs ▸ h

theorem ends_throw (e : ε) (h : R true v) : Ends f v (throw e : EStateM ε σ α) R :=
  fun _ hs => hs ▸ h

theorem ends_get_bind {k : σ → EStateM ε σ β} (h : ∀ s, f s = v → Ends f v (k s) R) :
    Ends f v (EStateM.get >>= k) R := fun s hs => h s hs s hs

theorem Ends.mono {R' : Bool → ω → Prop} (h : Ends f v m R) (hR : ∀ b w, R b w → R' b w) :
    Ends f v m R' := fun s hs => hR _ _ (h s hs)

theorem Moves.ends (hm : Moves f v m Q) (hQ : ∀ a w, Q a w → R false w) : Ends f v m R := by
  intro s hs
  obtain ⟨a, t, ha, h⟩ := hm s hs
  unfold threw final
  rw [ha]
  exact hQ a (f t) h

theorem Moves.bind_ends {k : α → EStateM ε σ β} (hm : Moves f v m Q)
    (hk : ∀ a w, Q a w → Ends f w (k a) R) : Ends f v (m >>= k) R := by
  intro s hs
  obtain ⟨a, t, ha, hQ⟩ := hm s hs
  unfold threw final
  rw [bind_of_ok ha]
  exact hk a (f t) hQ t rfl

theorem final_bind_of_threw {k : α → EStateM ε σ β} {s : σ} (h : threw m s = true) :
    threw (m >>= k) s = true ∧ final (m >>= k) s = final m s := by
  have hbind : (m >>= k) s = EStateM.bind m k s := rfl
  unfold threw at h
  unfold threw final
  rw [hbind, EStateM.bind]
  cases hm : m s with
  | ok a t =>
    rw [hm] at h
    cases h
  | error e t => exact ⟨rfl, rfl⟩

theorem exists_ok_of_not_threw {s : σ} (h : threw m s = false) : ∃ a, m s = .ok a (final m s) := by
  unfold threw at h
  unfold final
  cases hm : m s with
  | ok a t => exact ⟨a, rfl⟩
  | error e t =>
    rw [hm] at h
    cases h

theorem bind_of_not_threw (k : α → EStateM ε σ β) {s : σ} (h : threw m s = false) :
    ∃ a, threw (m >>= k) s = threw (k a) (final m s) ∧
      final (m >>= k) s = final (k a) (final m s) := by
  obtain ⟨a, ha⟩ := exists_ok_of_not_threw h
  refine ⟨a, ?_, ?_⟩
  · unfold threw
    rw [bind_of_ok ha]
  · rw [final_bind, ha]

/-- A computation after which nothing observed happens may throw. -/
theorem Ends.bind_fixes {k : α → EStateM ε σ β} (hm : Ends f v m R)
    (hlate : ∀ w, R false w → R true w) (hk : ∀ a, Fixes f (k a)) : Ends f v (m >>= k) R := by
  intro s hs
  have hend := hm s hs
  cases hthrew : threw m s with
  | true =>
    obtain ⟨hthrew', hfinal'⟩ := final_bind_of_threw (k := k) hthrew
    rw [hthrew] at hend
    rw [hthrew', hfinal']
    exact hend
  | false =>
    obtain ⟨a, hthrew', hfinal'⟩ := bind_of_not_threw k hthrew
    rw [hthrew] at hend
    rw [hthrew', hfinal', hk a]
    cases threw (k a) (final m s) with
    | true => exact hlate _ hend
    | false => exact hend

section Loops

variable {γ : Type} {body : γ → EStateM ε σ PUnit} {before after : List γ} {x : γ} {s : σ}

theorem forM_split :
    (before ++ x :: after).forM body = before.forM body >>= fun _ => (x :: after).forM body :=
  List.forM_append

theorem forM_cons_of_threw (xs : List γ) (h : threw (body x) s = true) :
    threw ((x :: xs).forM body) s = true ∧
      final ((x :: xs).forM body) s = final (body x) s := final_bind_of_threw h

theorem forM_cons_of_not_threw (xs : List γ) (h : threw (body x) s = false) :
    threw ((x :: xs).forM body) s = threw (xs.forM body) (final (body x) s) ∧
      final ((x :: xs).forM body) s = final (xs.forM body) (final (body x) s) :=
  (bind_of_not_threw (fun _ => xs.forM body) h).elim fun _ hrest => hrest

theorem forM_of_threw (h : threw (before.forM body) s = true) :
    threw ((before ++ x :: after).forM body) s = true ∧
      final ((before ++ x :: after).forM body) s = final (before.forM body) s := by
  rw [forM_split]
  exact final_bind_of_threw h

/-- A loop in which only one element has an effect on the observation, and that gets to it. -/
theorem ends_forM (hs : f s = v) (hbefore : ∀ y ∈ before, Fixes f (body y))
    (hx : Ends f v (body x) R) (hafter : ∀ y ∈ after, Fixes f (body y))
    (hlate : ∀ w, R false w → R true w) (hreturns : threw (before.forM body) s = false) :
    R (threw ((before ++ x :: after).forM body) s)
      (f (final ((before ++ x :: after).forM body) s)) := by
  have hrest : Ends f v ((x :: after).forM body) R :=
    hx.bind_fixes hlate fun _ => fixes_forM_of_mem hafter
  have hstart : f (final (before.forM body) s) = v := (fixes_forM_of_mem hbefore s).trans hs
  obtain ⟨a, ha⟩ := exists_ok_of_not_threw hreturns
  have hend := hrest _ hstart
  unfold threw final at hend ⊢
  rw [forM_split, bind_of_ok ha]
  exact hend

end Loops

end Moves

end Observables
