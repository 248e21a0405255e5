import BeamMP.Foundation.CountedKeys
import BeamMP.Foundation.Execution
import BeamMP.Foundation.KeyedList
import Mathlib.Data.List.Sort
import Mathlib.Tactic

/-!
# Leases of curl handles

`AcquireCurl` and `ReleaseCurl` mark the handles of a pool, a `std::map` that is
walked in the order of its keys, and a `CurlLease` keeps one handle for as long
as it lives. A move takes the handle along and leaves a null handle behind.
-/
namespace BeamMP

open CountedKeys

def maxCurlPoolSize : ℕ := 128

/-- `gCurlPool`: every handle, with `true` for one that is in use. -/
abbrev CurlPool (κ : Type*) := List (κ × Bool)

namespace CurlPool

variable {κ : Type*}

def handles (pool : CurlPool κ) : List κ := pool.map Prod.fst

def inUse (pool : CurlPool κ) : List κ := (pool.filter Prod.snd).map Prod.fst

/-- The handles in use are those of a list of live leases, and the pool is within its limit. -/
structure Serves (pool : CurlPool κ) (live : List κ) : Prop where
  nodup : pool.handles.Nodup
  inUse_perm : pool.inUse.Perm live
  length_le : pool.length ≤ maxCurlPoolSize

section Marks

variable {pool : CurlPool κ} {live other : List κ} {curl : κ}

theorem mem_inUse_iff :
    curl ∈ pool.inUse ↔ (curl, true) ∈ pool := by
  simp [inUse]

theorem inUse_nodup (h : pool.handles.Nodup) : pool.inUse.Nodup :=
  h.sublist (List.filter_sublist.map Prod.fst)

theorem not_mem_inUse (h : pool.handles.Nodup) (hfree : (curl, false) ∈ pool) :
    curl ∉ pool.inUse := by
  intro hused
  have heq := List.inj_on_of_nodup_map h hfree (mem_inUse_iff.mp hused) rfl
  cases heq

theorem Serves.perm (h : pool.Serves live) (hperm : live.Perm other) : pool.Serves other where
  nodup := h.nodup
  inUse_perm := h.inUse_perm.trans hperm
  length_le := h.length_le

end Marks

variable [LinearOrder κ] (pool : CurlPool κ)

def mark (curl : κ) (used : Bool) : CurlPool κ :=
  KeyedList.replace Prod.fst curl (fun e => (e.1, used)) pool

/-- `gCurlPool[Curl] = true`. -/
def setInUse (curl : κ) : CurlPool κ :=
  if curl ∈ pool.handles then pool.mark curl true
  else pool.orderedInsert (fun e e' => e.1 ≤ e'.1) (curl, true)

/-- `AcquireCurl`, with what `curl_easy_init` would answer. -/
def acquireCurl (init : Option κ) : CurlPool κ × Option κ :=
  match pool.find? (!·.2) with
  | some (curl, _) => (pool.mark curl true, some curl)
  | none =>
    if maxCurlPoolSize ≤ pool.length then (pool, none)
    else
      match init with
      | none => (pool, none)
      | some curl => (pool.setInUse curl, some curl)

def releaseCurl : Option κ → CurlPool κ
  | none => pool
  | some curl =>
    match KeyedList.lookup Prod.fst curl pool with
    | none => pool
    | some _ => pool.mark curl false

variable {pool} {live : List κ} {curl : κ} {init : Option κ}

theorem handles_mark (used : Bool) : (pool.mark curl used).handles = pool.handles :=
  KeyedList.keys_replace Prod.fst (fun e => (e.1, used)) (fun _ => rfl) pool

theorem length_mark (used : Bool) : (pool.mark curl used).length = pool.length := by
  have h : (pool.mark curl used).handles.length = pool.handles.length :=
    congrArg List.length (handles_mark used)
  simpa [handles] using h

theorem nodup_mark (h : pool.handles.Nodup) (used : Bool) :
    (pool.mark curl used).handles.Nodup := by
  rw [handles_mark]
  exact h

theorem mem_inUse_mark (h : pool.handles.Nodup) {used : Bool} {c : κ} :
    c ∈ (pool.mark curl used).inUse ↔
      c ∈ pool.inUse ∧ c ≠ curl ∨ c = curl ∧ used = true ∧ curl ∈ pool.handles := by
  rw [mem_inUse_iff, mem_inUse_iff, mark, KeyedList.mem_replace_iff h]
  refine or_congr Iff.rfl ?_
  constructor
  · rintro ⟨e, he, rfl, heq⟩
    cases heq
    exact ⟨rfl, rfl, List.mem_map_of_mem he⟩
  · rintro ⟨rfl, rfl, hmem⟩
    obtain ⟨e, he, rfl⟩ := List.mem_map.mp hmem
    exact ⟨e, he, rfl, rfl⟩

theorem Serves.mark_true (h : pool.Serves live) (hfree : (curl, false) ∈ pool) :
    (pool.mark curl true).Serves (curl :: live) where
  nodup := nodup_mark h.nodup true
  inUse_perm := by
    have hmem : curl ∈ pool.handles := List.mem_map_of_mem hfree
    have hnew := not_mem_inUse h.nodup hfree
    refine List.Perm.trans ?_ (h.inUse_perm.cons curl)
    rw [List.perm_ext_iff_of_nodup (inUse_nodup (nodup_mark h.nodup true))
      (List.nodup_cons.mpr ⟨hnew, inUse_nodup h.nodup⟩)]
    intro c
    rw [mem_inUse_mark h.nodup, List.mem_cons]
    constructor
    · rintro (⟨hused, -⟩ | ⟨hc, -⟩)
      · exact Or.inr hused
      · exact Or.inl hc
    · rintro (hc | hused)
      · exact Or.inr ⟨hc, rfl, hmem⟩
      · exact Or.inl ⟨hused, fun hc => hnew (hc ▸ hused)⟩
  length_le := by
    rw [length_mark]
    exact h.length_le

theorem Serves.setInUse (h : pool.Serves live) (hnew : curl ∉ pool.handles)
    (hroom : pool.length < maxCurlPoolSize) : (pool.setInUse curl).Serves (curl :: live) := by
  have hperm : (pool.setInUse curl).Perm ((curl, true) :: pool) := by
    rw [CurlPool.setInUse, if_neg hnew]
    exact List.perm_orderedInsert _ _ _
  constructor
  · rw [handles, (hperm.map Prod.fst).nodup_iff]
    exact List.nodup_cons.mpr ⟨hnew, h.nodup⟩
  · exact ((hperm.filter _).map _).trans (h.inUse_perm.cons curl)
  · rw [hperm.length_eq]
    exact hroom

theorem Serves.releaseCurl (h : pool.Serves (curl :: live)) :
    (pool.releaseCurl (some curl)).Serves live := by
  have hused : curl ∈ pool.inUse := h.inUse_perm.mem_iff.mpr List.mem_cons_self
  have hnodup := h.inUse_perm.nodup (inUse_nodup h.nodup)
  have hrelease : pool.releaseCurl (some curl) = pool.mark curl false := by
    cases hlookup : KeyedList.lookup Prod.fst curl pool with
    | none =>
      have hmem : curl ∈ pool.handles := List.mem_map_of_mem (mem_inUse_iff.mp hused)
      exact absurd hmem (KeyedList.lookup_eq_none_iff.mp hlookup)
    | some e => simp only [CurlPool.releaseCurl, hlookup]
  rw [hrelease]
  constructor
  · exact nodup_mark h.nodup false
  · rw [List.perm_ext_iff_of_nodup (inUse_nodup (nodup_mark h.nodup false)) hnodup.of_cons]
    intro c
    rw [mem_inUse_mark h.nodup, h.inUse_perm.mem_iff, List.mem_cons]
    have hnot := (List.nodup_cons.mp hnodup).1
    constructor
    · rintro (⟨hc | hc, hne⟩ | ⟨-, hfalse, -⟩)
      · exact absurd hc hne
      · exact hc
      · cases hfalse
    · intro hc
      exact Or.inl ⟨Or.inr hc, fun heq => hnot (heq ▸ hc)⟩
  · rw [length_mark]
    exact h.length_le

theorem acquireCurl_eq_none_iff :
    (pool.acquireCurl init).2 = none ↔
      (∀ e ∈ pool, e.2 = true) ∧ (maxCurlPoolSize ≤ pool.length ∨ init = none) := by
  unfold acquireCurl
  cases hfind : pool.find? (!·.2) with
  | some e =>
    have hmem := List.mem_of_find?_eq_some hfind
    have hfree := List.find?_some hfind
    simp only [reduceCtorEq, false_iff, not_and]
    intro hall
    simp [hall e hmem] at hfree
  | none =>
    have hall : ∀ e ∈ pool, e.2 = true := by simpa using hfind
    rw [and_iff_right hall]
    dsimp only
    split_ifs with hfull
    · exact iff_of_true rfl (Or.inl hfull)
    · cases init <;> simp [hfull]

theorem acquireCurl_none (h : (pool.acquireCurl init).2 = none) :
    (pool.acquireCurl init).1 = pool := by
  unfold acquireCurl at h ⊢
  cases hfind : pool.find? (!·.2) with
  | some e => simp [hfind] at h
  | none =>
    simp only [hfind] at h ⊢
    split_ifs at h ⊢ with hfull
    · rfl
    · cases init with
      | none => rfl
      | some curl => cases h

theorem Serves.acquireCurl (h : pool.Serves live)
    (hinit : ∀ c, init = some c → c ∉ pool.handles)
    (hsome : (pool.acquireCurl init).2 = some curl) :
    (pool.acquireCurl init).1.Serves (curl :: live) := by
  unfold CurlPool.acquireCurl at hsome ⊢
  cases hfind : pool.find? (!·.2) with
  | some e =>
    obtain ⟨c, used⟩ := e
    have hmem := List.mem_of_find?_eq_some hfind
    obtain rfl : used = false := by simpa using List.find?_some hfind
    simp only [hfind, Option.some.injEq] at hsome ⊢
    subst hsome
    exact h.mark_true hmem
  | none =>
    simp only [hfind] at hsome ⊢
    split_ifs at hsome ⊢ with hfull
    cases init with
    | none => cases hsome
    | some c =>
      obtain rfl : c = curl := Option.some.inj hsome
      exact h.setInUse (hinit c rfl) (Nat.lt_of_not_le hfull)

end CurlPool

/-- `CurlLease`, where no handle is `nullptr`. -/
structure CurlLease (κ : Type*) where
  mHandle : Option κ := none

namespace CurlLease

variable {κ : Type*} [LinearOrder κ]

/-- The move constructor: the new lease and what is left of `other`. -/
def moveConstruct (other : CurlLease κ) : CurlLease κ × CurlLease κ :=
  ({ mHandle := other.mHandle }, { mHandle := none })

/-- `operator=` of two distinct leases: the new `*this`, the new `other` and the pool. -/
def moveAssign (lease other : CurlLease κ) (pool : CurlPool κ) :
    CurlLease κ × CurlLease κ × CurlPool κ :=
  ({ mHandle := other.mHandle }, { mHandle := none }, pool.releaseCurl lease.mHandle)

def destroy (lease : CurlLease κ) (pool : CurlPool κ) : CurlPool κ :=
  pool.releaseCurl lease.mHandle

end CurlLease

structure CurlState (γ κ : Type*) where
  pool : CurlPool κ
  leases : AList fun _ : γ => CurlLease κ

/-- What the program does with leases; `g` and `other` are the addresses of lease objects, and
`init` is what `curl_easy_init` answers if it is called. -/
inductive LeaseAction (γ κ : Type*)
  | construct (g : γ) (init : Option κ)
  | moveConstruct (g other : γ)
  | moveAssign (g other : γ)
  | destroy (g : γ)

variable {γ κ : Type*}

def CurlState.start (γ κ : Type*) : CurlState γ κ where
  pool := []
  leases := ∅

namespace CurlState

def live (s : CurlState γ κ) : List κ := holders CurlLease.mHandle s.leases

def Exclusive (s : CurlState γ κ) : Prop := s.pool.Serves s.live

theorem exclusive_start : (start γ κ).Exclusive where
  nodup := List.nodup_nil
  inUse_perm := List.Perm.refl _
  length_le := Nat.zero_le _

variable [DecidableEq γ] [LinearOrder κ]

/-- A new lease object is put where there is none, and `curl_easy_init` makes no handle that is
in the pool. -/
def step (s : CurlState γ κ) : LeaseAction γ κ → Option (CurlState γ κ)
  | .construct g init =>
    if g ∈ s.leases ∨ ∃ c ∈ init, c ∈ s.pool.handles then none
    else
      let acquired := s.pool.acquireCurl init
      some ⟨acquired.1, s.leases.insert g { mHandle := acquired.2 }⟩
  | .moveConstruct g other =>
    if g ∈ s.leases then none
    else
      match s.leases.lookup other with
      | none => none
      | some b =>
        let moved := b.moveConstruct
        some { s with leases := (s.leases.insert g moved.1).insert other moved.2 }
  | .moveAssign g other =>
    match s.leases.lookup g, s.leases.lookup other with
    | some a, some b =>
      if g = other then some s
      else
        let moved := a.moveAssign b s.pool
        some ⟨moved.2.2, (s.leases.insert g moved.1).insert other moved.2.1⟩
    | _, _ => none
  | .destroy g =>
    match s.leases.lookup g with
    | none => none
    | some a => some ⟨a.destroy s.pool, s.leases.erase g⟩

variable {s t : CurlState γ κ} {a : LeaseAction γ κ}

/-- What a lease held is free again when the lease is out of the way. -/
theorem Exclusive.release {g : γ} {lease : CurlLease κ} (h : s.Exclusive)
    (hg : s.leases.lookup g = some lease) :
    (s.pool.releaseCurl lease.mHandle).Serves
      (holders CurlLease.mHandle (s.leases.erase g)) := by
  have hlive := h.perm (holders_of_lookup hg)
  cases hhandle : lease.mHandle with
  | none => simpa [hhandle, CurlPool.releaseCurl] using hlive
  | some curl =>
    rw [hhandle] at hlive
    exact hlive.releaseCurl

theorem Exclusive.construct {g : γ} {init : Option κ} (h : s.Exclusive)
    (hstep : s.step (.construct g init) = some t) : t.Exclusive := by
  obtain ⟨hguard, heq⟩ := Option.ite_none_left_eq_some.mp hstep
  obtain ⟨hg, hinit⟩ := not_or.mp hguard
  cases heq
  unfold Exclusive live
  rw [holders_insert, erase_of_not_mem hg]
  cases hacquired : (s.pool.acquireCurl init).2 with
  | none =>
    rw [CurlPool.acquireCurl_none hacquired]
    exact h
  | some curl =>
    exact CurlPool.Serves.acquireCurl h (fun c hc hmem => hinit ⟨c, hc, hmem⟩) hacquired

theorem exclusive_step (h : s.Exclusive) (hstep : s.step a = some t) : t.Exclusive := by
  cases a with
  | construct g init => exact h.construct hstep
  | moveConstruct g other =>
    simp only [step] at hstep
    split_ifs at hstep with hg
    cases hother : s.leases.lookup other with
    | none => simp [hother] at hstep
    | some b =>
      have hne : other ≠ g := by
        rintro rfl
        exact hg (AList.lookup_isSome.mp (Option.isSome_of_eq_some hother))
      have hmove := holders_move (f := CurlLease.mHandle) (x := b.moveConstruct.1)
        (z := b.moveConstruct.2) hne hother rfl rfl
      rw [erase_of_not_mem hg] at hmove
      simp only [hother, Option.some.injEq] at hstep
      cases hstep
      exact h.perm hmove.symm
  | moveAssign g other =>
    simp only [step] at hstep
    cases hg : s.leases.lookup g with
    | none => simp [hg] at hstep
    | some x =>
      cases hother : s.leases.lookup other with
      | none => simp [hg, hother] at hstep
      | some b =>
        simp only [hg, hother] at hstep
        split_ifs at hstep with heq
        · cases hstep
          exact h
        · cases hstep
          have hmove := holders_move (f := CurlLease.mHandle) (x := (x.moveAssign b s.pool).1)
            (z := (x.moveAssign b s.pool).2.1) (Ne.symm heq) hother rfl rfl
          exact (h.release hg).perm hmove.symm
  | destroy g =>
    simp only [step] at hstep
    cases hg : s.leases.lookup g with
    | none => simp [hg] at hstep
    | some x =>
      simp only [hg, Option.some.injEq] at hstep
      cases hstep
      exact h.release hg

/-- In every state that any sequence of operations on leases reaches, no handle is held twice,
the handles in use are those that are held, the pool keeps its limit, and there is no handle for a
caller only if all are in use and none can be added. -/
theorem curl_handles_leased_exclusively (as : List (LeaseAction γ κ)) (s : CurlState γ κ)
    (hrun : Execution.run step (start γ κ) as = some s) :
    (∀ g g' curl, s.leases.lookup g = some ⟨some curl⟩ → s.leases.lookup g' = some ⟨some curl⟩ →
      g = g') ∧
    (∀ curl, (curl, true) ∈ s.pool ↔ ∃ g, s.leases.lookup g = some ⟨some curl⟩) ∧
    s.pool.length ≤ maxCurlPoolSize ∧
    ∀ init, (s.pool.acquireCurl init).2 = none ↔
      (∀ e ∈ s.pool, e.2 = true) ∧ (s.pool.length = maxCurlPoolSize ∨ init = none) := by
  have h : s.Exclusive := Execution.run_invariant_of_step
    (fun s a t hs hstep => exclusive_step hs hstep) exclusive_start hrun
  have hnodup : s.live.Nodup := h.inUse_perm.nodup (CurlPool.inUse_nodup h.nodup)
  refine ⟨?_, ?_, h.length_le, ?_⟩
  · intro g g' curl hg hg'
    exact eq_of_nodup_holders hnodup hg hg' rfl rfl
  · intro curl
    rw [← CurlPool.mem_inUse_iff, h.inUse_perm.mem_iff, live, mem_holders_iff]
    constructor
    · rintro ⟨g, ⟨handle⟩, hg, rfl⟩
      exact ⟨g, hg⟩
    · rintro ⟨g, hg⟩
      exact ⟨g, _, hg, rfl⟩
  · intro init
    rw [CurlPool.acquireCurl_eq_none_iff, h.length_le.ge_iff_eq]

/-- A lease is moved onto a live one, whose handle the next lease gets. -/
theorem leases_after_overwrite :
    ∃ s : CurlState ℕ ℕ, Execution.run step (start ℕ ℕ)
        [.construct 0 (some 7), .construct 1 (some 5), .moveAssign 0 1, .moveAssign 0 0,
          .construct 2 none, .moveConstruct 3 2, .destroy 1] = some s ∧
      s.pool.length ≤ maxCurlPoolSize :=
  ⟨_, rfl, (curl_handles_leased_exclusively
    [.construct 0 (some 7), .construct 1 (some 5), .moveAssign 0 1, .moveAssign 0 0,
      .construct 2 none, .moveConstruct 3 2, .destroy 1] _ rfl).2.2.1⟩

end CurlState

end BeamMP
