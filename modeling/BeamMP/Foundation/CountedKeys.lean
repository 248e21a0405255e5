import Mathlib.Data.List.AList
import Mathlib.Tactic.Common

/-!
# Counting the holders of keys

A map from keys to counts stands for a list of holders when it has exactly the
keys that are held, each with the number of its holders. A store of objects,
each of which holds one key or none, gives such a list. Adding an object to the
store adds its key to the list, and taking one out takes its key out.
-/
namespace CountedKeys

section Counts

variable {κ : Type*} [DecidableEq κ]

/-- Insert the key with that count unless it is there already. -/
def tryEmplace (k : κ) (n : ℕ) (counts : AList fun _ : κ => ℕ) : AList fun _ : κ => ℕ :=
  if k ∈ counts then counts else counts.insert k n

/-- The count of a key, where a key that is not there counts zero. -/
def value (counts : AList fun _ : κ => ℕ) (k : κ) : ℕ := (counts.lookup k).getD 0

def increment (k : κ) (counts : AList fun _ : κ => ℕ) : AList fun _ : κ => ℕ :=
  counts.insert k (value counts k + 1)

/-- Take one off the count of a key that is there, and drop the key at zero. -/
def decrement (k : κ) (counts : AList fun _ : κ => ℕ) : AList fun _ : κ => ℕ :=
  match counts.lookup k with
  | none => counts
  | some n => if n - 1 = 0 then counts.erase k else counts.insert k (n - 1)

/-- The number of holders of a key. -/
def holding (holders : List κ) (k : κ) : ℕ := holders.count k

/-- The map has exactly the keys of the holders, each with the number of its holders. -/
def Counts (counts : AList fun _ : κ => ℕ) (holders : List κ) : Prop :=
  ∀ k, counts.lookup k = if k ∈ holders then some (holding holders k) else none

variable {counts : AList fun _ : κ => ℕ} {holders other : List κ} {k j : κ} {n : ℕ}

@[simp] theorem holding_cons_self : holding (k :: holders) k = holding holders k + 1 :=
  List.count_cons_self

theorem holding_cons_of_ne (h : j ≠ k) : holding (k :: holders) j = holding holders j :=
  List.count_cons_of_ne (Ne.symm h)

theorem holding_le_cons : holding holders j ≤ holding (k :: holders) j :=
  List.count_le_count_cons

theorem holding_pos_iff : 0 < holding holders k ↔ k ∈ holders := List.count_pos_iff

theorem holding_eq_zero_iff : holding holders k = 0 ↔ k ∉ holders := List.count_eq_zero

theorem holding_perm (h : holders.Perm other) : holding holders k = holding other k :=
  h.count_eq k

theorem counts_empty : Counts (∅ : AList fun _ : κ => ℕ) [] := by
  intro k
  simp

theorem Counts.lookup_eq_some_iff (h : Counts counts holders) :
    counts.lookup k = some n ↔ k ∈ holders ∧ holding holders k = n := by
  rw [h k]
  simp

theorem Counts.perm (h : Counts counts holders) (hperm : holders.Perm other) :
    Counts counts other := by
  intro k
  rw [h k, holding_perm hperm]
  simp only [hperm.mem_iff]

theorem Counts.value_eq (h : Counts counts holders) (k : κ) :
    value counts k = holding holders k := by
  rw [value, h k]
  split_ifs with hk
  · rfl
  · exact (holding_eq_zero_iff.mpr hk).symm

theorem value_tryEmplace_zero (k j : κ) (counts : AList fun _ : κ => ℕ) :
    value (tryEmplace k 0 counts) j = value counts j := by
  unfold tryEmplace
  split_ifs with hk
  · rfl
  · by_cases hj : j = k
    · have hnone : counts.lookup k = none := AList.lookup_eq_none.mpr hk
      subst hj
      simp [value, hnone]
    · simp [value, AList.lookup_insert_ne hj]

theorem lookup_tryEmplace_of_ne (h : j ≠ k) :
    (tryEmplace k n counts).lookup j = counts.lookup j := by
  unfold tryEmplace
  split_ifs with hk
  · rfl
  · exact AList.lookup_insert_ne h

/-- What a map that counts says of another key than the one a holder is added for. -/
theorem lookup_cons_of_ne (h : j ≠ k) :
    (if j ∈ k :: holders then some (holding (k :: holders) j) else none) =
      if j ∈ holders then some (holding holders j) else none := by
  have hmem : j ∈ k :: holders ↔ j ∈ holders := by simp [h]
  simp only [hmem, holding_cons_of_ne h]

theorem Counts.cons (h : Counts counts holders) (k : κ) :
    Counts (increment k (tryEmplace k 0 counts)) (k :: holders) := by
  intro j
  by_cases hj : j = k
  · have hvalue : value (tryEmplace k 0 counts) k = holding holders k := by
      rw [value_tryEmplace_zero, h.value_eq]
    subst hj
    simp [increment, hvalue]
  · rw [increment, AList.lookup_insert_ne hj, lookup_tryEmplace_of_ne hj, lookup_cons_of_ne hj]
    exact h j

theorem Counts.tail (h : Counts counts (k :: holders)) : Counts (decrement k counts) holders := by
  have hk : counts.lookup k = some (holding holders k + 1) := by
    rw [h k]
    simp
  intro j
  by_cases hj : j = k
  · subst hj
    simp only [decrement, hk, Nat.add_sub_cancel]
    by_cases hzero : holding holders j = 0
    · simp [hzero, holding_eq_zero_iff.mp hzero]
    · simp [hzero, holding_pos_iff.mp (Nat.pos_of_ne_zero hzero)]
  · have hold := h j
    rw [lookup_cons_of_ne hj] at hold
    rw [← hold]
    simp only [decrement, hk, Nat.add_sub_cancel]
    by_cases hzero : holding holders k = 0
    · rw [if_pos hzero, AList.lookup_erase_ne hj]
    · rw [if_neg hzero, AList.lookup_insert_ne hj]

end Counts

section Store

variable {κ γ α : Type*} (f : α → Option κ)

/-- The keys held by the objects of a store. -/
def holders (store : AList fun _ : γ => α) : List κ :=
  store.entries.filterMap fun e => f e.2

variable {f} {store : AList fun _ : γ => α} {g : γ} {a : α}

@[simp] theorem holders_empty : holders f (∅ : AList fun _ : γ => α) = [] := rfl

variable [DecidableEq γ]

theorem holders_insert (g : γ) (a : α) (store : AList fun _ : γ => α) :
    holders f (store.insert g a) = (f a).toList ++ holders f (store.erase g) := by
  have herase : (store.erase g).entries = List.kerase g store.entries := rfl
  unfold holders
  rw [AList.entries_insert, List.filterMap_cons, herase]
  cases h : f a <;> simp

theorem erase_of_not_mem (h : g ∉ store) : store.erase g = store := by
  apply AList.ext
  exact List.kerase_of_notMem_keys h

theorem holders_of_lookup (h : store.lookup g = some a) :
    (holders f store).Perm ((f a).toList ++ holders f (store.erase g)) := by
  have hmem : g ∈ store.entries.keys := AList.lookup_isSome.mp (by simp [h])
  obtain ⟨b, l₁, l₂, hnot, heq, herase⟩ := List.exists_of_kerase hmem
  have hb : b = a := by
    have hin : (⟨g, b⟩ : Sigma fun _ : γ => α) ∈ store.entries := by simp [heq]
    have hlook : store.lookup g = some b := AList.mem_lookup_iff.mpr hin
    exact Option.some.inj (hlook.symm.trans h)
  subst hb
  have hrest : holders f (store.erase g) =
      (l₁ ++ l₂).filterMap fun e => f e.2 := by
    rw [← herase]
    rfl
  rw [hrest, holders, heq, List.filterMap_append, List.filterMap_append, List.filterMap_cons]
  cases f b with
  | none => simp
  | some k => exact List.perm_middle

theorem mem_holders_iff {k : κ} :
    k ∈ holders f store ↔ ∃ g a, store.lookup g = some a ∧ f a = some k := by
  constructor
  · intro h
    obtain ⟨⟨g, a⟩, hmem, ha⟩ := List.mem_filterMap.mp h
    exact ⟨g, a, AList.mem_lookup_iff.mpr hmem, ha⟩
  · rintro ⟨g, a, hlookup, ha⟩
    rw [(holders_of_lookup hlookup).mem_iff]
    simp [ha]

/-- Where no key is held twice, a key tells the object that holds it. -/
theorem eq_of_nodup_holders {g' : γ} {b : α} {k : κ} (hnodup : (holders f store).Nodup)
    (hg : store.lookup g = some a) (hg' : store.lookup g' = some b)
    (ha : f a = some k) (hb : f b = some k) : g = g' := by
  by_contra hne
  have hout := (holders_of_lookup hg).nodup hnodup
  have hstill : (store.erase g).lookup g' = some b := by
    rw [AList.lookup_erase_ne (Ne.symm hne), hg']
  rw [ha, Option.toList_some, List.singleton_append, List.nodup_cons] at hout
  exact hout.1 (mem_holders_iff.mpr ⟨g', b, hstill, hb⟩)

/-- When an object takes over the key of another one, only its own old key is gone. -/
theorem holders_move {other : γ} {x y z : α} (hne : other ≠ g)
    (hother : store.lookup other = some y) (hx : f x = f y) (hz : f z = none) :
    (holders f ((store.insert g x).insert other z)).Perm (holders f (store.erase g)) := by
  have hlookup : (store.insert g x).lookup other = some y := by
    rw [AList.lookup_insert_ne hne, hother]
  have hout := holders_of_lookup (f := f) hlookup
  rw [holders_insert, hx] at hout
  rw [holders_insert, hz]
  exact ((List.perm_append_left_iff _).mp hout).symm

end Store
end CountedKeys
