import Mathlib.Data.List.Nodup
import Mathlib.Tactic.Common

/-!
# Lists searched by a key

A list whose entries carry a key, with the three operations of code that walks
it to the first entry of a given key: look it up, replace it, remove it. Where
the keys are distinct these are the operations of a finite map.
-/
namespace KeyedList

variable {α κ : Type*} [DecidableEq κ] (key : α → κ)

/-- The first entry of that key. -/
def lookup (k : κ) (entries : List α) : Option α := entries.find? (fun x => key x = k)

/-- Apply a function to the first entry of that key. -/
def replace (k : κ) (f : α → α) : List α → List α
  | [] => []
  | x :: xs => if key x = k then f x :: xs else x :: replace k f xs

/-- Remove the first entry of that key. -/
def remove (k : κ) (entries : List α) : List α := entries.eraseP (fun x => key x = k)

/-- Apply a function to the first entry of that key, or to a new entry at the end. -/
def upsert (k : κ) (new : α) (f : α → α) (entries : List α) : List α :=
  if k ∈ entries.map key then replace key k f entries else entries ++ [f new]

variable {key} {k : κ} {entries : List α}

theorem lookup_eq_none_iff : lookup key k entries = none ↔ k ∉ entries.map key := by
  simp [lookup, List.find?_eq_none]

theorem mem_of_lookup {x : α} (h : lookup key k entries = some x) : x ∈ entries :=
  List.mem_of_find?_eq_some h

theorem key_of_lookup {x : α} (h : lookup key k entries = some x) : key x = k := by
  simpa using List.find?_some h

theorem lookup_cons (x : α) (xs : List α) :
    lookup key k (x :: xs) = if key x = k then some x else lookup key k xs := by
  simp only [lookup, List.find?_cons]
  split_ifs with h <;> simp [h]

theorem lookup_replace {f : α → α} (hf : ∀ x, key (f x) = key x) (entries : List α) :
    lookup key k (replace key k f entries) = (lookup key k entries).map f := by
  induction entries with
  | nil => rfl
  | cons x xs ih =>
    unfold replace
    rw [lookup_cons]
    split_ifs with h
    · simp [lookup_cons, hf, h]
    · simp [lookup_cons, h, ih]

theorem lookup_replace_of_ne {f : α → α} {j : κ} (hjk : j ≠ k) (hf : ∀ x, key (f x) = key x)
    (entries : List α) : lookup key j (replace key k f entries) = lookup key j entries := by
  induction entries with
  | nil => rfl
  | cons x xs ih =>
    unfold replace
    split_ifs with h
    · have hx : key x ≠ j := h ▸ Ne.symm hjk
      rw [lookup_cons, lookup_cons, hf, if_neg hx, if_neg hx]
    · rw [lookup_cons, lookup_cons, ih]

theorem lookup_append (xs ys : List α) :
    lookup key k (xs ++ ys) = (lookup key k xs).or (lookup key k ys) := List.find?_append

theorem lookup_upsert {f : α → α} {new : α} (hf : ∀ x, key (f x) = key x) (hnew : key new = k) :
    lookup key k (upsert key k new f entries) = some (f ((lookup key k entries).getD new)) := by
  unfold upsert
  split_ifs with h
  · cases hlookup : lookup key k entries with
    | none => exact absurd h (lookup_eq_none_iff.mp hlookup)
    | some x => rw [lookup_replace hf, hlookup, Option.map_some, Option.getD_some]
  · rw [lookup_append, lookup_eq_none_iff.mpr h, lookup_cons, hf, if_pos hnew]
    rfl

theorem lookup_upsert_of_ne {f : α → α} {new : α} {j : κ} (hjk : j ≠ k)
    (hf : ∀ x, key (f x) = key x) (hnew : key new = k) :
    lookup key j (upsert key k new f entries) = lookup key j entries := by
  unfold upsert
  split_ifs with h
  · exact lookup_replace_of_ne hjk hf entries
  · rw [lookup_append, lookup_cons, hf, hnew, if_neg (Ne.symm hjk)]
    exact Option.or_none

theorem keys_replace (key : α → κ) (f : α → α) (hf : ∀ x, key (f x) = key x)
    (entries : List α) : (replace key k f entries).map key = entries.map key := by
  induction entries with
  | nil => rfl
  | cons x xs ih =>
    unfold replace
    split_ifs with h
    · simp [hf]
    · simp [ih]

theorem mem_replace_iff {f : α → α} (hnodup : (entries.map key).Nodup) {y : α} :
    y ∈ replace key k f entries ↔
      (y ∈ entries ∧ key y ≠ k) ∨ ∃ x ∈ entries, key x = k ∧ y = f x := by
  induction entries with
  | nil => simp [replace]
  | cons x xs ih =>
    obtain ⟨hx, hxs⟩ := List.nodup_cons.mp hnodup
    unfold replace
    split_ifs with hk
    · have hother : ∀ z ∈ xs, key z ≠ k := fun z hz hz' =>
        hx (hk ▸ hz' ▸ List.mem_map_of_mem hz)
      simp only [List.mem_cons, exists_eq_or_imp, hk, true_and]
      constructor
      · rintro (rfl | hy)
        · exact Or.inr (Or.inl rfl)
        · exact Or.inl ⟨Or.inr hy, hother y hy⟩
      · rintro (⟨rfl | hy, hne⟩ | rfl | ⟨z, hz, hzk, rfl⟩)
        · exact absurd hk hne
        · exact Or.inr hy
        · exact Or.inl rfl
        · exact absurd hzk (hother z hz)
    · simp only [List.mem_cons, exists_eq_or_imp, hk, false_and, false_or, ih hxs]
      constructor
      · rintro (rfl | ⟨hy, hne⟩ | h)
        · exact Or.inl ⟨Or.inl rfl, hk⟩
        · exact Or.inl ⟨Or.inr hy, hne⟩
        · exact Or.inr h
      · rintro (⟨rfl | hy, hne⟩ | h)
        · exact Or.inl rfl
        · exact Or.inr (Or.inl ⟨hy, hne⟩)
        · exact Or.inr (Or.inr h)

theorem keys_remove (key : α → κ) (k : κ) (entries : List α) :
    (remove key k entries).map key = (entries.map key).erase k := by
  induction entries with
  | nil => rfl
  | cons x xs ih =>
    unfold remove at ih ⊢
    by_cases h : key x = k
    · simp [h]
    · simp [h, ih]

theorem remove_of_not_mem (h : k ∉ entries.map key) : remove key k entries = entries := by
  apply List.eraseP_of_forall_not
  intro x hx hk
  exact h (by simpa using ⟨x, hx, by simpa using hk⟩)

theorem mem_remove_iff (hnodup : (entries.map key).Nodup) {y : α} :
    y ∈ remove key k entries ↔ y ∈ entries ∧ key y ≠ k := by
  induction entries with
  | nil => simp [remove]
  | cons x xs ih =>
    obtain ⟨hx, hxs⟩ := List.nodup_cons.mp hnodup
    have ih := ih hxs
    unfold remove at ih ⊢
    by_cases hk : key x = k
    · have hother : ∀ z ∈ xs, key z ≠ k := fun z hz hz' =>
        hx (hk ▸ hz' ▸ List.mem_map_of_mem hz)
      rw [List.eraseP_cons_of_pos (by simpa using hk), List.mem_cons]
      constructor
      · exact fun hy => ⟨Or.inr hy, hother y hy⟩
      · rintro ⟨rfl | hy, hne⟩
        · exact absurd hk hne
        · exact hy
    · rw [List.eraseP_cons_of_neg (by simpa using hk), List.mem_cons, List.mem_cons, ih]
      constructor
      · rintro (rfl | ⟨hy, hne⟩)
        · exact ⟨Or.inl rfl, hk⟩
        · exact ⟨Or.inr hy, hne⟩
      · rintro ⟨rfl | hy, hne⟩
        · exact Or.inl rfl
        · exact Or.inr ⟨hy, hne⟩

/-- The entries of some keys are removed one after the other. -/
theorem nodup_mem_foldl_remove (hnodup : (entries.map key).Nodup) (ks : List κ) :
    ((ks.foldl (fun entries k => remove key k entries) entries).map key).Nodup ∧
      ∀ y, y ∈ ks.foldl (fun entries k => remove key k entries) entries ↔
        y ∈ entries ∧ key y ∉ ks := by
  induction ks generalizing entries with
  | nil => simpa using hnodup
  | cons k ks ih =>
    have hkeys : ((remove key k entries).map key).Nodup := by
      rw [keys_remove]
      exact hnodup.erase k
    obtain ⟨hrest, hmem⟩ := ih hkeys
    refine ⟨hrest, fun y => ?_⟩
    rw [List.foldl_cons, hmem, mem_remove_iff hnodup, List.mem_cons, not_or, and_assoc]

theorem length_remove_of_mem (h : k ∈ entries.map key) :
    (remove key k entries).length = entries.length - 1 := by
  have hkeys := congrArg List.length (keys_remove key k entries)
  simpa [List.length_erase_of_mem h] using hkeys

end KeyedList
