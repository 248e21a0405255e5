import BeamMP.Common.JsonEquality

/-!
# The members of an object

The members of an object have different names and are found by them. Two objects
with the same names in the same order and with the same members are the same.
-/
namespace BeamMP
namespace Json

/-- The names of the members. -/
def names : Json → List Bytes
  | object fields => fields.map Prod.fst
  | _ => []

/-- One assignment after another. -/
def assignAll (j : Json) (fields : List (Bytes × Json)) : Option Json :=
  fields.foldlM (fun j f => j.assign f.1 f.2) j

variable {j j' value : Json} {key key' : Bytes} {fields : List (Bytes × Json)}

theorem nodup_names (h : j.DistinctMembers) : j.names.Nodup := by
  cases j with
  | object fields => exact h fields rfl
  | _ => exact List.nodup_nil

theorem distinctMembers_of_nodup (h : j.names.Nodup) : j.DistinctMembers := by
  rintro fields rfl
  exact h

theorem mem_names_iff : key ∈ j.names ↔ ∃ value, j.member key = some value := by
  cases j with
  | object fields =>
    simp only [names, member, List.mem_map, Option.map_eq_some_iff]
    constructor
    · rintro ⟨f, hf, rfl⟩
      obtain ⟨g, hg⟩ : ∃ g, fields.find? (·.1 == f.1) = some g :=
        Option.isSome_iff_exists.mp (List.find?_isSome.mpr ⟨f, hf, by simp⟩)
      exact ⟨g.2, g, hg, rfl⟩
    · rintro ⟨value, f, hf, -⟩
      have hkey : f.1 = key := by simpa using List.find?_some hf
      exact ⟨f, List.mem_of_find?_eq_some hf, hkey⟩
  | _ => simp [names, member]

theorem member_eq_none_iff : j.member key = none ↔ key ∉ j.names := by
  rw [mem_names_iff, Option.eq_none_iff_forall_not_mem, not_exists]
  exact Iff.rfl

theorem member_of_mem (hnames : (fields.map Prod.fst).Nodup) {f : Bytes × Json}
    (h : f ∈ fields) : (object fields).member f.1 = some f.2 := by
  have hdistinct : (object fields).DistinctMembers := distinctMembers_of_nodup hnames
  refine hdistinct.member_of_mem_values (List.mem_map_of_mem (List.mem_filter.mpr ⟨h, ?_⟩))
  exact beq_self_eq_true f.1

theorem mem_of_member (h : (object fields).member key = some value) : (key, value) ∈ fields := by
  obtain ⟨f, hf, rfl⟩ := Option.map_eq_some_iff.mp h
  obtain rfl : f.1 = key := by simpa using List.find?_some hf
  exact List.mem_of_find?_eq_some hf

theorem fields_ext {fields' : List (Bytes × Json)}
    (hnames : fields.map Prod.fst = fields'.map Prod.fst) (hdistinct : (fields.map Prod.fst).Nodup)
    (hmember : ∀ f ∈ fields, (object fields').member f.1 = some f.2) : fields = fields' := by
  induction fields generalizing fields' with
  | nil => exact (List.map_eq_nil_iff.mp hnames.symm).symm
  | cons f fields ih =>
    obtain ⟨f', rest, rfl, hf, hrest⟩ := List.map_eq_cons_iff.mp hnames.symm
    obtain ⟨hhead, htail⟩ := List.nodup_cons.mp hdistinct
    have hfirst : f = f' := by
      have h := hmember f List.mem_cons_self
      rw [member, List.find?_cons_of_pos (by simp [hf])] at h
      exact Prod.ext hf.symm (Option.some.inj h).symm
    subst hfirst
    rw [ih hrest.symm htail fun g hg => ?_]
    have hne : f.1 ≠ g.1 := fun heq => hhead (heq ▸ List.mem_map_of_mem hg)
    have h := hmember g (List.mem_cons_of_mem _ hg)
    rwa [member, List.find?_cons_of_neg (by simp [hne])] at h

/-- The names, in their order, and the members are what an object is. -/
theorem eq_of_names_of_member (hj : j.isObject = true) (hj' : j'.isObject = true)
    (hnames : j.names = j'.names) (hdistinct : j.DistinctMembers)
    (hmember : ∀ key value, j.member key = some value → j'.member key = some value) : j = j' := by
  cases j with
  | object fields =>
    cases j' with
    | object fields' =>
      congr 1
      exact fields_ext hnames (hdistinct fields rfl) fun f hf =>
        hmember f.1 f.2 (member_of_mem (hdistinct fields rfl) hf)
    | _ => cases hj'
  | _ => cases hj

theorem names_setMember_of_mem (h : key ∈ j.names) : (j.setMember key value).names = j.names := by
  cases j with
  | object fields =>
    obtain ⟨f, hf, rfl⟩ := List.mem_map.mp h
    have hany : fields.any (·.1 == f.1) = true := List.any_eq_true.mpr ⟨f, hf, by simp⟩
    simp only [setMember, hany, if_true, names, List.map_map]
    refine List.map_congr_left fun g _ => ?_
    by_cases hg : g.1 = f.1
    · simp [hg]
    · simp [hg]
  | _ => cases h

theorem names_setMember_of_notMem (hj : j.isObject = true) (h : key ∉ j.names) :
    (j.setMember key value).names = j.names ++ [key] := by
  cases j with
  | object fields =>
    have hany : fields.any (·.1 == key) = false := by
      rw [List.any_eq_false]
      intro f hf hkey
      exact h (List.mem_map.mpr ⟨f, hf, by simpa using hkey⟩)
    simp [setMember, hany, names]
  | _ => cases hj

/-- Only the last of two values written under one name is left. -/
theorem assign_setMember_of_mem (h : key ∈ j.names) (first second : Json) :
    (j.setMember key first).assign key second = some (j.setMember key second) := by
  cases j with
  | object fields =>
    obtain ⟨f, hf, rfl⟩ := List.mem_map.mp h
    have hany : fields.any (·.1 == f.1) = true := List.any_eq_true.mpr ⟨f, hf, by simp⟩
    have hany' : (fields.map fun g => if g.1 == f.1 then (g.1, first) else g).any
        (·.1 == f.1) = true := List.any_eq_true.mpr ⟨_, List.mem_map_of_mem hf, by simp⟩
    simp only [setMember, assign, hany, hany', if_true, List.map_map]
    congr 2
    refine List.map_congr_left fun g _ => ?_
    by_cases hg : g.1 = f.1
    · simp [hg]
    · simp [hg]
  | _ => cases h

theorem eraseMember_setMember (hj : j.isObject = true) (h : j.member key = none) (value : Json) :
    (j.setMember key value).eraseMember key = j := by
  cases j with
  | object fields =>
    have hnone : ∀ f ∈ fields, f.1 ≠ key := fun f hf hkey =>
      member_eq_none_iff.mp h (List.mem_map.mpr ⟨f, hf, hkey⟩)
    have hany : fields.any (·.1 == key) = false :=
      List.any_eq_false.mpr fun f hf => by simpa using hnone f hf
    have hfilter : fields.filter (·.1 != key) = fields :=
      List.filter_eq_self.mpr fun f hf => by simpa using hnone f hf
    simp [setMember, hany, eraseMember, hfilter]
  | _ => cases hj

theorem member_eraseMember_self (j : Json) (key : Bytes) :
    (j.eraseMember key).member key = none := by
  cases j with
  | object fields => simp [eraseMember, member, List.find?_filter]
  | _ => rfl

section Assignments

theorem exists_assign_iff (key : Bytes) (value : Json) :
    (∃ j', j.assign key value = some j') ↔ (j.isObject || j.isNull) = true := by
  cases j with
  | _ => simp [assign, isObject, isNull]

theorem touch_of_member (h : j.member key = some value) : j.touch key = some j := by
  unfold touch
  rw [h]

theorem exists_touch_iff (key : Bytes) :
    (∃ j', j.touch key = some j') ↔ (j.isObject || j.isNull) = true := by
  cases hmember : j.member key with
  | some value =>
    rw [touch_of_member hmember, isObject_of_member hmember]
    exact ⟨fun _ => rfl, fun _ => ⟨j, rfl⟩⟩
  | none =>
    unfold touch
    rw [hmember]
    exact exists_assign_iff key null

theorem nodup_names_of_assign (h : j.assign key value = some j') (hdistinct : j.names.Nodup) :
    j'.names.Nodup := by
  cases j with
  | object fields =>
    obtain rfl := Option.some.inj h
    by_cases hmem : key ∈ (object fields).names
    · rw [names_setMember_of_mem hmem]
      exact hdistinct
    · rw [names_setMember_of_notMem rfl hmem]
      exact hdistinct.append (List.nodup_singleton key)
        (List.disjoint_singleton.mpr hmem)
  | null =>
    obtain rfl := Option.some.inj h
    exact List.nodup_singleton key
  | _ => cases h

theorem names_of_assign_of_mem (h : j.assign key value = some j') (hmem : key ∈ j.names) :
    j'.names = j.names := by
  cases j with
  | object fields =>
    obtain rfl := Option.some.inj h
    exact names_setMember_of_mem hmem
  | _ => cases hmem

theorem assignAll_cons {f : Bytes × Json} :
    j.assignAll (f :: fields) = (j.assign f.1 f.2).bind (·.assignAll fields) := rfl

theorem member_assignAll_of_notMem (h : j.assignAll fields = some j')
    (hkey : key ∉ fields.map Prod.fst) : j'.member key = j.member key := by
  induction fields generalizing j with
  | nil =>
    obtain rfl := Option.some.inj h
    rfl
  | cons f fields ih =>
    obtain ⟨first, hfirst, hrest⟩ := Option.bind_eq_some_iff.mp h
    rw [List.map_cons, List.mem_cons, not_or] at hkey
    exact (ih hrest hkey.2).trans (member_assign_of_ne hfirst hkey.1)

theorem member_assignAll_of_mem (h : j.assignAll fields = some j')
    (hdistinct : (fields.map Prod.fst).Nodup) {f : Bytes × Json} (hf : f ∈ fields) :
    j'.member f.1 = some f.2 := by
  induction fields generalizing j with
  | nil => cases hf
  | cons g fields ih =>
    obtain ⟨first, hfirst, hrest⟩ := Option.bind_eq_some_iff.mp h
    obtain ⟨hhead, htail⟩ := List.nodup_cons.mp hdistinct
    rcases List.mem_cons.mp hf with rfl | hf
    · rw [member_assignAll_of_notMem hrest hhead]
      exact member_assign_self hfirst
    · exact ih hrest htail hf

theorem nodup_names_of_assignAll (h : j.assignAll fields = some j') (hdistinct : j.names.Nodup) :
    j'.names.Nodup := by
  induction fields generalizing j with
  | nil =>
    obtain rfl := Option.some.inj h
    exact hdistinct
  | cons f fields ih =>
    obtain ⟨first, hfirst, hrest⟩ := Option.bind_eq_some_iff.mp h
    exact ih hrest (nodup_names_of_assign hfirst hdistinct)

theorem names_of_assignAll_of_mem (h : j.assignAll fields = some j')
    (hmem : ∀ f ∈ fields, f.1 ∈ j.names) : j'.names = j.names := by
  induction fields generalizing j with
  | nil =>
    obtain rfl := Option.some.inj h
    rfl
  | cons f fields ih =>
    obtain ⟨first, hfirst, hrest⟩ := Option.bind_eq_some_iff.mp h
    have hnames := names_of_assign_of_mem hfirst (hmem f List.mem_cons_self)
    refine (ih hrest fun g hg => ?_).trans hnames
    rw [hnames]
    exact hmem g (List.mem_cons_of_mem _ hg)

theorem isObject_assignAll (h : j.assignAll fields = some j') (hj : j.isObject = true) :
    j'.isObject = true := by
  induction fields generalizing j with
  | nil =>
    obtain rfl := Option.some.inj h
    exact hj
  | cons f fields ih =>
    obtain ⟨first, hfirst, hrest⟩ := Option.bind_eq_some_iff.mp h
    exact ih hrest (isObject_of_assign hfirst)

theorem isObject_assignAll_of_ne_nil (h : j.assignAll fields = some j') (hne : fields ≠ []) :
    j'.isObject = true := by
  cases fields with
  | nil => exact absurd rfl hne
  | cons f fields =>
    obtain ⟨first, hfirst, hrest⟩ := Option.bind_eq_some_iff.mp h
    exact isObject_assignAll hrest (isObject_of_assign hfirst)

end Assignments

section Text

theorem IsText.member (h : j.IsText) (hmember : j.member key = some value) : value.IsText := by
  cases j with
  | object fields => exact (isText_object.mp h _ (mem_of_member hmember)).2
  | _ => cases hmember

theorem IsText.isUtf8_of_member (h : j.IsText) (hmember : j.member key = some value) :
    IsUtf8 key := by
  cases j with
  | object fields => exact (isText_object.mp h _ (mem_of_member hmember)).1
  | _ => cases hmember

theorem IsText.assign (h : j.IsText) (hkey : IsUtf8 key) (hvalue : value.IsText)
    (hassign : j.assign key value = some j') : j'.IsText := by
  cases j with
  | object fields =>
    obtain rfl := Option.some.inj hassign
    rw [isText_object] at h
    simp only [setMember]
    split_ifs with hany
    · refine isText_object.mpr fun f hf => ?_
      obtain ⟨g, hg, rfl⟩ := List.mem_map.mp hf
      split_ifs
      · exact ⟨(h g hg).1, hvalue⟩
      · exact h g hg
    · refine isText_object.mpr fun f hf => ?_
      rcases List.mem_append.mp hf with hf | hf
      · exact h f hf
      · rw [List.mem_singleton.mp hf]
        exact ⟨hkey, hvalue⟩
  | null =>
    obtain rfl := Option.some.inj hassign
    simpa using ⟨hkey, hvalue⟩
  | _ => cases hassign

theorem IsText.touch (h : j.IsText) (hkey : IsUtf8 key) (htouch : j.touch key = some j') :
    j'.IsText := by
  unfold Json.touch at htouch
  cases hmember : j.member key with
  | some value =>
    rw [hmember] at htouch
    obtain rfl := Option.some.inj htouch
    exact h
  | none =>
    rw [hmember] at htouch
    exact h.assign hkey isText_null htouch

theorem IsText.eraseMember (h : j.IsText) (key : Bytes) : (j.eraseMember key).IsText := by
  cases j with
  | object fields =>
    refine isText_object.mpr fun f hf => ?_
    exact isText_object.mp h f (List.mem_of_mem_filter hf)
  | _ => exact h

theorem IsText.assignAll (h : j.IsText) (hfields : ∀ f ∈ fields, IsUtf8 f.1 ∧ f.2.IsText)
    (hassign : j.assignAll fields = some j') : j'.IsText := by
  induction fields generalizing j with
  | nil =>
    obtain rfl := Option.some.inj hassign
    exact h
  | cons f fields ih =>
    obtain ⟨first, hfirst, hrest⟩ := Option.bind_eq_some_iff.mp hassign
    obtain ⟨hkey, hvalue⟩ := hfields f List.mem_cons_self
    exact ih (h.assign hkey hvalue hfirst) (fun g hg => hfields g (List.mem_cons_of_mem _ hg))
      hrest

end Text
end Json
end BeamMP
