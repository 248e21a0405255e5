import BeamMP.Common.Bytes

/-!
# JSON values

The value type of `nlohmann::json`, with the accessors the server uses. Parsing
and printing belong to the library, which is not part of the repository; they
are the fields of `JsonText`.
-/
namespace BeamMP

inductive Json where
  | null
  | bool (b : Bool)
  | integer (n : ℤ)
  | float (mantissa exponent : ℤ)
  | string (s : Bytes)
  | array (elements : List Json)
  | object (fields : List (Bytes × Json))

namespace Json

def isNull : Json → Bool
  | null => true
  | _ => false

def isArray : Json → Bool
  | array _ => true
  | _ => false

def isObject : Json → Bool
  | object _ => true
  | _ => false

/-- `j.contains(key)` together with `j.at(key)`: the member of that name, which
only an object can have. -/
def member : Json → Bytes → Option Json
  | object fields, key => (fields.find? (·.1 == key)).map (·.2)
  | _, _ => none

/-- `j[key]` read on a value that is not const: a missing member is made null, null is made
an object, and any other value throws. -/
def index : Json → Bytes → Option Json
  | object fields, key => some ((member (object fields) key).getD null)
  | null, _ => some null
  | _, _ => none

/-- `j.size()`, which is 1 for a string of any length. -/
def size : Json → ℕ
  | null => 0
  | array elements => elements.length
  | object fields => fields.length
  | bool _ | integer _ | float _ _ | string _ => 1

/-- `j[key] = value` on an object; a new member is appended. -/
def setMember : Json → Bytes → Json → Json
  | object fields, key, value =>
    if fields.any (·.1 == key) then
      object (fields.map fun f => if f.1 == key then (f.1, value) else f)
    else object (fields ++ [(key, value)])
  | j, _, _ => j

theorem find?_map_update (key key' : Bytes) (value : Json) (h : key' ≠ key)
    (fields : List (Bytes × Json)) :
    ((fields.map fun f => if f.1 == key then (f.1, value) else f).find? (·.1 == key')).map (·.2) =
      (fields.find? (·.1 == key')).map (·.2) := by
  induction fields with
  | nil => rfl
  | cons f fs ih =>
    by_cases hf : f.1 = key'
    · have hne : f.1 ≠ key := fun h' => h (hf.symm.trans h')
      simp [hf, h]
    · by_cases hk : f.1 = key
      · simpa [hf, hk, Ne.symm h] using ih
      · simpa [hf, hk] using ih

theorem member_setMember_of_ne {key key' : Bytes} (value j : Json) (h : key' ≠ key) :
    (j.setMember key value).member key' = j.member key' := by
  cases j with
  | object fields =>
    simp only [setMember]
    split_ifs with hany
    · exact find?_map_update key key' value h fields
    · simp [member, List.find?_append, Ne.symm h]
  | _ => rfl

theorem find?_map_update_self {key : Bytes} (value : Json) {fields : List (Bytes × Json)}
    (h : fields.any (·.1 == key) = true) :
    ((fields.map fun f => if f.1 == key then (f.1, value) else f).find? (·.1 == key)).map (·.2) =
      some value := by
  induction fields with
  | nil => simp at h
  | cons f fs ih =>
    by_cases hf : f.1 = key
    · simp [hf]
    · have htail : fs.any (·.1 == key) = true := by simpa [hf] using h
      simpa [hf] using ih htail

theorem member_setMember_self {j : Json} (h : j.isObject = true) (key : Bytes) (value : Json) :
    (j.setMember key value).member key = some value := by
  cases j with
  | object fields =>
    simp only [setMember]
    split_ifs with hany
    · exact find?_map_update_self value hany
    · have hnone : fields.find? (·.1 == key) = none :=
        List.find?_eq_none.mpr fun f hf hkey => hany (List.any_eq_true.mpr ⟨f, hf, hkey⟩)
      simp [member, List.find?_append, hnone]
  | _ => cases h

theorem isObject_of_member {j value : Json} {key : Bytes} (h : j.member key = some value) :
    j.isObject = true := by
  cases j with
  | object fields => rfl
  | _ => cases h

/-- `j[key] = value`: null becomes an object first, and a value that is no object throws. -/
def assign (j : Json) (key : Bytes) (value : Json) : Option Json :=
  match j with
  | object fields => some (setMember (object fields) key value)
  | null => some (object [(key, value)])
  | _ => none

/-- `j[key]` on a value that is not const, with what it leaves behind. -/
def touch (j : Json) (key : Bytes) : Option Json :=
  match j.member key with
  | some _ => some j
  | none => j.assign key null

/-- `j.erase(key)`. -/
def eraseMember (j : Json) (key : Bytes) : Json :=
  match j with
  | object fields => object (fields.filter (·.1 != key))
  | j => j

/-- All values under a name; the library keeps one for each name. -/
def values : Json → Bytes → List Json
  | object fields, key => (fields.filter (·.1 == key)).map (·.2)
  | _, _ => []

/-- The members of an object have different names. -/
def DistinctMembers (j : Json) : Prop := ∀ fields, j = object fields → (fields.map Prod.fst).Nodup

section Members

variable {j j' value : Json} {key key' : Bytes}

theorem member_assign_self (h : j.assign key value = some j') : j'.member key = some value := by
  cases j with
  | object fields =>
    cases h
    exact member_setMember_self rfl key value
  | null =>
    cases h
    simp [member]
  | _ => cases h

theorem member_assign_of_ne (h : j.assign key value = some j') (hkey : key' ≠ key) :
    j'.member key' = j.member key' := by
  cases j with
  | object fields =>
    cases h
    exact member_setMember_of_ne value _ hkey
  | null =>
    cases h
    simp [member, Ne.symm hkey]
  | _ => cases h

theorem exists_assign (h : j.isObject = true) (key : Bytes) (value : Json) :
    ∃ j', j.assign key value = some j' := by
  cases j with
  | object fields => exact ⟨_, rfl⟩
  | _ => cases h

theorem isObject_of_assign (h : j.assign key value = some j') : j'.isObject = true :=
  isObject_of_member (member_assign_self h)

theorem member_touch_of_ne (h : j.touch key = some j') (hkey : key' ≠ key) :
    j'.member key' = j.member key' := by
  unfold touch at h
  cases hmember : j.member key with
  | some v =>
    rw [hmember] at h
    cases h
    rfl
  | none =>
    rw [hmember] at h
    exact member_assign_of_ne h hkey

theorem member_touch_self (h : j.touch key = some j') :
    j'.member key = some ((j.member key).getD null) := by
  unfold touch at h
  cases hmember : j.member key with
  | some v =>
    rw [hmember] at h
    cases h
    exact hmember
  | none =>
    rw [hmember] at h
    exact member_assign_self h

theorem isObject_of_touch (h : j.touch key = some j') : j'.isObject = true :=
  isObject_of_member (member_touch_self h)

theorem exists_touch (h : j.isObject = true) (key : Bytes) : ∃ j', j.touch key = some j' := by
  unfold touch
  cases j.member key with
  | some v => exact ⟨j, rfl⟩
  | none => exact exists_assign h key null

theorem member_eraseMember_of_ne (j : Json) (h : key' ≠ key) :
    (j.eraseMember key).member key' = j.member key' := by
  cases j with
  | object fields =>
    simp only [eraseMember, member, List.find?_filter]
    congr 2
    funext f
    by_cases hf : f.1 = key'
    · simp [hf, h]
    · simp [hf]
  | _ => rfl

theorem member_eq_head?_values (j : Json) (key : Bytes) :
    j.member key = (j.values key).head? := by
  cases j with
  | object fields => simp only [member, values, List.head?_map, List.head?_filter]
  | _ => rfl

theorem mem_values_of_member (h : j.member key = some value) : value ∈ j.values key := by
  cases j with
  | object fields =>
    obtain ⟨f, hf, rfl⟩ := Option.map_eq_some_iff.mp h
    have hkey : (f.1 == key) = true := by simpa using List.find?_some hf
    exact List.mem_map_of_mem (List.mem_filter.mpr ⟨List.mem_of_find?_eq_some hf, hkey⟩)
  | _ => cases h

theorem DistinctMembers.member_of_mem_values (h : j.DistinctMembers)
    (hvalue : value ∈ j.values key) : j.member key = some value := by
  cases j with
  | object fields =>
    have hnodup := h fields rfl
    clear h
    induction fields with
    | nil => cases hvalue
    | cons g gs ih =>
      obtain ⟨hhead, htail⟩ := List.nodup_cons.mp hnodup
      obtain ⟨f, hf, rfl⟩ := List.mem_map.mp hvalue
      obtain ⟨hmem, hkey⟩ := List.mem_filter.mp hf
      have hkey : f.1 = key := by simpa using hkey
      subst hkey
      rcases List.mem_cons.mp hmem with rfl | hmem
      · simp [member]
      · have hne : g.1 ≠ f.1 := fun heq => hhead (heq ▸ List.mem_map_of_mem hmem)
        have hrest : f.2 ∈ (object gs).values f.1 :=
          List.mem_map_of_mem (List.mem_filter.mpr ⟨hmem, by simp⟩)
        simpa [member, hne] using ih hrest htail
  | _ => cases hvalue

theorem eq_of_mem_values_setMember {e : Json} (h : e ∈ (j.setMember key value).values key)
    (hobject : j.isObject = true) : e = value := by
  cases j with
  | object fields =>
    simp only [setMember] at h
    split_ifs at h with hany
    · obtain ⟨f, hf, rfl⟩ := List.mem_map.mp h
      obtain ⟨hmem, hkey⟩ := List.mem_filter.mp hf
      obtain ⟨g, -, rfl⟩ := List.mem_map.mp hmem
      by_cases hg : g.1 = key
      · simp [hg]
      · simp [hg] at hkey
    · obtain ⟨f, hf, rfl⟩ := List.mem_map.mp h
      obtain ⟨hmem, hkey⟩ := List.mem_filter.mp hf
      rcases List.mem_append.mp hmem with hmem | hmem
      · exact absurd (List.any_eq_true.mpr ⟨f, hmem, hkey⟩) hany
      · rw [List.mem_singleton.mp hmem]
  | _ => cases hobject

theorem values_setMember_of_ne (j value : Json) (h : key' ≠ key) :
    (j.setMember key value).values key' = j.values key' := by
  cases j with
  | object fields =>
    simp only [setMember]
    split_ifs
    · have hfst : ∀ f : Bytes × Json, (if f.1 == key then (f.1, value) else f).1 = f.1 := by
        intro f
        split_ifs
        · rfl
        · rfl
      simp only [values, List.filter_map, Function.comp_def, hfst, List.map_map]
      refine List.map_congr_left fun f hf => ?_
      have hkey : f.1 = key' := by simpa using (List.mem_filter.mp hf).2
      simp [hkey, h]
    · simp [values, Ne.symm h]
  | _ => rfl

theorem eq_of_mem_values_assign {e : Json} (h : j.assign key value = some j')
    (he : e ∈ j'.values key) : e = value := by
  cases j with
  | object fields =>
    cases h
    exact eq_of_mem_values_setMember he rfl
  | null =>
    cases h
    simpa [values] using he
  | _ => cases h

theorem values_assign_of_ne (h : j.assign key value = some j') (hkey : key' ≠ key) :
    j'.values key' = j.values key' := by
  cases j with
  | object fields =>
    cases h
    exact values_setMember_of_ne _ value hkey
  | null =>
    cases h
    simp [values, Ne.symm hkey]
  | _ => cases h

theorem values_of_assign_eq_none (h : j.assign key value = none) (key' : Bytes) :
    j.values key' = [] := by
  cases j with
  | object fields => cases h
  | null => cases h
  | _ => rfl

end Members

/-- The test of `IsUnicycle`: a string member `"jbm"` equal to `"unicycle"`. -/
def isUnicycle (j : Json) : Bool :=
  match j.member (ascii "jbm") with
  | some (string s) => s == ascii "unicycle"
  | _ => false

@[simp] theorem isUnicycle_null : null.isUnicycle = false := rfl

theorem isUnicycle_setMember {key : Bytes} (value j : Json) (h : key ≠ ascii "jbm") :
    (j.setMember key value).isUnicycle = j.isUnicycle := by
  unfold isUnicycle
  rw [member_setMember_of_ne value j (Ne.symm h)]

end Json

/-- The text side of the JSON library. `parse` is `none` where the library throws or
returns a discarded value, `dump` is `none` where it throws. -/
structure JsonText where
  parse : Bytes → Option Json
  dump : Json → Option Bytes

end BeamMP
