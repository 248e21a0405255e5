import BeamMP.Common.Json
import Mathlib.Data.List.Forall2

/-!
# Equality of JSON values

The members of an object have no order of their own, and a number has no
representation of its own. Printing throws on a text that is not UTF-8; what is
printed is read back as an equal value.
-/
namespace BeamMP

section Related

variable {α β : Type} {R : α → β → Prop} {l : List α} {l' : List β}

theorem exists_right_of_forall₂ (h : List.Forall₂ R l l') {a : α} (ha : a ∈ l) :
    ∃ b ∈ l', R a b := by
  induction h with
  | nil => exact nomatch ha
  | cons hab _ ih =>
    rcases List.mem_cons.mp ha with rfl | ha
    · exact ⟨_, List.mem_cons_self, hab⟩
    · obtain ⟨b, hb, h⟩ := ih ha
      exact ⟨b, List.mem_cons_of_mem _ hb, h⟩

theorem exists_left_of_forall₂ (h : List.Forall₂ R l l') {b : β} (hb : b ∈ l') :
    ∃ a ∈ l, R a b :=
  exists_right_of_forall₂ (R := flip R) h.flip hb

theorem getElem?_of_forall₂ (h : List.Forall₂ R l l') {a : α} :
    ∀ {i : ℕ}, l[i]? = some a → ∃ b, l'[i]? = some b ∧ R a b := by
  induction h with
  | nil => exact fun ha => (nomatch ha)
  | cons hab _ ih =>
    intro i ha
    cases i with
    | zero =>
      obtain rfl := Option.some.inj ha
      exact ⟨_, rfl, hab⟩
    | succ i => exact ih ha

theorem forall₂_comp {γ : Type} {S : β → γ → Prop} {T : α → γ → Prop}
    (hT : ∀ a b c, R a b → S b c → T a c) (h : List.Forall₂ R l l') :
    ∀ {l'' : List γ}, List.Forall₂ S l' l'' → List.Forall₂ T l l'' := by
  induction h with
  | nil =>
    intro l'' h'
    obtain rfl := List.forall₂_nil_left_iff.mp h'
    exact .nil
  | cons hab _ ih =>
    intro l'' h'
    obtain ⟨c, l₀, hbc, hrest, rfl⟩ := List.forall₂_cons_left_iff.mp h'
    exact .cons (hT _ _ _ hab hbc) (ih hrest)

end Related

def IsUtf8 (s : Bytes) : Prop := ByteArray.IsValidUTF8 ⟨s.toArray⟩

namespace Json

/-- `json.push_back(value)`, which throws on what is neither null nor an array. -/
def pushBack (j value : Json) : Option Json :=
  match j with
  | null => some (array [value])
  | array elements => some (array (elements ++ [value]))
  | _ => none

/-- Equality, where it is given for what values contain. -/
def EqualWith (child : Json → Json → Prop) : Json → Json → Prop
  | null, null => True
  | bool b, bool b' => b = b'
  | integer n, integer n' => n = n'
  | float mantissa exponent, float mantissa' exponent' =>
    Dyadic.ofIntWithPrec mantissa (-exponent) = Dyadic.ofIntWithPrec mantissa' (-exponent')
  | string s, string s' => s = s'
  | array elements, array elements' => List.Forall₂ child elements elements'
  | object fields, object fields' => (fields'.map Prod.fst).Nodup ∧
    (∀ f ∈ fields, ∃ f' ∈ fields', f'.1 = f.1 ∧ child f.2 f'.2) ∧
    ∀ f' ∈ fields', ∃ f ∈ fields, f'.1 = f.1 ∧ child f.2 f'.2
  | _, _ => False

/-- Equality of what is less deep than that. -/
def EqualTo : ℕ → Json → Json → Prop
  | 0, _, _ => True
  | depth + 1, j, j' => EqualWith (EqualTo depth) j j'

mutual

/-- The texts of a value and the names of its members. -/
def texts : Json → List Bytes
  | null | bool _ | integer _ | float _ _ => []
  | string s => [s]
  | array elements => textsOfElements elements
  | object fields => textsOfFields fields

def textsOfElements : List Json → List Bytes
  | [] => []
  | j :: elements => texts j ++ textsOfElements elements

def textsOfFields : List (Bytes × Json) → List Bytes
  | [] => []
  | (key, j) :: fields => key :: texts j ++ textsOfFields fields

end

def IsText (j : Json) : Prop := ∀ s ∈ j.texts, IsUtf8 s

theorem isText_null : null.IsText := List.forall_mem_nil _

theorem isText_bool (b : Bool) : (bool b).IsText := List.forall_mem_nil _

theorem isText_integer (n : ℤ) : (integer n).IsText := List.forall_mem_nil _

theorem isText_float (mantissa exponent : ℤ) : (float mantissa exponent).IsText :=
  List.forall_mem_nil _

@[simp] theorem isText_string {s : Bytes} : (string s).IsText ↔ IsUtf8 s := by
  simp [IsText, texts]

@[simp] theorem isText_array {elements : List Json} :
    (array elements).IsText ↔ ∀ j ∈ elements, j.IsText := by
  have h : ∀ s, s ∈ textsOfElements elements ↔ ∃ j ∈ elements, s ∈ j.texts := by
    intro s
    induction elements with
    | nil => simp [textsOfElements]
    | cons j elements ih => simp [textsOfElements, ih]
  simp only [IsText, texts, h]
  exact ⟨fun h j hj s hs => h s ⟨j, hj, hs⟩, fun h s ⟨j, hj, hs⟩ => h j hj s hs⟩

@[simp] theorem isText_object {fields : List (Bytes × Json)} :
    (object fields).IsText ↔ ∀ f ∈ fields, IsUtf8 f.1 ∧ f.2.IsText := by
  have h : ∀ s, s ∈ textsOfFields fields ↔ ∃ f ∈ fields, s = f.1 ∨ s ∈ f.2.texts := by
    intro s
    induction fields with
    | nil => simp [textsOfFields]
    | cons f fields ih => simp [textsOfFields, ih, or_assoc]
  simp only [IsText, texts, h]
  constructor
  · exact fun h f hf => ⟨h f.1 ⟨f, hf, .inl rfl⟩, fun s hs => h s ⟨f, hf, .inr hs⟩⟩
  · rintro h s ⟨f, hf, rfl | hs⟩
    · exact (h f hf).1
    · exact (h f hf).2 s hs

end Json

/-- The library reads back what it prints, and prints a value unless a text is not UTF-8. -/
structure JsonText.Inverts (text : JsonText) (j : Json) : Prop where
  dump_isSome_iff : (text.dump j).isSome ↔ j.IsText
  parse_dump : ∀ s, text.dump j = some s →
    ∃ j', text.parse s = some j' ∧ ∀ depth, j.EqualTo depth j'

end BeamMP
