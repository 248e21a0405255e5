import BeamMP.Server.VehicleOwnership

/-!
# Event packets

A client triggers an event with `E:Name:Data`, where the data may hold further
separators. Without a separator `HandleEvent` prints a warning and goes on:
`substr` of `npos` takes the rest of the packet for the name, `npos + 1` wraps
around to zero, and the whole packet is the data.
-/
namespace BeamMP

open Bytes Observables

/-- The grammar of an event packet: two bytes, a name without a separator, and the data. -/
def IsEventPacket (p Name Data : Bytes) : Prop :=
  ∃ header : Bytes, header.length = 2 ∧ ':'.toUInt8 ∉ Name ∧
    p = header ++ (Name ++ ':'.toUInt8 :: Data)

theorem IsEventPacket.sep_mem {p Name Data : Bytes} (h : IsEventPacket p Name Data) :
    ':'.toUInt8 ∈ p.drop 2 := by
  obtain ⟨header, hheader, -, rfl⟩ := h
  rw [List.drop_left' hheader]
  simp

theorem exists_isEventPacket {p : Bytes} (h : ':'.toUInt8 ∈ p.drop 2) :
    ∃ Name Data, IsEventPacket p Name Data := by
  obtain ⟨Name, Data, hrest, hName⟩ := List.eq_append_cons_of_mem h
  have hlong : 2 ≤ p.length := by
    by_contra hshort
    rw [List.drop_eq_nil_of_le (by omega)] at h
    cases h
  refine ⟨Name, Data, p.take 2, by simp [hlong], hName, ?_⟩
  rw [← hrest, List.take_append_drop]

theorem eventNameData_of_isEventPacket {p Name Data : Bytes} (h : IsEventPacket p Name Data) :
    eventNameData p = (Name, Data) := by
  obtain ⟨header, hheader, hName, rfl⟩ := h
  have hrest : (header ++ (Name ++ ':'.toUInt8 :: Data)).drop 2 = Name ++ ':'.toUInt8 :: Data :=
    List.drop_left' hheader
  have hsep : find (header ++ (Name ++ ':'.toUInt8 :: Data)) ':' 2 = some (Name.length + 2) := by
    rw [find_add, hrest, find_append_cons Data hName]
    rfl
  have hdata : (header ++ (Name ++ ':'.toUInt8 :: Data)).drop (Name.length + 2 + 1) = Data := by
    rw [show Name.length + 2 + 1 = 2 + (Name.length + 1) by omega, ← List.drop_drop, hrest]
    simp
  simp only [eventNameData, hsep, substr, hrest, hdata, Nat.add_sub_cancel, List.take_left]

theorem eventNameData_of_not_mem {p : Bytes} (h : ':'.toUInt8 ∉ p.drop 2) :
    eventNameData p = (p.drop 2, p) := by
  have hsep : find p ':' 2 = none := find_from_eq_none_iff.mpr h
  simp only [eventNameData, hsep, substr]

section HandleEvent

variable {κ : Type} (env : ServerEnv κ)

/-- The event that `HandleEvent` triggers for a packet. -/
def triggeredEvents (id : ℤ) (p : Bytes) : List (Bytes × List LuaArg) :=
  if p.length < 2 ∨ excludedEvents.contains (eventNameData p).1 then []
  else [((eventNameData p).1, [.int id, .string (eventNameData p).2])]

theorem final_handleEvent (c : κ) (p : Bytes) (s : ServerState κ) :
    final (ServerM.handleEvent env c p) s =
      { s with events := s.events ++ triggeredEvents (s.client c).id p } := by
  unfold ServerM.handleEvent triggeredEvents
  by_cases hshort : p.length < 2
  · rw [if_pos hshort, if_pos (Or.inl hshort), List.append_nil]
    rfl
  · by_cases hexcluded : excludedEvents.contains (eventNameData p).1 = true
    · rw [if_neg hshort, if_pos (Or.inr hexcluded), List.append_nil]
      simp only [hexcluded, if_true]
      rfl
    · rw [if_neg hshort, if_neg (not_or.mpr ⟨hshort, hexcluded⟩)]
      simp only [hexcluded]
      rfl

/-- A packet triggers the event its grammar gives, unless the server keeps the name to itself;
a packet without a separator after its first two bytes triggers none. -/
def TriggersByGrammar (c : κ) (p : Bytes) (s t : ServerState κ) : Prop :=
  (∀ Name Data, IsEventPacket p Name Data →
    t.events = if excludedEvents.contains Name then s.events
      else s.events ++ [(Name, [.int (s.client c).id, .string Data])]) ∧
  ((¬∃ i, 2 ≤ i ∧ p[i]? = some ':'.toUInt8) → t.events = s.events)

/-- Event packets are handled by their grammar except for the ones of at least two bytes that
have no separator and whose rest is not a name of the server. -/
theorem handleEvent_byGrammar_iff (c : κ) (p : Bytes) (s : ServerState κ) :
    TriggersByGrammar c p s (final (ServerM.handleEvent env c p) s) ↔
      p.length < 2 ∨ (∃ i, 2 ≤ i ∧ p[i]? = some ':'.toUInt8) ∨
        excludedEvents.contains (p.drop 2) = true := by
  rw [final_handleEvent]
  unfold TriggersByGrammar triggeredEvents
  rw [← mem_drop_iff]
  by_cases hsep : ':'.toUInt8 ∈ p.drop 2
  · obtain ⟨Name, Data, hform⟩ := exists_isEventPacket hsep
    have hlong : ¬p.length < 2 := by
      intro hshort
      rw [List.drop_eq_nil_of_le (by omega)] at hsep
      cases hsep
    refine iff_of_true ⟨fun N D h => ?_, fun hnone => absurd hsep hnone⟩ (Or.inr (Or.inl hsep))
    rw [eventNameData_of_isEventPacket h]
    by_cases hexcluded : excludedEvents.contains N = true
    · rw [if_pos (Or.inr hexcluded), if_pos hexcluded, List.append_nil]
    · rw [if_neg (not_or.mpr ⟨hlong, hexcluded⟩), if_neg hexcluded]
  · have hform : ∀ N D, ¬IsEventPacket p N D := fun N D h => hsep h.sep_mem
    rw [eventNameData_of_not_mem hsep]
    constructor
    · rintro ⟨-, hnone⟩
      have hevents := hnone hsep
      by_cases hquiet : p.length < 2 ∨ excludedEvents.contains (p.drop 2) = true
      · rcases hquiet with hshort | hexcluded
        · exact Or.inl hshort
        · exact Or.inr (Or.inr hexcluded)
      · rw [if_neg hquiet] at hevents
        simp at hevents
    · rintro (hshort | hmem | hexcluded)
      · rw [if_pos (Or.inl hshort)]
        exact ⟨fun N D h => absurd h (hform N D), fun _ => List.append_nil _⟩
      · exact absurd hmem hsep
      · rw [if_pos (Or.inr hexcluded)]
        exact ⟨fun N D h => absurd h (hform N D), fun _ => List.append_nil _⟩

end HandleEvent

/-- A packet without a separator fires an event in the plugins all the same, with its own text
as the data. -/
theorem not_byGrammar_without_separator :
    (final (ServerM.handleEvent quietEnv true (ascii "E:jump")) twoClients).events =
      [(ascii "jump", [.int 1, .string (ascii "E:jump")])] ∧
    ¬TriggersByGrammar true (ascii "E:jump") twoClients
      (final (ServerM.handleEvent quietEnv true (ascii "E:jump")) twoClients) := by
  have hevents : (final (ServerM.handleEvent quietEnv true (ascii "E:jump")) twoClients).events =
      [(ascii "jump", [.int 1, .string (ascii "E:jump")])] := by rfl
  refine ⟨hevents, fun h => ?_⟩
  have hsep : ¬∃ i, 2 ≤ i ∧ (ascii "E:jump")[i]? = some ':'.toUInt8 := by
    rw [← mem_drop_iff]
    decide
  have hsame := h.2 hsep
  rw [hevents] at hsame
  exact List.cons_ne_nil _ _ hsame

end BeamMP
