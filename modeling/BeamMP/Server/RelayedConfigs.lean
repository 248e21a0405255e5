import BeamMP.Server.VehiclePositions

/-!
# Relayed and stored configurations

An edit and a repaint are relayed to the other clients before the handlers look
whether the vehicle exists and whether the packet holds JSON. What the present
clients are shown is stored for later ones only if these late checks succeed.
-/
namespace BeamMP

open Bytes

variable (lib : JsonText)

/-- The configuration in an `Oc` packet: the text from its first `{`. -/
def configOf (packet : Bytes) : Option Json :=
  (find packet '{' 0).bind fun pos => lib.parse (substr packet pos none)

/-- The paints in an `Op` packet: the text from the first `[` of its data. -/
def paintsOf (packet : Bytes) : Option Json :=
  (find (substr packet 3 none) '[' 0).bind fun pos =>
    lib.parse (substr (substr packet 3 none) pos none)

/-- `vcf.paints` of the configuration stored for a vehicle. -/
def TClient.storedPaints (c : TClient) (vid : ℤ) : Option Json :=
  ((c.getCarData vid).1.member (ascii "vcf")).bind (·.member (ascii "paints"))

def HasSubCode (packet : Bytes) (code : Char) : Prop :=
  6 ≤ packet.length ∧ packet[1]? = some code.toUInt8

/-- The packet goes to all other clients. -/
def Handled.Relays (h : Handled) (packet : Bytes) : Prop :=
  Effect.sendToAll false true packet ∈ h.effects

/-- The stored configuration of the vehicle is the one in the packet. -/
def Handled.StoresConfig (h : Handled) (vid : ℤ) (packet : Bytes) : Prop :=
  configOf lib packet = some (h.client.getCarData vid).1

/-- The stored paints of the vehicle are the ones in the packet. -/
def Handled.StoresPaints (h : Handled) (vid : ℤ) (packet : Bytes) : Prop :=
  ∃ paints, paintsOf lib packet = some paints ∧ h.client.storedPaints vid = some paints

/-- What the library documents of JSON texts that start with a bracket. -/
structure JsonText.Bracketed : Prop where
  object : ∀ s doc, lib.parse ('{'.toUInt8 :: s) = some doc → doc.isObject = true
  array : ∀ s doc, lib.parse ('['.toUInt8 :: s) = some doc → doc.isArray = true

variable {lib} {maxCars : ℤ} {c : TClient} {packet : Bytes} {answers : List LuaResult} {vid : ℤ}

theorem substr_of_find {s : Bytes} {b : Char} {pos : ℕ} (h : find s b 0 = some pos) :
    ∃ u, substr s pos none = b.toUInt8 :: u := by
  obtain ⟨t, u, rfl, -, rfl⟩ := exists_of_find_eq_some h
  exact ⟨u, List.drop_left⟩

theorem JsonText.Bracketed.isObject_configOf (hlib : lib.Bracketed) {doc : Json}
    (h : configOf lib packet = some doc) : doc.isObject = true := by
  obtain ⟨pos, hpos, hparse⟩ := Option.bind_eq_some_iff.mp h
  obtain ⟨u, hu⟩ := substr_of_find hpos
  exact hlib.object u doc (hu ▸ hparse)

theorem JsonText.Bracketed.isArray_paintsOf (hlib : lib.Bracketed) {paints : Json}
    (h : paintsOf lib packet = some paints) : paints.isArray = true := by
  obtain ⟨pos, hpos, hparse⟩ := Option.bind_eq_some_iff.mp h
  obtain ⟨u, hu⟩ := substr_of_find hpos
  exact hlib.array u paints (hu ▸ hparse)

theorem isNull_of_isObject {doc : Json} (h : doc.isObject = true) : doc.isNull = false := by
  cases doc with
  | object fields => rfl
  | _ => cases h

theorem parseVehicle_edit (hcode : HasSubCode packet 'c') :
    parseVehicle lib maxCars answers c packet = parseEdit lib answers c packet := by
  obtain ⟨hlength, hsub⟩ := hcode
  match packet with
  | [] | [_] | [_, _] | [_, _, _] | [_, _, _, _] | [_, _, _, _, _] => simp at hlength
  | _ :: code :: _ :: _ :: _ :: _ :: _ =>
    obtain rfl : code = 'c'.toUInt8 := by simpa using hsub
    rfl

theorem parseVehicle_paint (hcode : HasSubCode packet 'p') :
    parseVehicle lib maxCars answers c packet = parsePaint lib c packet := by
  obtain ⟨hlength, hsub⟩ := hcode
  match packet with
  | [] | [_] | [_, _] | [_, _, _] | [_, _, _, _] | [_, _, _, _, _] => simp at hlength
  | _ :: code :: _ :: _ :: _ :: _ :: _ =>
    obtain rfl : code = 'p'.toUInt8 := by simpa using hsub
    rfl

section Edit

theorem apply_of_config {doc : Json} (hdoc : configOf lib packet = some doc)
    (hnull : (c.getCarData vid).1.isNull = false) :
    apply lib c vid packet = c.setCarData vid doc := by
  obtain ⟨pos, hpos, hparse⟩ := Option.bind_eq_some_iff.mp hdoc
  simp only [apply, hpos, TClient.getCarData_snd, hnull, hparse, Bool.false_eq_true, if_false]

theorem apply_of_null (hnull : (c.getCarData vid).1.isNull = true) :
    apply lib c vid packet = c := by
  unfold apply
  cases find packet '{' 0 with
  | none => rfl
  | some pos => simp only [TClient.getCarData_snd, hnull, if_true]

theorem apply_stores_iff (hlib : lib.Bracketed) :
    configOf lib packet = some ((apply lib c vid packet).getCarData vid).1 ↔
      (configOf lib packet).isSome = true ∧ (c.getCarData vid).1.isNull = false := by
  cases hdoc : configOf lib packet with
  | none => simp
  | some doc =>
    have hobject := isNull_of_isObject (hlib.isObject_configOf hdoc)
    cases hnull : (c.getCarData vid).1.isNull with
    | true =>
      rw [apply_of_null hnull]
      simp only [Option.some.injEq, Option.isSome_some, Bool.true_eq_false, and_false, iff_false]
      rintro rfl
      rw [hobject] at hnull
      cases hnull
    | false =>
      rw [apply_of_config hdoc hnull,
        TClient.getCarData_setCarData (TClient.mem_vehicleIDs_of_getCarData hnull)]
      simp

theorem parseEdit_of_allowed (hvid : ownedVehicle c (substr packet 3 none) = some vid)
    (hallowed : editAllowed lib answers c packet vid = true) :
    (parseEdit lib answers c packet).Relays packet ∧
      (parseEdit lib answers c packet).client = apply lib c vid packet := by
  unfold editAllowed at hallowed
  simp only [Handled.Relays, parseEdit, hvid, hallowed, if_true]
  simp

end Edit

section Paint

theorem paintTarget_eq_some_iff {carData vcf : Json} :
    paintTarget carData = some vcf ↔ carData.member (ascii "vcf") = some vcf ∧
      ∃ paints, vcf.member (ascii "paints") = some paints ∧ paints.isArray = true := by
  unfold paintTarget
  cases carData.member (ascii "vcf") with
  | none => simp
  | some w =>
    cases hpaints : w.member (ascii "paints") with
    | none =>
      simp only [hpaints, ite_self, reduceCtorEq, false_iff]
      rintro ⟨hw, paints, hmember, -⟩
      rw [← Option.some.inj hw, hpaints] at hmember
      cases hmember
    | some paints =>
      simp only [hpaints, Json.isObject_of_member hpaints, if_true]
      split_ifs with harray
      · constructor
        · rintro hw
          obtain rfl := Option.some.inj hw
          exact ⟨rfl, paints, hpaints, harray⟩
        · exact fun h => h.1
      · simp only [false_iff]
        rintro ⟨hw, paints', hmember, harray'⟩
        rw [← Option.some.inj hw, hpaints] at hmember
        exact harray (Option.some.inj hmember ▸ harray')

theorem paintTarget_isSome_iff :
    (paintTarget (c.getCarData vid).1).isSome = true ↔
      ∃ paints, c.storedPaints vid = some paints ∧ paints.isArray = true := by
  rw [Option.isSome_iff_exists]
  constructor
  · rintro ⟨vcf, hvcf⟩
    obtain ⟨hmember, paints, hpaints, harray⟩ := paintTarget_eq_some_iff.mp hvcf
    exact ⟨paints, Option.bind_eq_some_iff.mpr ⟨vcf, hmember, hpaints⟩, harray⟩
  · rintro ⟨paints, hstored, harray⟩
    obtain ⟨vcf, hmember, hpaints⟩ := Option.bind_eq_some_iff.mp hstored
    exact ⟨vcf, paintTarget_eq_some_iff.mpr ⟨hmember, paints, hpaints, harray⟩⟩

theorem paintTarget_of_isNull {carData : Json} (h : carData.isNull = true) :
    paintTarget carData = none := by
  cases carData with
  | null => rfl
  | _ => cases h

theorem storedPaints_setCarData {carData vcf paints : Json} (hmem : vid ∈ c.vehicleIDs)
    (hvcf : carData.member (ascii "vcf") = some vcf) (hobject : vcf.isObject = true) :
    (c.setCarData vid (carData.setMember (ascii "vcf")
      (vcf.setMember (ascii "paints") paints))).storedPaints vid = some paints := by
  rw [TClient.storedPaints, TClient.getCarData_setCarData hmem,
    Json.member_setMember_self (Json.isObject_of_member hvcf), Option.bind_some,
    Json.member_setMember_self hobject]

variable (hvid : ownedVehicle c (substr packet 3 none) = some vid)
include hvid

theorem parsePaint_without_bracket (hpos : find (substr packet 3 none) '[' 0 = none) :
    parsePaint lib c packet = { client := c } := by
  unfold parsePaint
  simp only [hvid, hpos]

variable {pos : ℕ} (hpos : find (substr packet 3 none) '[' 0 = some pos)
include hpos

theorem parsePaint_relays : (parsePaint lib c packet).Relays packet := by
  unfold parsePaint
  simp only [hvid, hpos, TClient.getCarData_snd]
  split_ifs
  · simp [Handled.Relays]
  · cases paintTarget (c.getCarData vid).1 with
    | none => simp [Handled.Relays]
    | some vcf =>
      cases lib.parse (substr (substr packet 3 none) pos none) with
      | none => simp [Handled.Relays]
      | some paints => simp [Handled.Relays]

theorem parsePaint_client :
    (parsePaint lib c packet).client =
      match paintTarget (c.getCarData vid).1, paintsOf lib packet with
      | some vcf, some paints =>
        c.setCarData vid ((c.getCarData vid).1.setMember (ascii "vcf")
          (vcf.setMember (ascii "paints") paints))
      | _, _ => c := by
  have hpaints : paintsOf lib packet = lib.parse (substr (substr packet 3 none) pos none) := by
    rw [paintsOf, hpos, Option.bind_some]
  unfold parsePaint
  simp only [hvid, hpos, TClient.getCarData_snd, hpaints]
  split_ifs with hnull
  · rw [paintTarget_of_isNull hnull]
  · cases paintTarget (c.getCarData vid).1 with
    | none => rfl
    | some vcf =>
      cases lib.parse (substr (substr packet 3 none) pos none) with
      | none => rfl
      | some paints => rfl

/-- A repaint is stored exactly if the packet holds JSON and there is an array to replace. -/
theorem parsePaint_stores_iff (hlib : lib.Bracketed) :
    (parsePaint lib c packet).StoresPaints lib vid packet ↔
      (paintsOf lib packet).isSome = true ∧
        ∃ paints, c.storedPaints vid = some paints ∧ paints.isArray = true := by
  rw [← paintTarget_isSome_iff]
  unfold Handled.StoresPaints
  rw [parsePaint_client hvid hpos]
  cases hpaints : paintsOf lib packet with
  | none => simp
  | some paints =>
    cases htarget : paintTarget (c.getCarData vid).1 with
    | none =>
      simp only [Option.isSome_none, Bool.false_eq_true, and_false, iff_false]
      rintro ⟨paints', hnew, hstored⟩
      obtain rfl := Option.some.inj hnew
      have hsome := paintTarget_isSome_iff.mpr ⟨_, hstored, hlib.isArray_paintsOf hpaints⟩
      rw [htarget] at hsome
      cases hsome
    | some vcf =>
      obtain ⟨hvcf, old, hold, -⟩ := paintTarget_eq_some_iff.mp htarget
      have hnull : (c.getCarData vid).1.isNull = false :=
        isNull_of_isObject (Json.isObject_of_member hvcf)
      have hstored : (c.setCarData vid ((c.getCarData vid).1.setMember (ascii "vcf")
          (vcf.setMember (ascii "paints") paints))).storedPaints vid = some paints :=
        storedPaints_setCarData (TClient.mem_vehicleIDs_of_getCarData hnull) hvcf
          (Json.isObject_of_member hold)
      simp [hstored]

end Paint

/-- A relayed packet is stored, and a stored one relayed, exactly under these conditions. What
is stored for an edit is what `SyncClient` finds in the table. -/
theorem relayed_iff_stored (lib : JsonText) (hlib : lib.Bracketed) (maxCars : ℤ) (c : TClient)
    (packet : Bytes) (answers : List LuaResult) (vid : ℤ)
    (hvid : ownedVehicle c (substr packet 3 none) = some vid) :
    (HasSubCode packet 'c' → editAllowed lib answers c packet vid = true →
      let h := parseVehicle lib maxCars answers c packet
      ((h.Relays packet ↔ h.StoresConfig lib vid packet) ↔
        (configOf lib packet).isSome = true ∧ (c.getCarData vid).1.isNull = false) ∧
      (h.StoresConfig lib vid packet →
        ∃ v ∈ h.client.vehicleData, v.id = vid ∧ configOf lib packet = some v.data)) ∧
    (HasSubCode packet 'p' →
      let h := parseVehicle lib maxCars answers c packet
      ((h.Relays packet ↔ h.StoresPaints lib vid packet) ↔
        find (substr packet 3 none) '[' 0 = none ∨
        (paintsOf lib packet).isSome = true ∧
          ∃ paints, c.storedPaints vid = some paints ∧ paints.isArray = true) ∧
      (h.StoresPaints lib vid packet → ∃ v ∈ h.client.vehicleData, v.id = vid ∧
        paintsOf lib packet =
          (v.data.member (ascii "vcf")).bind (·.member (ascii "paints")))) := by
  constructor
  · intro hcode hallowed
    obtain ⟨hrelays, hclient⟩ := parseEdit_of_allowed hvid hallowed
    dsimp only
    rw [parseVehicle_edit hcode]
    refine ⟨?_, fun hstored => ?_⟩
    · rw [iff_true_left hrelays, Handled.StoresConfig, hclient]
      exact apply_stores_iff hlib
    · have hobject := hlib.isObject_configOf hstored
      obtain ⟨v, hv, hid, hdata⟩ := TClient.exists_of_getCarData (isNull_of_isObject hobject)
      exact ⟨v, hv, hid, by rw [hdata]; exact hstored⟩
  · intro hcode
    dsimp only
    rw [parseVehicle_paint hcode]
    constructor
    · cases hpos : find (substr packet 3 none) '[' 0 with
      | none =>
        have hnone : paintsOf lib packet = none := by rw [paintsOf, hpos, Option.bind_none]
        rw [parsePaint_without_bracket hvid hpos]
        simp [Handled.Relays, Handled.StoresPaints, hnone]
      | some pos =>
        rw [iff_true_left (parsePaint_relays hvid hpos), parsePaint_stores_iff hvid hpos hlib]
        simp
    · rintro ⟨paints, hpaints, hstored⟩
      obtain ⟨vcf, hvcf, -⟩ := Option.bind_eq_some_iff.mp hstored
      have hnull := isNull_of_isObject (Json.isObject_of_member hvcf)
      obtain ⟨v, hv, hid, hdata⟩ := TClient.exists_of_getCarData hnull
      refine ⟨v, hv, hid, ?_⟩
      rw [hdata, hpaints]
      exact hstored.symm

theorem sampleJson_bracketed : sampleJson.Bracketed where
  object s doc h := by
    simp only [sampleJson] at h
    split_ifs at h
    · rw [← Option.some.inj h]
      rfl
    · rw [← Option.some.inj h]
      rfl
  array s doc h := by
    have hbracket : '['.toUInt8 ≠ '\x7b'.toUInt8 := by decide
    simp only [sampleJson] at h
    split_ifs at h with hunicycle hempty
    · exact (hbracket (List.cons.inj hunicycle).1).elim
    · exact (hbracket (List.cons.inj hempty).1).elim

/-- An edit of a stored vehicle is relayed and stored. -/
theorem relayed_iff_stored_edit :
    let c : TClient := { vehicleData := [⟨0, .object []⟩], id := 0 }
    let packet := ascii "Oc:0-0:" ++ unicycleJson
    let h := parseVehicle sampleJson 1 [] c packet
    h.Relays packet ↔ h.StoresConfig sampleJson 0 packet :=
  ((relayed_iff_stored sampleJson sampleJson_bracketed 1
    { vehicleData := [⟨0, .object []⟩], id := 0 } (ascii "Oc:0-0:" ++ unicycleJson) [] 0
    (by decide)).1 ⟨by decide, by decide⟩ (by decide)).1.mpr ⟨by decide, by decide⟩

def paintedJson : Json :=
  .object [(ascii "vcf", .object [(ascii "paints", .array [])])]

/-- An edit of a vehicle that does not exist is shown to the present clients only, and so is a
paint packet that is not JSON. -/
theorem relayed_and_not_stored :
    (let c : TClient := { id := 0 }
      let packet := ascii "Oc:0-5:\x7b\x7d"
      let h := parseVehicle sampleJson 1 [] c packet
      ownedVehicle c (substr packet 3 none) = some 5 ∧
        editAllowed sampleJson [] c packet 5 = true ∧ h.Relays packet ∧
        ¬h.StoresConfig sampleJson 5 packet) ∧
    let c : TClient := { vehicleData := [⟨0, paintedJson⟩], id := 0 }
    let packet := ascii "Op:0-0:["
    let h := parseVehicle sampleJson 1 [] c packet
    ownedVehicle c (substr packet 3 none) = some 0 ∧ h.Relays packet ∧ h.threw = true ∧
      ¬h.StoresPaints sampleJson 0 packet := by
  refine ⟨⟨by decide, by decide, ?_, ?_⟩, by decide, ?_, by decide, ?_⟩
  · exact List.mem_cons_of_mem _ List.mem_cons_self
  · intro h
    exact absurd (congrArg (Option.map Json.isNull) h) (by decide)
  · exact List.mem_cons_of_mem _ List.mem_cons_self
  · rintro ⟨paints, hpaints, -⟩
    have hnone : (paintsOf sampleJson (ascii "Op:0-0:[")).isNone = true := by decide
    rw [hpaints] at hnone
    cases hnone

end BeamMP
