import BeamMP.Server.UnicycleTracking
import BeamMP.Server.VehiclePrograms

/-!
# Vehicle IDs

One client's receive thread and any number of other threads that reach its
vehicles through the Lua API or when the client is removed. Only the receive
thread adds vehicles; the others can take IDs away between its `GetOpenCarID`
and its `AddNewCar`, but can put none there.
-/
namespace BeamMP

open Programs VehicleProgram

/-- The calls by which other threads change or read the vehicles of a client. -/
inductive OutsideCall
  | removeVehicle (vid : ℤ)
  | getCarData (vid : ℤ)
  | clearCars

def OutsideCall.program : OutsideCall → VehicleProgram Unit
  | .removeVehicle vid => VehicleProgram.removeVehicle vid
  | .getCarData vid => do
    let _ ← VehicleProgram.getCarData vid
    pure ()
  | .clearCars => VehicleProgram.clearCars

namespace VehicleProgram

def Quiet {α : Type} (p : VehicleProgram α) : Prop := p.Uses fun k => k.addsNothing = true

section Quiet

variable {lib : JsonText} {maxCars : ℤ} {α β : Type} {vid : ℤ}

theorem quiet_pure (a : α) : Quiet (pure a) := trivial

theorem quiet_locked {k : VehicleSection} (h : k.addsNothing = true) : Quiet (locked k) :=
  (Program.uses_perform k).mpr h

theorem Quiet.bind {p : VehicleProgram α} {f : α → VehicleProgram β} (hp : Quiet p)
    (hf : ∀ a, Quiet (f a)) : Quiet (p >>= f) := Program.Uses.bind hp hf

theorem quiet_getCarData : Quiet (getCarData vid) := by
  apply (quiet_locked rfl : Quiet (findCar vid)).bind
  intro found
  cases found with
  | some data => exact quiet_pure data
  | none => exact Quiet.bind (quiet_locked rfl) quiet_pure

theorem quiet_setCarData {data : Json} : Quiet (setCarData vid data) := by
  apply (quiet_locked rfl : Quiet (storeCar vid data)).bind
  intro found
  cases found with
  | true => exact quiet_pure ()
  | false => exact quiet_locked rfl

theorem quiet_shouldSpawn {carJson : Bytes} :
    Quiet (shouldSpawn lib maxCars carJson vid) := by
  have hlimit : Quiet (belowLimit maxCars) :=
    (quiet_locked rfl : Quiet getCarCount).bind quiet_pure
  unfold VehicleProgram.shouldSpawn
  split_ifs
  · apply (quiet_locked rfl : Quiet getUnicycleID).bind
    intro tracked
    split_ifs
    · exact Quiet.bind (quiet_locked rfl) quiet_pure
    · exact hlimit
  · exact hlimit

theorem quiet_apply {pckt : Bytes} : Quiet (apply lib vid pckt) := by
  unfold VehicleProgram.apply
  split
  · exact quiet_pure ()
  · apply quiet_getCarData.bind
    intro vd
    split_ifs
    · exact quiet_pure ()
    · split
      · exact quiet_pure ()
      · exact quiet_setCarData

theorem quiet_untrack : Quiet (untrack vid) := by
  apply (quiet_locked rfl : Quiet getUnicycleID).bind
  intro tracked
  split_ifs
  · exact quiet_locked rfl
  · exact quiet_pure ()

theorem quiet_delete : Quiet (do untrack vid; deleteCar vid) :=
  quiet_untrack.bind fun _ => quiet_locked rfl

theorem quiet_owned {data : Bytes} {f : Option ℤ → VehicleProgram β}
    (hf : ∀ owned, Quiet (f owned)) : Quiet (ownedVehicle data >>= f) :=
  Quiet.bind (Quiet.bind (quiet_locked rfl) fun _ => quiet_pure _) hf

theorem quiet_parseEdit {answers : List LuaResult} {pckt : Bytes} :
    Quiet (parseEdit lib answers pckt) := by
  apply quiet_owned
  intro owned
  cases owned with
  | none => exact quiet_pure ()
  | some vid =>
    apply (quiet_locked rfl : Quiet getUnicycleID).bind
    intro tracked
    split_ifs
    · exact quiet_apply
    · exact quiet_delete

theorem quiet_parseDelete {pckt : Bytes} : Quiet (parseDelete pckt) := by
  apply quiet_owned
  intro owned
  cases owned with
  | none => exact quiet_pure ()
  | some vid => exact quiet_delete

theorem quiet_parsePaint {pckt : Bytes} : Quiet (parsePaint lib pckt) := by
  apply quiet_owned
  intro owned
  cases owned with
  | none => exact quiet_pure ()
  | some vid =>
    dsimp only
    split
    · exact quiet_pure ()
    · apply quiet_getCarData.bind
      intro carData
      split_ifs
      · exact quiet_pure ()
      · split
        · exact quiet_pure ()
        · split
          · exact quiet_pure ()
          · exact quiet_setCarData

theorem quiet_program (f : OutsideCall) : Quiet f.program := by
  cases f with
  | removeVehicle vid =>
    apply quiet_getCarData.bind
    intro data
    split_ifs
    · exact quiet_pure ()
    · exact quiet_locked rfl
  | getCarData vid => exact quiet_getCarData.bind fun _ => quiet_pure ()
  | clearCars => exact quiet_locked rfl

end Quiet

end VehicleProgram

inductive VehicleAction (τ : Type*)
  | packet (pckt : Bytes) (answers : List LuaResult)
  | receive
  | call (t : τ) (f : OutsideCall)
  | advance (t : τ)

/-- The client and its threads, where `none` is the receive thread. -/
abbrev VehicleThreads (τ : Type*) := Threads VehicleSection.Answer TClient (Option τ)

namespace VehicleThreads

variable {τ : Type*}

def exec (_ : Option τ) (_ : Unit) (k : VehicleSection) (c : TClient) : k.Answer × TClient :=
  k.exec c

def step [DecidableEq τ] (lib : JsonText) (maxCars : ℤ) (s : VehicleThreads τ) :
    VehicleAction τ → Option (VehicleThreads τ)
  | .packet pckt answers => s.start none (VehicleProgram.parseVehicle lib maxCars answers pckt)
  | .receive => s.advance exec none ()
  | .call t f => s.start (some t) f.program
  | .advance t => s.advance exec (some t) ()

/-- The receive thread relies on the others to add no ID. -/
def rely : Option τ → TClient → TClient → Prop
  | none, c, c' => c'.vehicleIDs.Sublist c.vehicleIDs
  | some _, _, _ => True

def guar : Option τ → TClient → TClient → Prop
  | none, c, c' => c.TableWellFormed → c'.TableWellFormed
  | some _, c, c' => c'.vehicleIDs.Sublist c.vehicleIDs

theorem rely_of_guar (u v : Option τ) (hne : v ≠ u) (c c' : TClient) (h : guar u c c') :
    rely v c c' := by
  cases v with
  | some t => trivial
  | none =>
    cases u with
    | none => exact absurd rfl hne
    | some t => exact h

theorem tableWellFormed_of_guar (u : Option τ) (c c' : TClient) (hc : c.TableWellFormed)
    (h : guar u c c') : c'.TableWellFormed := by
  cases u with
  | none => exact h hc
  | some t => exact hc.of_sublist h

section Meets

variable {lib : JsonText} {maxCars : ℤ} {α : Type} {p : VehicleProgram α}

/-- The guarantee of the receive thread, which may rely on the others. -/
abbrev Receives (post : α → TClient → Prop) (p : VehicleProgram α) (pre : TClient → Prop) : Prop :=
  Meets (fun (_ : Unit) k c => k.exec c) (fun _ _ _ => True) (rely (none : Option Unit))
    (guar (none : Option Unit)) post p pre

theorem receives_locked {k : VehicleSection} {pre : TClient → Prop}
    {post : k.Answer → TClient → Prop}
    (hstable : ∀ x c c', c'.vehicleIDs.Sublist c.vehicleIDs → post x c → post x c')
    (hpost : ∀ c, pre c → post (k.exec c).1 (k.exec c).2)
    (hwf : ∀ c, pre c → c.TableWellFormed → (k.exec c).2.TableWellFormed) :
    Receives post (locked k) pre := by
  apply meets_perform
  · exact fun x c c' h hrely => hstable x c c' hrely h
  · exact fun _ c hc _ => ⟨hwf c hc, hpost c hc⟩

theorem receives_of_quiet {pre : TClient → Prop} (hp : Quiet p)
    (hpre : ∀ c c', c'.vehicleIDs.Sublist c.vehicleIDs → pre c → pre c') :
    Receives (fun _ => pre) p pre := by
  apply meets_of_uses hp
  · intro c c' hc hrely
    exact hpre c c' hrely hc
  · intro k hk _ c hc _
    have hsub := VehicleSection.exec_ids_sublist hk (c := c)
    exact ⟨fun hwf => hwf.of_sublist hsub, hpre c _ hsub hc⟩

theorem receives_parseSpawn (answers : List LuaResult) (pckt : Bytes) :
    Receives (fun _ _ => True) (VehicleProgram.parseSpawn lib maxCars answers pckt)
      (fun _ => True) := by
  have hfree : ∀ (ident : ℤ) (c c' : TClient), c'.vehicleIDs.Sublist c.vehicleIDs →
      ident ∉ c.vehicleIDs ∧ 0 ≤ ident → ident ∉ c'.vehicleIDs ∧ 0 ≤ ident :=
    fun ident c c' hsub h => ⟨fun hmem => h.1 (hsub.subset hmem), h.2⟩
  have hpick : Receives (fun ident c => ident ∉ c.vehicleIDs ∧ 0 ≤ ident)
      VehicleProgram.getOpenCarID (fun _ => True) := by
    apply receives_locked (k := .getOpenCarID)
    · exact hfree
    · exact fun c _ => ⟨c.getOpenCarID_not_mem, c.getOpenCarID_nonneg⟩
    · exact fun _ _ hwf => hwf
  apply hpick.bind
  intro ident
  apply (receives_of_quiet quiet_shouldSpawn (hfree ident)).bind
  intro should
  cases lib.parse (Bytes.substr pckt 5 none) with
  | none => exact meets_pure fun _ _ => trivial
  | some doc =>
    dsimp only
    split_ifs
    · apply receives_locked (k := .addNewCar ident doc)
      · exact fun _ _ _ _ _ => trivial
      · exact fun _ _ => trivial
      · exact fun c hc hwf => hwf.addNewCar_of_not_mem hc.1 hc.2 doc
    · exact meets_pure fun _ _ => trivial

theorem receives_parseVehicle (answers : List LuaResult) (pckt : Bytes) :
    Receives (fun _ _ => True) (VehicleProgram.parseVehicle lib maxCars answers pckt)
      (fun _ => True) := by
  have hquiet : ∀ {p : VehicleProgram Unit}, Quiet p →
      Receives (fun _ _ => True) p (fun _ => True) :=
    fun hp => receives_of_quiet hp (fun _ _ _ _ => trivial)
  unfold VehicleProgram.parseVehicle
  split
  · split_ifs
    · exact receives_parseSpawn answers _
    · exact hquiet (quiet_pure ())
    · exact hquiet quiet_parseEdit
    · exact hquiet quiet_parseDelete
    · exact hquiet (quiet_pure ())
    · exact hquiet (quiet_pure ())
    · exact hquiet (quiet_pure ())
    · exact hquiet quiet_parsePaint
    · exact hquiet (quiet_pure ())
  · exact hquiet (quiet_pure ())

end Meets

section Step

variable {lib : JsonText} {maxCars : ℤ}

/-- The IDs are distinct and not negative, and every thread keeps them so from where it is. -/
def IDsKept (s : VehicleThreads τ) : Prop :=
  Threads.Sound exec (fun _ _ _ _ => True) rely guar TClient.TableWellFormed s

theorem meets_call (t : τ) (f : OutsideCall) :
    Meets (exec (some t)) (fun _ _ _ => True) (rely (some t)) (guar (some t))
      (fun _ _ => True) f.program (fun _ => True) := by
  apply meets_of_uses (quiet_program f)
  · exact fun _ _ _ _ => trivial
  · exact fun k hk _ c _ _ => ⟨VehicleSection.exec_ids_sublist hk, trivial⟩

variable [DecidableEq τ]

/-- Step lemma: whichever thread runs, the IDs stay distinct and non-negative. -/
theorem IDsKept.step {s t : VehicleThreads τ} {a : VehicleAction τ} (h : s.IDsKept)
    (hstep : s.step lib maxCars a = some t) : t.IDsKept := by
  cases a with
  | packet pckt answers =>
    exact Threads.Sound.start (u := none) h (receives_parseVehicle answers pckt) hstep
  | receive =>
    exact Threads.Sound.advance h (fun u v hne c c' => rely_of_guar u v hne c c')
      tableWellFormed_of_guar (fun _ _ _ => trivial) hstep
  | call u f => exact Threads.Sound.start h (meets_call u f) hstep
  | advance u =>
    exact Threads.Sound.advance h (fun u v hne c c' => rely_of_guar u v hne c c')
      tableWellFormed_of_guar (fun _ _ _ => trivial) hstep

/-- In every interleaving of the packets of a client with the calls of other threads, the
IDs of its vehicles are pairwise distinct and not negative. -/
theorem vehicleIDs_distinct (lib : JsonText) (maxCars : ℤ) (name role : Bytes) (id : ℤ)
    (as : List (VehicleAction τ)) (s : VehicleThreads τ)
    (hrun : Execution.run (step lib maxCars)
      (Threads.idle VehicleSection.Answer (Option τ) (TClient.fresh name role id)) as = some s) :
    s.shared.vehicleIDs.Nodup ∧ ∀ i ∈ s.shared.vehicleIDs, 0 ≤ i := by
  have hinv : s.IDsKept :=
    Execution.run_invariant_of_step (fun _ _ _ h hstep => h.step hstep)
      (Threads.idle_sound (TClient.fresh_tableWellFormed name role id)) hrun
  exact ⟨hinv.invariant.nodup, hinv.invariant.nonneg⟩

/-- A vehicle that is removed between `GetOpenCarID` and `AddNewCar` of the next spawn. -/
theorem vehicleIDs_distinct_after_removal :
    ∃ s, Execution.run (step sampleJson 2)
        (Threads.idle VehicleSection.Answer (Option Unit) (TClient.fresh [] [] 0))
        [.packet (ascii "Os:0:\x7b\x7d") [], .receive, .receive, .receive,
          .packet (ascii "Os:0:\x7b\x7d") [], .receive, .call () (.removeVehicle 0),
          .advance (), .advance (), .receive, .receive] = some s ∧
      (s.shared.vehicleIDs.Nodup ∧ ∀ i ∈ s.shared.vehicleIDs, 0 ≤ i) ∧
      s.shared.vehicleIDs = [1] :=
  ⟨_, rfl, vehicleIDs_distinct sampleJson 2 [] [] 0
    [.packet (ascii "Os:0:\x7b\x7d") [], .receive, .receive, .receive,
      .packet (ascii "Os:0:\x7b\x7d") [], .receive, .call () (.removeVehicle 0),
      .advance (), .advance (), .receive, .receive] _ rfl, by decide⟩

end Step
end VehicleThreads
end BeamMP
