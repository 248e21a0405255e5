import BeamMP.Server.ServerRuns

/-!
# The players and their IDs

Who is connected, and under which ID, changes only when a connection comes, gets its ID or
leaves. From the moment a player gets an ID until the player leaves, the ID is the player's and
nobody else's.
-/
namespace BeamMP

open Bytes Observables

/-- The clients and their IDs, which are -1 at first. -/
structure Players (κ : Type) where
  clients : List κ
  id : κ → ℤ

namespace Players

variable {κ : Type} [DecidableEq κ]

/-- What can become of the players while nobody but the leaver leaves. -/
inductive Change (p : Players κ) (leaver : Option κ) : Players κ → Prop
  | stay : Change p leaver p
  | come (c : κ) (order : List κ) (hnew : c ∉ p.clients) (horder : order.Perm (c :: p.clients)) :
    Change p leaver ⟨order, Function.update p.id c (-1)⟩
  | name (c : κ) (ID : ℤ) (hnone : p.id c = -1) (hnonneg : 0 ≤ ID)
    (hfree : ∀ d ∈ p.clients, p.id d ≠ ID) : Change p leaver ⟨p.clients, Function.update p.id c ID⟩
  | leave (c : κ) (hleaver : leaver = some c) :
    Change p leaver ⟨p.clients.filter (· ≠ c), p.id⟩

def Distinct (p : Players κ) : Prop :=
  ∀ c ∈ p.clients, ∀ d ∈ p.clients, p.id d = p.id c → 0 ≤ p.id c → d = c

variable {p q : Players κ} {leaver : Option κ} {c : κ}

theorem Change.distinct (h : Change p leaver q) (hp : p.Distinct) : q.Distinct := by
  cases h with
  | stay => exact hp
  | come e order hnew horder =>
    intro c hc d hd heq hnonneg
    dsimp only at hc hd heq hnonneg
    have hold : ∀ x ∈ order, Function.update p.id e (-1) x = Function.update p.id e (-1) c →
        x ≠ e ∧ x ∈ p.clients := by
      intro x hx hxc
      have hxe : x ≠ e := by
        rintro rfl
        rw [Function.update_self] at hxc
        omega
      exact ⟨hxe, (List.mem_cons.mp (horder.mem_iff.mp hx)).resolve_left hxe⟩
    obtain ⟨hce, hc⟩ := hold c hc rfl
    obtain ⟨hde, hd⟩ := hold d hd heq
    rw [Function.update_of_ne hce, Function.update_of_ne hde] at heq
    rw [Function.update_of_ne hce] at hnonneg
    exact hp c hc d hd heq hnonneg
  | name e ID hnone hnonneg hfree =>
    intro c hc d hd heq hpos
    dsimp only at hc hd heq hpos
    by_cases hce : c = e
    · by_cases hde : d = e
      · rw [hde, hce]
      · rw [hce, Function.update_self, Function.update_of_ne hde] at heq
        exact absurd heq (hfree d hd)
    · by_cases hde : d = e
      · rw [hde, Function.update_self, Function.update_of_ne hce] at heq
        exact absurd heq.symm (hfree c hc)
      · rw [Function.update_of_ne hce, Function.update_of_ne hde] at heq
        rw [Function.update_of_ne hce] at hpos
        exact hp c hc d hd heq hpos
  | leave e hleaver =>
    intro c hc d hd heq hnonneg
    exact hp c (List.mem_of_mem_filter hc) d (List.mem_of_mem_filter hd) heq hnonneg

/-- A player who has an ID keeps it, and stays. -/
theorem Change.keeps (h : Change p leaver q) (hc : c ∈ p.clients) (hid : 0 ≤ p.id c)
    (hstays : leaver ≠ some c) : c ∈ q.clients ∧ q.id c = p.id c := by
  cases h with
  | stay => exact ⟨hc, rfl⟩
  | come e order hnew horder =>
    have hne : c ≠ e := fun heq => hnew (heq ▸ hc)
    exact ⟨horder.mem_iff.mpr (List.mem_cons_of_mem e hc), Function.update_of_ne hne _ _⟩
  | name e ID hnone =>
    have hne : c ≠ e := by
      rintro rfl
      omega
    exact ⟨hc, Function.update_of_ne hne _ _⟩
  | leave e hleaver =>
    have hne : c ≠ e := by
      rintro rfl
      exact hstays hleaver
    exact ⟨List.mem_filter.mpr ⟨hc, by simpa using hne⟩, rfl⟩

end Players

section

variable {κ : Type} {env : ServerEnv κ} {s t : ServerState κ} {c : κ}

def ServerState.players (s : ServerState κ) : Players κ := ⟨s.clients, fun d => (s.client d).id⟩

variable [DecidableEq κ]

theorem players_update_id (s : ServerState κ) (c : κ) (g : ServerClient → ServerClient) :
    (s.update c g).players =
      ⟨s.clients, Function.update s.players.id c (g (s.client c)).id⟩ := by
  have hid : (fun d => ((s.update c g).client d).id) =
      Function.update s.players.id c (g (s.client c)).id := by
    funext d
    by_cases hdc : d = c
    · rw [hdc, s.update_self, Function.update_self]
    · rw [s.update_of_ne hdc, Function.update_of_ne hdc]
      rfl
  unfold ServerState.players
  rw [hid]
  rfl

theorem players_update_of_id {g : ServerClient → ServerClient}
    (hg : (g (s.client c)).id = (s.client c).id) : (s.update c g).players = s.players := by
  rw [players_update_id, hg]
  have hself : (s.client c).id = s.players.id c := rfl
  rw [hself, Function.update_eq_self]
  rfl

theorem frame_players : Frame (ServerState.players : ServerState κ → Players κ) where
  core s t h := by
    have hplayers : s.core.players = t.core.players := by rw [h]
    exact hplayers
  pps _ _ := rfl
  flags s d g hg := players_update_of_id (congrArg TClient.id (hg (s.client d)))
  event _ _ _ := rfl

/-- No handler changes who is connected under which ID. -/
theorem frameBut_players (c : κ) : FrameBut c (ServerState.players : ServerState κ → _) where
  toFrame := frame_players
  events _ _ := rfl
  vehicles s _ hg := players_update_of_id (hg (s.client c).toTClient)

theorem removeVehicle_players (PID VID : ℤ) :
    Fixes ServerState.players (ServerM.removeVehicle env PID VID) := by
  intro s
  unfold ServerM.removeVehicle
  refine ServerM.findClient_bind_fixes (f := ServerState.players) (fixes_pure _) ?_
  exact fun e _ => (frameBut_players e).removeVehicleOf PID VID s

theorem removeClient_players (c : κ) (s : ServerState κ) :
    (final (ServerM.removeClient c) s).players =
      ⟨s.clients.filter (· ≠ c), s.players.id⟩ := by
  have hcleared : (s.update c fun d => { d with toTClient := d.clearCars }).players = s.players :=
    players_update_of_id rfl
  exact congrArg (fun p : Players κ => (⟨p.clients.filter (· ≠ c), p.id⟩ : Players κ)) hcleared

theorem onConnect_players (c : κ) (s : ServerState κ) :
    (final (ServerM.onConnect env c) s).players =
      ⟨s.clients, Function.update s.players.id c
        (RestartScan.leastUnused Int.ofNat_injective (s.clients.map s.players.id) : ℕ)⟩ := by
  rw [frame_players.onConnect c s, players_update_id]
  rfl

namespace ServerCall

def leaver : ServerCall κ → Option κ
  | .removeClient c | .onDisconnect c => some c
  | _ => none

theorem step_players {a : ServerCall κ} (hstep : step env s a = some t) :
    Players.Change s.players a.leaver t.players := by
  have hfixed : ∀ m : ServerM κ Unit, Fixes ServerState.players m →
      Players.Change s.players a.leaver (final m s).players := by
    intro m hm
    rw [hm s]
    exact .stay
  unfold step at hstep
  split_ifs at hstep with henabled
  cases hstep
  cases a with
  | insertClient c name role order =>
    obtain ⟨hnew, horder⟩ : c ∉ s.clients ∧ order.isPerm (c :: s.clients) = true := by
      simpa [enabled] using henabled
    have hplayers : (final (ServerM.insertClient c name role order) s).players =
        ⟨order, Function.update s.players.id c (-1)⟩ := by
      have hfinal : final (ServerM.insertClient c name role order) s =
          ({ s with clients := order } : ServerState κ).update c fun _ =>
            { TClient.fresh name role (-1) with } := rfl
      rw [hfinal, players_update_id]
      rfl
    exact hplayers ▸ .come c order hnew (List.isPerm_iff.mp horder)
  | onConnect c =>
    obtain ⟨-, hnone⟩ : c ∈ s.clients ∧ (s.client c).id = -1 := by simpa [enabled] using henabled
    have hplayers : (final (ServerM.onConnect env c) s).players = _ := onConnect_players c s
    refine hplayers ▸ .name c _ hnone (Int.natCast_nonneg _) ?_
    intro d hd heq
    exact RestartScan.leastUnused_not_mem Int.ofNat_injective _
      (heq ▸ List.mem_map_of_mem (f := s.players.id) hd)
  | resourcesSynced c random Map =>
    exact hfixed _ (frame_players.resourcesSynced c random Map)
  | receive c Packet => exact hfixed _ ((frameBut_players c).receive Packet)
  | bindUDP c => exact hfixed _ (frame_players.updateClient c fun _ => rfl)
  | receiveUDP c Packet => exact hfixed _ ((frameBut_players c).globalParser Packet true)
  | looper c => exact hfixed _ (frame_players.fixes (looper_core c))
  | disconnectClient c =>
    exact hfixed _ (frame_players.fixes (ServerM.disconnectClient_core c))
  | removeClient c =>
    have hplayers := removeClient_players c s
    exact hplayers ▸ .leave c rfl
  | onDisconnect c =>
    have hfarewell : (final (ServerM.farewell env c) s).players = s.players :=
      (frameBut_players c).farewell s
    unfold run ServerM.onDisconnect
    rw [final_bind]
    unfold final at hfarewell
    cases hends : ServerM.farewell env c s with
    | ok _ m =>
      rw [hends] at hfarewell
      have hplayers : (final (ServerM.removeClient c) m).players =
          ⟨s.players.clients.filter (· ≠ c), s.players.id⟩ := hfarewell ▸ removeClient_players c m
      exact hplayers ▸ .leave c rfl
    | error _ m =>
      rw [hends] at hfarewell
      exact hfarewell ▸ .stay
  | message a => exact hfixed _ (frame_players.message a)
  | removeVehicle PID VID => exact hfixed _ (removeVehicle_players PID VID).discard

omit [DecidableEq κ] in
theorem start_distinct : (ServerState.start κ).players.Distinct :=
  fun _ hc => absurd hc List.not_mem_nil

theorem run_distinct {calls : List (ServerCall κ)} (hs : s.players.Distinct)
    (hrun : Execution.run (step env) s calls = some t) : t.players.Distinct := by
  apply Execution.run_invariant_of_step (I := fun s : ServerState κ => s.players.Distinct) _ hs hrun
  intro m a m' hm hstep
  exact (step_players hstep).distinct hm

theorem run_keeps {calls : List (ServerCall κ)} (hc : c ∈ s.clients) (hid : 0 ≤ (s.client c).id)
    (hstays : ∀ a ∈ calls, a.leaver ≠ some c)
    (hrun : Execution.run (step env) s calls = some t) :
    c ∈ t.clients ∧ (t.client c).id = (s.client c).id := by
  have halong : Execution.Along (step env) (fun _ a => a.leaver ≠ some c) s calls :=
    Execution.along_of_forall hstays
  apply Execution.run_invariant
    (I := fun m : ServerState κ => c ∈ m.clients ∧ (m.client c).id = (s.client c).id) _ ⟨hc, rfl⟩
    halong hrun
  rintro m a m' ⟨hcm, hsame⟩ hguard hstep
  have hnonneg : 0 ≤ (m.client c).id := hsame ▸ hid
  obtain ⟨hcm', hkept⟩ := (step_players hstep).keeps hcm hnonneg hguard
  exact ⟨hcm', hkept.trans hsame⟩

/-- From any reachable state on, a player who has an ID keeps it for as long as the player does
not leave, and in the meantime no other player has it. -/
theorem id_names_one_player (env : ServerEnv κ) (before after : List (ServerCall κ))
    (s t : ServerState κ) (c : κ)
    (hbefore : Execution.run (step env) (ServerState.start κ) before = some s)
    (hafter : Execution.run (step env) s after = some t) (hc : c ∈ s.clients)
    (hid : 0 ≤ (s.client c).id) (hstays : ∀ a ∈ after, a.leaver ≠ some c) :
    c ∈ t.clients ∧ (t.client c).id = (s.client c).id ∧
      ∀ d ∈ t.clients, (t.client d).id = (s.client c).id → d = c := by
  obtain ⟨hct, hkept⟩ := run_keeps hc hid hstays hafter
  have hnonneg : 0 ≤ (t.client c).id := hkept ▸ hid
  have hdistinct : t.players.Distinct := run_distinct (run_distinct start_distinct hbefore) hafter
  refine ⟨hct, hkept, fun d hd hdid => ?_⟩
  exact hdistinct c hct d hd (hdid.trans hkept.symm) hnonneg

/-- The first of two players leaves and comes back. -/
theorem id_names_one_player_sample :
    ∃ s t, Execution.run (step quietEnv) (ServerState.start Bool)
        [.insertClient true [] [] [true], .onConnect true,
          .insertClient false [] [] [true, false], .onConnect false] = some s ∧
      Execution.run (step quietEnv) s
        [.onDisconnect true, .insertClient true [] [] [false, true], .onConnect true] = some t ∧
      (s.client false).id = 1 ∧ false ∈ t.clients ∧ (t.client false).id = (s.client false).id ∧
      ∀ d ∈ t.clients, (t.client d).id = (s.client false).id → d = false :=
  ⟨_, _, rfl, rfl, rfl, id_names_one_player quietEnv
    [.insertClient true [] [] [true], .onConnect true, .insertClient false [] [] [true, false],
      .onConnect false]
    [.onDisconnect true, .insertClient true [] [] [false, true], .onConnect true] _ _ false rfl rfl
    (by decide) (by decide) (by decide)⟩

end ServerCall
end
end BeamMP
