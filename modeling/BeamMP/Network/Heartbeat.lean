import BeamMP.Common.Json
import Mathlib.Data.List.Chain
import Mathlib.Tactic.Common

/-!
# The heartbeat

`THeartbeatThread` posts the server's data to the backend, sooner when they have changed
since the last post, and goes by the answers until one of them has accepted the key.
It also reminds of updates.
-/
namespace BeamMP

open Bytes

/-- An answer of `Http::POST`, which leaves the response code alone when the transfer fails. -/
structure HttpReply where
  body : Bytes
  code : Option ℕ
deriving DecidableEq

/-- What a pass of the loop finds. The setting `Private` is read twice, and the clock again before
updates are checked for. -/
structure HeartbeatPass where
  Now : ℤ
  Body : Bytes
  reply : Bytes → HttpReply
  privateAtAuth : Bool
  privateAtStatus : Bool
  ImScaredOfUpdates : Bool
  UpdateReminderTimeout : ℤ
  checkedAt : ℤ

/-- A post, with the targets that were tried, and whether one of them has answered. -/
structure HeartbeatPost where
  time : ℤ
  Body : Bytes
  targets : List Bytes
  answered : Bool
deriving DecidableEq

inductive AuthLine
  | authenticated (Message : Bytes)
  | resumed (Message : Bytes)
  | refused (Message : Bytes)
deriving DecidableEq

def AuthLine.isRefused : AuthLine → Bool
  | .refused _ => true
  | _ => false

structure UpdateCheck where
  due : ℤ
  done : ℤ
  timeout : ℤ
deriving DecidableEq

/-- The variables of the loop. The posts, the lines and the checks are history, the newest one
first, and `wentPrivate` says that a pass has found the server private. -/
structure Heartbeat where
  Last : Bytes
  LastNormalUpdateTime : ℤ
  LastUpdateReminderTime : ℤ
  isAuth : Bool
  posts : List HeartbeatPost
  log : List AuthLine
  checks : List UpdateCheck
  wentPrivate : Bool
deriving DecidableEq

structure HeartbeatAnswer where
  Status : Bytes
  Code : Bytes
  Message : Bytes
deriving DecidableEq

def stringMember (Doc : Json) (key : String) : Option Bytes :=
  match Doc.member (ascii key) with
  | some (.string s) => some s
  | _ => none

def heartbeatAnswer (Doc : Json) : Option HeartbeatAnswer :=
  match stringMember Doc "status", stringMember Doc "code", stringMember Doc "msg" with
  | some Status, some Code, some Message => some ⟨Status, Code, Message⟩
  | _, _, _ => none

/-- The loop over the backends, with `/heartbeat` behind each of them: the targets that are tried,
and the first answer that is an object with the response code 200. -/
def postHeartbeat (json : JsonText) (reply : Bytes → HttpReply) :
    List Bytes → ℕ → List Bytes × Option Json
  | [], _ => ([], none)
  | Target :: Targets, ResponseCode =>
    let code := (reply Target).code.getD ResponseCode
    match (json.parse (reply Target).body).filter fun Doc => Doc.isObject && code == 200 with
    | some Doc => ([Target], some Doc)
    | none =>
      let (targets, Doc) := postHeartbeat json reply Targets code
      (Target :: targets, Doc)

/-- Nanoseconds. -/
def seconds (n : ℕ) : ℤ := (n : ℤ) * 1000000000

/-- How long after the last post the next one is due. -/
def threshold (Last Body : Bytes) : ℤ := if Last = Body then seconds 30 else seconds 5

/-- The line that an accepted or refused key is reported with. -/
def authLine (answer : HeartbeatAnswer) : AuthLine :=
  if answer.Status = ascii "2000" then .authenticated answer.Message
  else if answer.Status = ascii "200" then .resumed answer.Message
  else if answer.Message = [] then .refused (ascii "Backend didn't provide a reason.")
  else .refused answer.Message

namespace Heartbeat

variable (json : JsonText) (Targets : List Bytes)

/-- The thread begins at the time `now`. -/
def start (now : ℤ) : Heartbeat where
  Last := []
  LastNormalUpdateTime := now
  LastUpdateReminderTime := now
  isAuth := false
  posts := []
  log := []
  checks := []
  wentPrivate := false

def isDue (s : Heartbeat) (p : HeartbeatPass) : Bool :=
  !decide (p.Now - s.LastNormalUpdateTime < threshold s.Last p.Body)

def answer (p : HeartbeatPass) : Option HeartbeatAnswer :=
  (postHeartbeat json p.reply Targets 0).2.bind heartbeatAnswer

def post (s : Heartbeat) (p : HeartbeatPass) : Heartbeat :=
  let (targets, Doc) := postHeartbeat json p.reply Targets 0
  { s with
    Last := p.Body
    LastNormalUpdateTime := p.Now
    posts := ⟨p.Now, p.Body, targets, Doc.isSome⟩ :: s.posts
    wentPrivate := s.wentPrivate || p.privateAtStatus }

def authorize (s : Heartbeat) (p : HeartbeatPass) : Heartbeat :=
  match answer json Targets p with
  | none => s
  | some answer =>
    if !s.isAuth && !p.privateAtAuth then
      { s with
        isAuth := !(authLine answer).isRefused
        log := authLine answer :: s.log }
    else s

/-- The reminder looks at the time that had passed when the pass began. -/
def remind (s : Heartbeat) (p : HeartbeatPass) : Heartbeat :=
  if !p.ImScaredOfUpdates &&
      decide (p.UpdateReminderTimeout < p.Now - s.LastUpdateReminderTime) then
    { s with
      LastUpdateReminderTime := p.checkedAt
      checks := ⟨p.Now, p.checkedAt, p.UpdateReminderTimeout⟩ :: s.checks }
  else s

def pass (s : Heartbeat) (p : HeartbeatPass) : Heartbeat :=
  if s.isDue p then (((s.post json Targets p).authorize json Targets p).remind p) else s

def setsGood (s : Heartbeat) (p : HeartbeatPass) : Bool :=
  s.isDue p && ((s.pass json Targets p).isAuth || p.privateAtStatus)

section Fields

variable {json Targets} {s : Heartbeat} {p : HeartbeatPass}

theorem pass_of_not_due (h : s.isDue p = false) : s.pass json Targets p = s := by
  simp [pass, h]

theorem pass_of_due (h : s.isDue p = true) : s.pass json Targets p =
    ((s.post json Targets p).authorize json Targets p).remind p := by
  simp [pass, h]

/-- The answer changes what is known of the key and nothing else. -/
theorem authorize_eq : s.authorize json Targets p =
    { s with
      isAuth := (s.authorize json Targets p).isAuth
      log := (s.authorize json Targets p).log } := by
  unfold authorize
  split
  · rfl
  · split_ifs <;> rfl

/-- The reminder changes what it goes by and nothing else. -/
theorem remind_eq : s.remind p =
    { s with
      LastUpdateReminderTime := (s.remind p).LastUpdateReminderTime
      checks := (s.remind p).checks } := by
  unfold remind
  split_ifs <;> rfl

end Fields

def Follows (post earlier : HeartbeatPost) : Prop :=
  earlier.time + threshold earlier.Body post.Body ≤ post.time

def ChecksAfter (check earlier : UpdateCheck) : Prop := earlier.done + check.timeout < check.due

/-- The posts, and before them the start of the thread. -/
def postHistory (s : Heartbeat) (now : ℤ) : List HeartbeatPost := s.posts ++ [⟨now, [], [], false⟩]

def checkHistory (s : Heartbeat) (now : ℤ) : List UpdateCheck := s.checks ++ [⟨now, now, 0⟩]

def responseCode (reply : Bytes → HttpReply) (ResponseCode : ℕ) (tried : List Bytes) : ℕ :=
  tried.foldl (fun code Target => (reply Target).code.getD code) ResponseCode

/-- The last target that was tried has answered with an object and the code 200. -/
def Answered (json : JsonText) (reply : Bytes → HttpReply) (ResponseCode : ℕ)
    (tried : List Bytes) : Prop :=
  responseCode reply ResponseCode tried = 200 ∧
    ∃ Target ∈ tried.getLast?, ∃ Doc ∈ json.parse (reply Target).body, Doc.isObject = true

/-- The targets are tried in their order until one has answered. -/
structure TriedInOrder (json : JsonText) (reply : Bytes → HttpReply) (ResponseCode : ℕ)
    (Targets tried : List Bytes) (answered : Bool) : Prop where
  inOrder : tried <+: Targets
  unanswered : ∀ earlier, earlier <+: tried → earlier ≠ tried →
    ¬ Answered json reply ResponseCode earlier
  stopped : answered = true ↔ Answered json reply ResponseCode tried
  exhausted : answered = false → tried = Targets

/-- What a pass that posts has posted, and where it has tried to. -/
def PostedBy (json : JsonText) (Targets : List Bytes) (p : HeartbeatPass) (post : HeartbeatPost) :
    Prop :=
  post.time = p.Now ∧ post.Body = p.Body ∧
    TriedInOrder json p.reply 0 Targets post.targets post.answered

/-- The variables of the loop are those of the newest entries of the history. -/
structure Regular (now : ℤ) (s : Heartbeat) : Prop where
  newest : ∀ post ∈ (s.postHistory now).head?,
    post.time = s.LastNormalUpdateTime ∧ post.Body = s.Last
  spaced : (s.postHistory now).IsChain Follows
  lastCheck : ∀ check ∈ (s.checkHistory now).head?, check.done = s.LastUpdateReminderTime
  checksSpaced : (s.checkHistory now).IsChain ChecksAfter
  checksPosted : ∀ check ∈ s.checks, ∃ post ∈ s.posts, post.time = check.due
  once : s.log.IsChain fun _ earlier => earlier.isRefused = true
  reported : s.isAuth = true ↔ ∃ line ∈ s.log, line.isRefused = false

variable {json Targets} {now : ℤ} {s : Heartbeat} {p : HeartbeatPass}

theorem regular_start : (start now).Regular now := by
  constructor <;> simp [start, postHistory, checkHistory]

section Tries

variable {reply : Bytes → HttpReply} {ResponseCode : ℕ} {Target : Bytes} {tried : List Bytes}

theorem not_answered_nil : ¬ Answered json reply ResponseCode [] := by
  simp [Answered]

theorem answered_singleton_iff : Answered json reply ResponseCode [Target] ↔
    ∃ Doc ∈ json.parse (reply Target).body,
      (Doc.isObject && (reply Target).code.getD ResponseCode == 200) = true := by
  constructor
  · rintro ⟨hcode, Target', hlast, Doc, hDoc, hobject⟩
    obtain rfl := Option.some.inj hlast
    exact ⟨Doc, hDoc, by simpa [responseCode, hobject] using hcode⟩
  · rintro ⟨Doc, hDoc, hgood⟩
    obtain ⟨hobject, hcode⟩ := Bool.and_eq_true_iff.mp hgood
    exact ⟨by simpa [responseCode] using hcode, Target, rfl, Doc, hDoc, hobject⟩

/-- What follows a target that has not answered does not depend on it, but for the code. -/
theorem answered_cons_iff (h : ¬ Answered json reply ResponseCode [Target]) :
    Answered json reply ResponseCode (Target :: tried) ↔
      Answered json reply ((reply Target).code.getD ResponseCode) tried := by
  cases tried with
  | nil => simp [h, not_answered_nil]
  | cons next tried => simp [Answered, responseCode, List.getLast?_cons_cons]

theorem TriedInOrder.cons (h : ¬ Answered json reply ResponseCode [Target]) {answered : Bool}
    (htried : TriedInOrder json reply ((reply Target).code.getD ResponseCode) Targets tried
      answered) :
    TriedInOrder json reply ResponseCode (Target :: Targets) (Target :: tried) answered where
  inOrder := List.prefix_cons_inj Target |>.mpr htried.inOrder
  unanswered earlier hearlier hne := by
    cases earlier with
    | nil => exact not_answered_nil
    | cons first earlier =>
      obtain ⟨rfl, hrest⟩ := List.cons_prefix_cons.mp hearlier
      rw [answered_cons_iff h]
      exact htried.unanswered earlier hrest fun heq => hne (heq ▸ rfl)
  stopped := htried.stopped.trans (answered_cons_iff h).symm
  exhausted hnot := by rw [htried.exhausted hnot]

theorem tried_postHeartbeat (reply : Bytes → HttpReply) (ResponseCode : ℕ) :
    TriedInOrder json reply ResponseCode Targets
      (postHeartbeat json reply Targets ResponseCode).1
      (postHeartbeat json reply Targets ResponseCode).2.isSome := by
  induction Targets generalizing ResponseCode with
  | nil =>
    refine ⟨List.prefix_rfl, fun earlier hearlier hne => ?_, ?_, fun _ => rfl⟩
    · exact absurd (List.prefix_nil.mp hearlier) hne
    · simp [postHeartbeat, not_answered_nil]
  | cons Target Targets ih =>
    unfold postHeartbeat
    dsimp only
    split
    · rename_i Doc hDoc
      obtain ⟨hparse, hgood⟩ := Option.filter_eq_some_iff.mp hDoc
      refine ⟨by simp, fun earlier hearlier hne => ?_, ?_, by simp⟩
      · cases earlier with
        | nil => exact not_answered_nil
        | cons first earlier =>
          obtain ⟨rfl, hrest⟩ := List.cons_prefix_cons.mp hearlier
          exact absurd (by rw [List.prefix_nil.mp hrest]) hne
      · simpa using answered_singleton_iff.mpr ⟨Doc, hparse, hgood⟩
    · rename_i hDoc
      refine (ih _).cons fun hanswered => ?_
      obtain ⟨Doc, hparse, hgood⟩ := answered_singleton_iff.mp hanswered
      exact Option.filter_eq_none_iff.mp hDoc Doc hparse hgood

end Tries

theorem Regular.post (hs : s.Regular now) (hdue : s.isDue p = true) :
    (s.post json Targets p).Regular now := by
  have hthreshold : s.LastNormalUpdateTime + threshold s.Last p.Body ≤ p.Now := by
    simp only [isDue, Bool.not_eq_true', decide_eq_false_iff_not, not_lt] at hdue
    omega
  constructor
  · simp [Heartbeat.post, postHistory]
  · refine List.isChain_cons.mpr ⟨fun earlier hearlier => ?_, hs.spaced⟩
    obtain ⟨htime, hBody⟩ := hs.newest earlier hearlier
    rw [Follows, htime, hBody]
    exact hthreshold
  · exact hs.lastCheck
  · exact hs.checksSpaced
  · intro check hcheck
    obtain ⟨post, hpost, htime⟩ := hs.checksPosted check hcheck
    exact ⟨post, List.mem_cons_of_mem _ hpost, htime⟩
  · exact hs.once
  · exact hs.reported

/-- A key that has not been accepted has only been refused. -/
theorem Regular.authorize (hs : s.Regular now) :
    (s.authorize json Targets p).Regular now := by
  have hlog : (s.authorize json Targets p).log.IsChain (fun _ earlier => earlier.isRefused = true) ∧
      ((s.authorize json Targets p).isAuth = true ↔
        ∃ line ∈ (s.authorize json Targets p).log, line.isRefused = false) := by
    unfold Heartbeat.authorize
    split
    · exact ⟨hs.once, hs.reported⟩
    · split_ifs with hasks
      · have hrefused : ∀ line ∈ s.log, line.isRefused = true := by
          have hnot : ¬ ∃ line ∈ s.log, line.isRefused = false := by
            rw [← hs.reported]
            simpa using (Bool.and_eq_true_iff.mp hasks).1
          simpa using hnot
        constructor
        · refine List.isChain_cons.mpr ⟨fun line hline => ?_, hs.once⟩
          exact hrefused line (List.mem_of_mem_head? hline)
        · simp only [Bool.not_eq_true', List.mem_cons, exists_eq_or_imp, iff_self_or]
          rintro ⟨line, hline, haccepted⟩
          simp [hrefused line hline] at haccepted
      · exact ⟨hs.once, hs.reported⟩
  rw [authorize_eq]
  exact { hs with once := hlog.1, reported := hlog.2 }

theorem Regular.remind (hs : s.Regular now)
    (hpost : ∃ post ∈ s.posts, post.time = p.Now) : (s.remind p).Regular now := by
  unfold Heartbeat.remind
  split_ifs with hdue
  · have htimeout := of_decide_eq_true (Bool.and_eq_true_iff.mp hdue).2
    refine { hs with lastCheck := ?_, checksSpaced := ?_, checksPosted := ?_ }
    · simp [checkHistory]
    · refine List.isChain_cons.mpr ⟨fun earlier hearlier => ?_, hs.checksSpaced⟩
      rw [ChecksAfter, hs.lastCheck earlier hearlier]
      dsimp only
      omega
    · intro check hcheck
      rcases List.mem_cons.mp hcheck with rfl | hcheck
      · exact hpost
      · exact hs.checksPosted check hcheck
  · exact hs

theorem Regular.pass (hs : s.Regular now) :
    (s.pass json Targets p).Regular now := by
  cases hdue : s.isDue p with
  | false =>
    rw [pass_of_not_due hdue]
    exact hs
  | true =>
    rw [pass_of_due hdue]
    refine ((hs.post hdue).authorize).remind ?_
    rw [authorize_eq]
    exact ⟨_, List.mem_cons_self, rfl⟩

theorem Regular.run (hs : s.Regular now) (passes : List HeartbeatPass) :
    (passes.foldl (·.pass json Targets) s).Regular now := by
  induction passes generalizing s with
  | nil => exact hs
  | cons p passes ih => exact ih hs.pass

theorem mem_posts_pass {post : HeartbeatPost} (hpost : post ∈ (s.pass json Targets p).posts) :
    post ∈ s.posts ∨ PostedBy json Targets p post := by
  cases hdue : s.isDue p with
  | false =>
    rw [pass_of_not_due hdue] at hpost
    exact .inl hpost
  | true =>
    rw [pass_of_due hdue, remind_eq, authorize_eq] at hpost
    rcases List.mem_cons.mp hpost with rfl | hpost
    · exact .inr ⟨rfl, rfl, tried_postHeartbeat p.reply 0⟩
    · exact .inl hpost

theorem mem_posts_run (passes : List HeartbeatPass) {post : HeartbeatPost}
    (hpost : post ∈ (passes.foldl (·.pass json Targets) s).posts) :
    post ∈ s.posts ∨ ∃ p ∈ passes, PostedBy json Targets p post := by
  induction passes generalizing s with
  | nil => exact .inl hpost
  | cons p passes ih =>
    rcases ih hpost with hfirst | ⟨p', hp', hposted⟩
    · exact (mem_posts_pass hfirst).imp id fun hposted => ⟨p, List.mem_cons_self, hposted⟩
    · exact .inr ⟨p', List.mem_cons_of_mem p hp', hposted⟩

/-- The server is known to the backend, or has not wanted to be. -/
def Settled (s : Heartbeat) : Prop := s.isAuth = true ∨ s.wentPrivate = true

theorem Settled.authorize (hs : s.Settled) : (s.authorize json Targets p).Settled := by
  unfold Heartbeat.authorize
  split
  · exact hs
  · split_ifs with hasks
    · exact hs.imp (fun hauth => by simp [hauth] at hasks) id
    · exact hs

theorem Settled.pass (hs : s.Settled) : (s.pass json Targets p).Settled := by
  cases hdue : s.isDue p with
  | false =>
    rw [pass_of_not_due hdue]
    exact hs
  | true =>
    have hpost : (s.post json Targets p).Settled :=
      hs.imp id fun hprivate => by simp [Heartbeat.post, hprivate]
    rw [pass_of_due hdue, remind_eq]
    exact hpost.authorize

theorem settled_of_setsGood (h : s.setsGood json Targets p = true) :
    (s.pass json Targets p).Settled := by
  obtain ⟨hdue, hgood⟩ := Bool.and_eq_true_iff.mp h
  rcases Bool.or_eq_true_iff.mp hgood with hauth | hprivate
  · exact .inl hauth
  · right
    rw [pass_of_due hdue, remind_eq, authorize_eq]
    simp [Heartbeat.post, hprivate]

/-- For every sequence of passes of the loop, whatever the clock, the settings, the server's data
and the backends do: a post follows the one before it after five seconds, and after thirty when
the data are the same. Each post is that of a pass and tries the backends in their order until one
has answered. A key is accepted no more than once, and not refused after that, and the variable
says whether it was. A check for updates is only made with a post, and later than the reminder
time asks for since the one before it. -/
theorem posts_keep_distance (json : JsonText) (Targets : List Bytes) (now : ℤ)
    (passes : List HeartbeatPass) :
    let s := passes.foldl (·.pass json Targets) (start now)
    (s.postHistory now).IsChain Follows ∧
    (∀ post ∈ s.posts, ∃ p ∈ passes, PostedBy json Targets p post) ∧
    s.log.IsChain (fun _ earlier => earlier.isRefused = true) ∧
    (s.isAuth = true ↔ ∃ line ∈ s.log, line.isRefused = false) ∧
    (s.checkHistory now).IsChain ChecksAfter ∧
    ∀ check ∈ s.checks, ∃ post ∈ s.posts, post.time = check.due := by
  intro s
  have hs : s.Regular now := regular_start.run passes
  have hposted : ∀ post ∈ s.posts, ∃ p ∈ passes, PostedBy json Targets p post := by
    intro post hpost
    exact (mem_posts_run passes hpost).resolve_left List.not_mem_nil
  exact ⟨hs.spaced, hposted, hs.once, hs.reported, hs.checksSpaced, hs.checksPosted⟩

end Heartbeat
end BeamMP
