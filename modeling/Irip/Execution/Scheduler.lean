import Mathlib.Data.String.Basic
import Mathlib.Logic.Function.Basic
import Irip.Base.Run
import Irip.Common

/-!
# `Execution.Scheduler` — slots, queue and heartbeats of the analysis runs

`ResearchScheduler` keeps in Redis which users hold a slot and for which run, the queue of the runs that wait, and a
heartbeat for each run. Two tasks of the beat use it: one promotes runs from the queue and sends them for execution, one
reaps the runs whose heartbeat is missing or old.
-/

namespace Irip.Execution.Scheduler

open Runs

abbrev UserId := Uuid
abbrev RunId := Uuid

/-! ## Redis -/

/-- A member of the queue. -/
structure Entry where
  run : RunId
  score : Time
deriving DecidableEq

/-- The order of a sorted set: by score, then by member. -/
def Entry.before (a b : Entry) : Prop := a.score < b.score ∨ (a.score = b.score ∧ a.run ≤ b.run)

instance decidableBefore : DecidableRel Entry.before := fun a b =>
  inferInstanceAs (Decidable (a.score < b.score ∨ (a.score = b.score ∧ a.run ≤ b.run)))

/-- `ZADD`: a member that is there gets the new score. -/
def zadd (queue : List Entry) (run : RunId) (score : Time) : List Entry :=
  (queue.filter (fun e => e.run ≠ run)).orderedInsert Entry.before ⟨run, score⟩

/-- The keys of the scheduler. The queue is in its order. -/
structure Redis where
  activeUsers : List UserId := []
  activeUser : UserId → Option RunId := fun _ => none
  queue : List Entry := []
  heartbeat : RunId → Option Time := fun _ => none -- when it was written; it expires after a minute

/-- The answer of `GET` for a heartbeat. -/
def Redis.getHeartbeat (r : Redis) (now : Time) (run : RunId) : Option Time :=
  (r.heartbeat run).filter (fun t => now < t + seconds 60)

/-! ## The scheduler -/

/-- `MAX_CONCURRENT_USERS` and `HEARTBEAT_TIMEOUT`. -/
structure Settings where
  maxConcurrentUsers : Nat
  heartbeatTimeout : Time

/-- `acquire_slot`: whether a slot was got, and the position in the queue otherwise. -/
def acquireSlot (cfg : Settings) (r : Redis) (now : Time) (user : UserId) (run : RunId) : Redis × Bool × Int :=
  match r.activeUser user with
  | some _ => (r, false, -1)
  | none =>
    if r.activeUsers.length < cfg.maxConcurrentUsers then
      ({ r with activeUsers := r.activeUsers.insert user
                activeUser := Function.update r.activeUser user (some run) }, true, 0)
    else
      let queue := zadd r.queue run now
      ({ r with queue := queue }, false, queue.findIdx (fun e => e.run = run) + 1)

def releaseSlot (r : Redis) (user : UserId) (run : RunId) : Redis :=
  { r with activeUsers := r.activeUsers.filter (· ≠ user)
           activeUser := Function.update r.activeUser user none
           heartbeat := Function.update r.heartbeat run none }

def registerHeartbeat (r : Redis) (now : Time) (run : RunId) : Redis :=
  { r with heartbeat := Function.update r.heartbeat run (some now) }

/-- The loop of `check_and_promote`: each round reads how many users are active, and takes the first run of the queue. -/
def promoteLoop (cfg : Settings) (activeUsers : List UserId) : List Entry → List RunId × List Entry
  | [] => ([], [])
  | e :: queue =>
    if cfg.maxConcurrentUsers ≤ activeUsers.length then ([], e :: queue)
    else
      let (promoted, rest) := promoteLoop cfg activeUsers queue
      (e.run :: promoted, rest)

def checkAndPromote (cfg : Settings) (r : Redis) : List RunId × Redis :=
  let (promoted, rest) := promoteLoop cfg r.activeUsers r.queue
  (promoted, { r with queue := rest })

/-- The heartbeat of a run is missing, or older than the timeout. -/
def isExpired (cfg : Settings) (r : Redis) (now : Time) (run : RunId) : Bool :=
  match r.getHeartbeat now run with
  | none => true
  | some beat => cfg.heartbeatTimeout < now - beat

/-- One round of `check_heartbeats`. -/
def checkUser (cfg : Settings) (now : Time) (acc : List RunId × Redis) (user : UserId) : List RunId × Redis :=
  match acc.2.activeUser user with
  | none => acc
  | some run =>
    if isExpired cfg acc.2 now run then (acc.1 ++ [run], releaseSlot acc.2 user run) else acc

/-- `check_heartbeats`: the runs that have expired; their slots are released. -/
def checkHeartbeats (cfg : Settings) (r : Redis) (now : Time) : List RunId × Redis :=
  r.activeUsers.foldl (checkUser cfg now) ([], r)

/-! ## The system -/

structure Sys where
  redis : Redis := {}
  now : Time := 0
  running : List RunId := [] -- has a slot, or was sent for execution, and has not ended
  ended : List RunId := [] -- its status is a final one
  lastBeat : RunId → Option Time := fun _ => none

/-- Nothing yet. -/
def Sys.init : Sys := {}

inductive Action where
  | tick (d : Nat) -- time passes
  | submit (user : UserId) (run : RunId) -- `acquire_slot`
  | heartbeat (run : RunId) -- the run that executes registers a heartbeat
  | finish (user : UserId) (run : RunId) -- the run has ended, and its slot is released
  | cancel (user : UserId) (run : RunId) -- `cancel_run` of a run that `user` created
  | promote -- `promote_queued_runs`
  | reap -- `check_run_heartbeat`

/-- The state after a run has ended and its slot has been released. -/
def Sys.release (s : Sys) (user : UserId) (run : RunId) : Sys :=
  { s with redis := releaseSlot s.redis user run
           running := s.running.filter (· ≠ run)
           ended := s.ended.insert run }

/-- The step function. -/
def step (cfg : Settings) (s : Sys) : Action → Option Sys
  | .tick d => some { s with now := s.now + d }
  | .submit user run =>
    let (redis, acquired, _) := acquireSlot cfg s.redis s.now user run
    some { s with redis := redis, running := if acquired then s.running.insert run else s.running }
  | .heartbeat run =>
    some { s with redis := registerHeartbeat s.redis s.now run
                  lastBeat := Function.update s.lastBeat run (some s.now) }
  | .finish user run => some (s.release user run)
  | .cancel user run => if run ∈ s.ended then none else some (s.release user run)
  | .promote =>
    let (promoted, redis) := checkAndPromote cfg s.redis
    -- a run that has ended meanwhile is skipped
    some { s with redis := redis, running := promoted.filter (· ∉ s.ended) ∪ s.running }
  | .reap =>
    let (expired, redis) := checkHeartbeats cfg s.redis s.now
    some { s with redis := redis, running := s.running.filter (· ∉ expired), ended := expired ∪ s.ended }

/-! ## One step -/

/-- The user and the run that an action calls `release_slot` with. -/
def Action.releases : Action → Option (UserId × RunId)
  | .finish user run => some (user, run)
  | .cancel user run => some (user, run)
  | _ => none

/-- The last heartbeat of the run is younger than the threshold. -/
def Sys.Young (cfg : Settings) (s : Sys) (run : RunId) : Prop :=
  ∃ beat, s.lastBeat run = some beat ∧ s.now - beat < cfg.heartbeatTimeout

/-- What a step is to respect. -/
structure Keeps (cfg : Settings) (t : Transition Sys Action) : Prop where
  capacity : t.post.redis.activeUsers.length ≤ cfg.maxConcurrentUsers ∧
    t.post.running.length ≤ cfg.maxConcurrentUsers
  promote : t.act = .promote →
    (checkAndPromote cfg t.pre.redis).1.length ≤ cfg.maxConcurrentUsers - t.pre.running.length ∧
    t.pre.redis.queue.map Entry.run = (checkAndPromote cfg t.pre.redis).1 ++ t.post.redis.queue.map Entry.run ∧
    t.pre.redis.queue.Pairwise Entry.before
  release : ∀ user run, t.act.releases = some (user, run) → ∀ other, t.pre.redis.activeUser user = some other →
    other ≠ run → t.post.redis.activeUser user = some other
  reap : t.act = .reap → ∀ run ∈ (checkHeartbeats cfg t.pre.redis t.pre.now).1, ¬ t.pre.Young cfg run

/-- When a slot is free the runs that execute leave room: for a run that is submitted, and for all of the queue when it is
promoted. A slot is released for the run that holds it. No heartbeat of a run that holds a slot has been dropped
while it was young. -/
def Regular (cfg : Settings) (t : Transition Sys Action) : Prop :=
  match t.act with
  | .submit user run => t.pre.redis.activeUser user = none →
      t.pre.redis.activeUsers.length < cfg.maxConcurrentUsers → run ∉ t.pre.running →
      t.pre.running.length < cfg.maxConcurrentUsers
  | .promote => t.pre.redis.activeUsers.length < cfg.maxConcurrentUsers →
      t.pre.redis.queue.length + t.pre.running.length ≤ cfg.maxConcurrentUsers
  | .finish user run => ∀ other, t.pre.redis.activeUser user = some other → other = run
  | .cancel user run => ∀ other, t.pre.redis.activeUser user = some other → other = run
  | .reap => ∀ user ∈ t.pre.redis.activeUsers, ∀ run, t.pre.redis.activeUser user = some run →
      t.pre.redis.getHeartbeat t.pre.now run = none → ¬ t.pre.Young cfg run
  | _ => True

/-- The slots and the runs that execute are within the limit, the queue is in its order, and a heartbeat is the last one
its run gave. -/
structure Sound (cfg : Settings) (s : Sys) : Prop where
  slots : s.redis.activeUsers.length ≤ cfg.maxConcurrentUsers
  running : s.running.length ≤ cfg.maxConcurrentUsers
  ordered : s.redis.queue.Pairwise Entry.before
  beats : ∀ run beat, s.redis.heartbeat run = some beat → s.lastBeat run = some beat

section Steps

variable {cfg : Settings} {s s' : Sys}

/-! ### Promotion -/

/-- **What is promoted**: nothing while all slots are taken, and the whole queue otherwise. -/
theorem promoteLoop_eq (cfg : Settings) (activeUsers : List UserId) (queue : List Entry) :
    promoteLoop cfg activeUsers queue =
      if cfg.maxConcurrentUsers ≤ activeUsers.length then ([], queue) else (queue.map Entry.run, []) := by
  induction queue with
  | nil => split <;> rfl
  | cons e queue ih =>
    rw [promoteLoop, ih]
    split
    · rfl
    · rfl

theorem checkAndPromote_eq (cfg : Settings) (r : Redis) :
    checkAndPromote cfg r =
      if cfg.maxConcurrentUsers ≤ r.activeUsers.length then ([], r)
      else (r.queue.map Entry.run, { r with queue := [] }) := by
  unfold checkAndPromote
  rw [promoteLoop_eq]
  by_cases hfull : cfg.maxConcurrentUsers ≤ r.activeUsers.length
  · rw [if_pos hfull, if_pos hfull]
  · rw [if_neg hfull, if_neg hfull]

/-! ### Reaping -/

/-- The slots and heartbeats that a round of the reaper finds: those of the users before it are gone. -/
structure Visited (r : Redis) (before : List UserId) (acc : List RunId × Redis) : Prop where
  slots : ∀ user, user ∉ before → acc.2.activeUser user = r.activeUser user
  beats : ∀ run, run ∉ acc.1 → acc.2.heartbeat run = r.heartbeat run
  gone : ∀ run beat, acc.2.heartbeat run = some beat → r.heartbeat run = some beat
  others : ∀ user, acc.2.activeUser user = r.activeUser user ∨ acc.2.activeUser user = none
  fewer : acc.2.activeUsers.length ≤ r.activeUsers.length

/-- A run is reaped exactly if a user of those before holds a slot for it, and it has expired. -/
def Reaped (cfg : Settings) (r : Redis) (now : Time) (before : List UserId) (run : RunId) : Prop :=
  ∃ user ∈ before, r.activeUser user = some run ∧ isExpired cfg r now run = true

theorem visited_checkUser {r : Redis} {now : Time} {before : List UserId} {acc : List RunId × Redis} {user : UserId}
    (h : Visited r before acc) (hreaped : ∀ run, run ∈ acc.1 ↔ Reaped cfg r now before run) :
    Visited r (before ++ [user]) (checkUser cfg now acc user) ∧
      ∀ run, run ∈ (checkUser cfg now acc user).1 ↔ Reaped cfg r now (before ++ [user]) run := by
  -- the heartbeat of a run that has not been reaped is the one that was there
  have hsame : ∀ run, run ∉ acc.1 → isExpired cfg acc.2 now run = isExpired cfg r now run := by
    intro run hrun
    unfold isExpired Redis.getHeartbeat
    rw [h.beats run hrun]
  have hlast : ∀ run, Reaped cfg r now (before ++ [user]) run ↔
      Reaped cfg r now before run ∨ (r.activeUser user = some run ∧ isExpired cfg r now run = true) := by
    intro run
    unfold Reaped
    constructor
    · rintro ⟨u, hu, hrun⟩
      rcases List.mem_append.mp hu with hu | hu
      · exact .inl ⟨u, hu, hrun⟩
      · rw [List.mem_singleton.mp hu] at hrun
        exact .inr hrun
    · rintro (⟨u, hu, hrun⟩ | hrun)
      · exact ⟨u, List.mem_append_left _ hu, hrun⟩
      · exact ⟨user, List.mem_append_right _ (List.mem_singleton.mpr rfl), hrun⟩
  have hsub : ∀ u, u ∉ before ++ [user] → u ∉ before := fun u hu hmem => hu (List.mem_append_left _ hmem)
  unfold checkUser
  cases hslot : acc.2.activeUser user with
  | none =>
    refine ⟨⟨fun u hu => h.slots u (hsub u hu), h.beats, h.gone, h.others, h.fewer⟩, fun run => ?_⟩
    rw [hlast, ← hreaped]
    constructor
    · exact .inl
    · rintro (hrun | ⟨hheld, hexpired⟩)
      · exact hrun
      · -- its slot has been released: it was reaped
        by_cases hbefore : user ∈ before
        · exact (hreaped run).mpr ⟨user, hbefore, hheld, hexpired⟩
        · rw [h.slots user hbefore, hheld] at hslot
          cases hslot
  | some held =>
    have hheld : r.activeUser user = some held := by
      rcases h.others user with heq | heq
      · rw [← heq, hslot]
      · rw [heq] at hslot
        cases hslot
    dsimp only
    split
    · next hexpired =>
        refine ⟨⟨fun u hu => ?_, fun run hrun => ?_, fun run beat hbeat => ?_, fun u => ?_, ?_⟩, fun run => ?_⟩
        · have hne : u ≠ user := by
            rintro rfl
            exact hu (List.mem_append_right _ (List.mem_singleton.mpr rfl))
          show Function.update acc.2.activeUser user none u = _
          rw [Function.update_of_ne hne]
          exact h.slots u (hsub u hu)
        · have hrun' : run ∉ acc.1 ∧ run ≠ held := by simpa using hrun
          show Function.update acc.2.heartbeat held none run = _
          rw [Function.update_of_ne hrun'.2]
          exact h.beats run hrun'.1
        · have hbeat' : Function.update acc.2.heartbeat held none run = some beat := hbeat
          by_cases heq : run = held
          · rw [heq, Function.update_self] at hbeat'
            cases hbeat'
          · rw [Function.update_of_ne heq] at hbeat'
            exact h.gone run beat hbeat'
        · show Function.update acc.2.activeUser user none u = _ ∨ _
          by_cases heq : u = user
          · right
            show Function.update acc.2.activeUser user none u = none
            rw [heq, Function.update_self]
          · rw [Function.update_of_ne heq]
            rcases h.others u with hu | hu
            · exact .inl hu
            · right
              show Function.update acc.2.activeUser user none u = none
              rw [Function.update_of_ne heq, hu]
        · exact (List.length_filter_le _ _).trans h.fewer
        · rw [hlast, List.mem_append, List.mem_singleton, hreaped]
          constructor
          · rintro (hrun | rfl)
            · exact .inl hrun
            · by_cases hmem : run ∈ acc.1
              · exact .inl ((hreaped run).mp hmem)
              · exact .inr ⟨hheld, (hsame run hmem) ▸ hexpired⟩
          · rintro (hrun | ⟨hrun, -⟩)
            · exact .inl hrun
            · rw [hheld] at hrun
              exact .inr (Option.some.inj hrun).symm
    · next hyoung =>
        refine ⟨⟨fun u hu => h.slots u (hsub u hu), h.beats, h.gone, h.others, h.fewer⟩, fun run => ?_⟩
        rw [hlast, ← hreaped]
        constructor
        · exact .inl
        · rintro (hrun | ⟨hrun, hexpired⟩)
          · exact hrun
          · rw [hheld] at hrun
            obtain rfl := Option.some.inj hrun
            by_contra hmem
            rw [hsame _ hmem] at hyoung
            exact hyoung hexpired

theorem visited_foldl {r : Redis} {now : Time} (users before : List UserId) {acc : List RunId × Redis}
    (h : Visited r before acc) (hreaped : ∀ run, run ∈ acc.1 ↔ Reaped cfg r now before run) :
    Visited r (before ++ users) (users.foldl (checkUser cfg now) acc) ∧
      ∀ run, run ∈ (users.foldl (checkUser cfg now) acc).1 ↔ Reaped cfg r now (before ++ users) run := by
  induction users generalizing before acc with
  | nil =>
    rw [List.append_nil]
    exact ⟨h, hreaped⟩
  | cons user users ih =>
    obtain ⟨hone, hreapedone⟩ := @visited_checkUser cfg r now before acc user h hreaped
    have hrest := ih (before ++ [user]) hone hreapedone
    rwa [List.append_assoc, List.singleton_append] at hrest

theorem visited_checkHeartbeats (cfg : Settings) (r : Redis) (now : Time) :
    Visited r r.activeUsers (checkHeartbeats cfg r now) ∧
      ∀ run, run ∈ (checkHeartbeats cfg r now).1 ↔ Reaped cfg r now r.activeUsers run := by
  have hstart : Visited r [] ([], r) :=
    ⟨fun _ _ => rfl, fun _ _ => rfl, fun _ _ h => h, fun _ => .inl rfl, le_refl _⟩
  have hnone : ∀ run, run ∈ ([] : List RunId) ↔ Reaped cfg r now [] run := by
    intro run
    unfold Reaped
    simp
  exact visited_foldl r.activeUsers [] hstart hnone

/-- **What is reaped**: a run that holds a slot and whose heartbeat is missing or old. -/
theorem mem_expired_iff (r : Redis) (now : Time) (run : RunId) :
    run ∈ (checkHeartbeats cfg r now).1 ↔
      ∃ user ∈ r.activeUsers, r.activeUser user = some run ∧ isExpired cfg r now run = true :=
  (visited_checkHeartbeats cfg r now).2 run

theorem not_young_of_old (hs : Sound cfg s) {run : RunId} {beat : Time}
    (hbeat : s.redis.getHeartbeat s.now run = some beat) (hold : cfg.heartbeatTimeout < s.now - beat) :
    ¬ s.Young cfg run := by
  rintro ⟨last, hlast, hyoung⟩
  have hthere : s.redis.heartbeat run = some beat := by
    unfold Redis.getHeartbeat at hbeat
    exact (Option.filter_eq_some_iff.mp hbeat).1
  have hsame := hs.beats run beat hthere
  rw [hlast] at hsame
  obtain rfl := Option.some.inj hsame
  exact absurd hyoung (not_lt.mpr hold.le)

/-! ### The steps -/

instance total_before : Std.Total Entry.before := ⟨fun a b => by
  rcases lt_trichotomy a.score b.score with hlt | heq | hgt
  · exact .inl (.inl hlt)
  · rcases le_total a.run b.run with hle | hle
    · exact .inl (.inr ⟨heq, hle⟩)
    · exact .inr (.inr ⟨heq.symm, hle⟩)
  · exact .inr (.inl hgt)⟩

instance trans_before : IsTrans Entry Entry.before := ⟨fun a b c hab hbc => by
  rcases hab with hab | ⟨hab, hab'⟩ <;> rcases hbc with hbc | ⟨hbc, hbc'⟩
  · exact .inl (hab.trans hbc)
  · exact .inl (hbc ▸ hab)
  · exact .inl (hab ▸ hbc)
  · exact .inr ⟨hab.trans hbc, hab'.trans hbc'⟩⟩

theorem ordered_zadd {queue : List Entry} (h : queue.Pairwise Entry.before) (run : RunId) (score : Time) :
    (zadd queue run score).Pairwise Entry.before :=
  (h.sublist List.filter_sublist).orderedInsert _ _

theorem length_insert_le {l : List RunId} {a : RunId} {n : Nat} (hl : l.length ≤ n) (ha : a ∉ l → l.length < n) :
    (l.insert a).length ≤ n := by
  by_cases hmem : a ∈ l
  · rwa [List.insert_of_mem hmem]
  · rw [List.insert_of_not_mem hmem, List.length_cons]
    exact ha hmem

/-- **A submission** keeps the limit exactly if there is room for a run that gets a slot. -/
theorem submit_step {user : UserId} {run : RunId} (h : step cfg s (.submit user run) = some s') (hs : Sound cfg s) :
    (Keeps cfg ⟨s, .submit user run, s'⟩ ↔ Regular cfg ⟨s, .submit user run, s'⟩) ∧
      (Regular cfg ⟨s, .submit user run, s'⟩ → Sound cfg s') := by
  obtain rfl := (Option.some.inj h).symm
  have hkeeps : ∀ t : Transition Sys Action, t.act = .submit user run →
      (Keeps cfg t ↔ t.post.redis.activeUsers.length ≤ cfg.maxConcurrentUsers ∧
        t.post.running.length ≤ cfg.maxConcurrentUsers) := by
    intro t ht
    refine ⟨fun h => h.capacity, fun h => ⟨h, fun hact => ?_, fun _ _ hact => ?_, fun hact => ?_⟩⟩
    · rw [ht] at hact; cases hact
    · rw [ht] at hact; cases hact
    · rw [ht] at hact; cases hact
  rw [hkeeps _ rfl]
  simp only [Regular]
  cases hslot : s.redis.activeUser user with
  | some held =>
    refine ⟨⟨fun _ hno => (by cases hno), fun _ => ⟨hs.slots, hs.running⟩⟩, fun _ => hs⟩
  | none =>
    dsimp only
    by_cases hfree : s.redis.activeUsers.length < cfg.maxConcurrentUsers
    · simp only [hfree, if_true, true_implies]
      have hslots : (s.redis.activeUsers.insert user).length ≤ cfg.maxConcurrentUsers :=
        length_insert_le hs.slots (fun _ => hfree)
      refine ⟨⟨fun hcap hmem => ?_, fun hroom => ⟨hslots, length_insert_le hs.running hroom⟩⟩, fun hroom => ?_⟩
      · have hlen := hcap.2
        rwa [List.insert_of_not_mem hmem, List.length_cons] at hlen
      · exact ⟨hslots, length_insert_le hs.running hroom, hs.ordered, hs.beats⟩
    · simp only [hfree, Bool.false_eq_true, false_implies, implies_true, iff_true, if_false]
      refine ⟨⟨hs.slots, hs.running⟩, fun _ => ⟨hs.slots, hs.running, ordered_zadd hs.ordered _ _, hs.beats⟩⟩

/-- **A promotion** keeps the limit exactly if the whole queue fits in when a slot is free. -/
theorem promote_step (h : step cfg s .promote = some s') (hs : Sound cfg s) :
    (Keeps cfg ⟨s, .promote, s'⟩ ↔ Regular cfg ⟨s, .promote, s'⟩) ∧
      (Regular cfg ⟨s, .promote, s'⟩ → Sound cfg s') := by
  have hpost : s'.redis = (checkAndPromote cfg s.redis).2 ∧
      s'.running = (checkAndPromote cfg s.redis).1.filter (· ∉ s.ended) ∪ s.running ∧ s'.lastBeat = s.lastBeat := by
    obtain rfl := (Option.some.inj h).symm
    exact ⟨rfl, rfl, rfl⟩
  obtain ⟨hredis, hrunning, hlast⟩ := hpost
  have hunion : ∀ l : List RunId, (l ∪ s.running).length ≤ l.length + s.running.length := by
    intro l
    induction l with
    | nil => simp
    | cons a l ih =>
      rw [List.cons_union, List.length_cons]
      have hinsert : ((l ∪ s.running).insert a).length ≤ (l ∪ s.running).length + 1 :=
        length_insert_le (Nat.le_succ _) (fun _ => Nat.lt_succ_self _)
      omega
  simp only [Regular]
  rw [checkAndPromote_eq] at hredis hrunning
  by_cases hfull : cfg.maxConcurrentUsers ≤ s.redis.activeUsers.length
  · rw [if_pos hfull] at hredis hrunning
    dsimp only at hredis
    have hsame : s'.running = s.running := by simpa using hrunning
    have hsound : Sound cfg s' :=
      ⟨hredis ▸ hs.slots, hsame ▸ hs.running, hredis ▸ hs.ordered, fun run beat hbeat => by
        rw [hlast]
        exact hs.beats run beat (hredis ▸ hbeat)⟩
    refine ⟨⟨fun _ hfree => absurd hfree (not_lt.mpr hfull), fun _ => ?_⟩, fun _ => hsound⟩
    refine ⟨⟨hsound.slots, hsound.running⟩, fun _ => ?_, fun _ _ hact => (by cases hact), fun hact => (by cases hact)⟩
    rw [checkAndPromote_eq, if_pos hfull]
    exact ⟨Nat.zero_le _, by rw [hredis]; rfl, hs.ordered⟩
  · rw [if_neg hfull] at hredis hrunning
    dsimp only at hredis
    have hcount : s'.running.length ≤ s.redis.queue.length + s.running.length := by
      rw [hrunning]
      refine (hunion _).trans (Nat.add_le_add_right ?_ _)
      rw [← List.length_map (f := Entry.run)]
      exact List.length_filter_le _ _
    have hslots : s'.redis.activeUsers.length ≤ cfg.maxConcurrentUsers := by
      rw [hredis]
      exact hs.slots
    refine ⟨⟨fun hkeeps _ => ?_, fun hfits => ?_⟩, fun hfits => ?_⟩
    · have hpromoted := (hkeeps.promote rfl).1
      rw [checkAndPromote_eq, if_neg hfull, List.length_map] at hpromoted
      have := hs.running
      show s.redis.queue.length + s.running.length ≤ _
      have hpromoted' : s.redis.queue.length ≤ cfg.maxConcurrentUsers - s.running.length := hpromoted
      omega
    · have hroom := hfits (not_le.mp hfull)
      refine ⟨⟨hslots, hcount.trans hroom⟩, fun _ => ?_, fun _ _ hact => (by cases hact), fun hact => (by cases hact)⟩
      rw [checkAndPromote_eq, if_neg hfull]
      refine ⟨?_, by rw [hredis]; simp, hs.ordered⟩
      show (s.redis.queue.map Entry.run).length ≤ cfg.maxConcurrentUsers - s.running.length
      rw [List.length_map]
      omega
    · refine ⟨hslots, hcount.trans (hfits (not_le.mp hfull)), by rw [hredis]; exact .nil, fun run beat hbeat => ?_⟩
      rw [hredis] at hbeat
      rw [hlast]
      exact hs.beats run beat hbeat

/-- **A release** frees the slot of the run only exactly if no other run holds it. -/
theorem release_step {a : Action} {user : UserId} {run : RunId} (ha : a.releases = some (user, run))
    (hpost : s' = s.release user run) (hs : Sound cfg s) :
    (Keeps cfg ⟨s, a, s'⟩ ↔ ∀ other, s.redis.activeUser user = some other → other = run) ∧ Sound cfg s' := by
  have hsound : Sound cfg s' := by
    subst hpost
    refine ⟨(List.length_filter_le _ _).trans hs.slots, (List.length_filter_le _ _).trans hs.running, hs.ordered,
      fun r beat hbeat => hs.beats r beat ?_⟩
    have hbeat' : Function.update s.redis.heartbeat run none r = some beat := hbeat
    by_cases heq : r = run
    · rw [heq, Function.update_self] at hbeat'
      cases hbeat'
    · rwa [Function.update_of_ne heq] at hbeat'
  refine ⟨⟨fun hkeeps other hother => ?_, fun hheld => ?_⟩, hsound⟩
  · by_contra hne
    have hkept := hkeeps.release user run ha other hother hne
    subst hpost
    have hgone : (s.release user run).redis.activeUser user = none := Function.update_self _ _ _
    rw [show (Transition.mk s a (s.release user run)).post = s.release user run from rfl, hgone] at hkept
    cases hkept
  · refine ⟨⟨hsound.slots, hsound.running⟩, fun hact => ?_, fun user' run' hact other hother hne => ?_, fun hact => ?_⟩
    · have hact' : a = .promote := hact
      rw [hact'] at ha
      cases ha
    · obtain ⟨rfl, rfl⟩ := Prod.mk.inj (Option.some.inj (ha.symm.trans hact))
      exact absurd (hheld other hother) hne
    · have hact' : a = .reap := hact
      rw [hact'] at ha
      cases ha

/-- **A round of the reaper** spares the young exactly if no heartbeat of a run with a slot was dropped while young. -/
theorem reap_step (h : step cfg s .reap = some s') (hs : Sound cfg s) :
    (Keeps cfg ⟨s, .reap, s'⟩ ↔ Regular cfg ⟨s, .reap, s'⟩) ∧ Sound cfg s' := by
  obtain ⟨hvisited, -⟩ := visited_checkHeartbeats cfg s.redis s.now
  have hqueue : (checkHeartbeats cfg s.redis s.now).2.queue = s.redis.queue := by
    have hfold : ∀ (users : List UserId) (acc : List RunId × Redis),
        (users.foldl (checkUser cfg s.now) acc).2.queue = acc.2.queue := by
      intro users
      induction users with
      | nil => intro acc; rfl
      | cons user users ih =>
        intro acc
        rw [List.foldl_cons, ih]
        unfold checkUser
        split
        · rfl
        · split
          · rfl
          · rfl
    exact hfold _ _
  have hsound : Sound cfg s' := by
    obtain rfl := (Option.some.inj h).symm
    exact ⟨hvisited.fewer.trans hs.slots, (List.length_filter_le _ _).trans hs.running, hqueue ▸ hs.ordered,
      fun run beat hbeat => hs.beats run beat (hvisited.gone run beat hbeat)⟩
  refine ⟨⟨fun hkeeps user huser run hheld hmissing => ?_, fun hregular => ?_⟩, hsound⟩
  · refine hkeeps.reap rfl run ((mem_expired_iff _ _ _).mpr ⟨user, huser, hheld, ?_⟩)
    unfold isExpired
    rw [hmissing]
  · refine ⟨⟨hsound.slots, hsound.running⟩, fun hact => (by cases hact), fun _ _ hact => (by cases hact),
      fun _ run hrun => ?_⟩
    obtain ⟨user, huser, hheld, hexpired⟩ := (mem_expired_iff _ _ _).mp hrun
    unfold isExpired at hexpired
    cases hbeat : s.redis.getHeartbeat s.now run with
    | none => exact hregular user huser run hheld hbeat
    | some beat =>
      rw [show (Transition.mk s Action.reap s').pre = s from rfl, hbeat] at hexpired
      exact not_young_of_old hs hbeat (of_decide_eq_true hexpired)

/-- **One step** respects what it is to respect exactly if it is regular. -/
theorem keeps_step {a : Action} (h : step cfg s a = some s') (hs : Sound cfg s) :
    (Keeps cfg ⟨s, a, s'⟩ ↔ Regular cfg ⟨s, a, s'⟩) ∧ (Regular cfg ⟨s, a, s'⟩ → Sound cfg s') := by
  -- a step that calls none of the three functions
  have hquiet : (∀ user run, a ≠ .submit user run) → a ≠ .promote → a ≠ .reap → a.releases = none → Sound cfg s' →
      (Keeps cfg ⟨s, a, s'⟩ ↔ True) := by
    intro _ hpromote hreap hrelease hsound
    refine ⟨fun _ => trivial, fun _ => ⟨⟨hsound.slots, hsound.running⟩, fun hact => absurd hact hpromote,
      fun _ _ hact => ?_, fun hact => absurd hact hreap⟩⟩
    rw [show (Transition.mk s a s').act = a from rfl, hrelease] at hact
    cases hact
  cases a with
  | tick d =>
    obtain rfl := (Option.some.inj h).symm
    have hsound : Sound cfg { s with now := s.now + d } := ⟨hs.slots, hs.running, hs.ordered, hs.beats⟩
    exact ⟨hquiet (fun _ _ => Action.noConfusion) Action.noConfusion Action.noConfusion rfl hsound, fun _ => hsound⟩
  | submit user run => exact submit_step h hs
  | heartbeat run =>
    obtain rfl := (Option.some.inj h).symm
    have hsound : Sound cfg { s with redis := registerHeartbeat s.redis s.now run
                                     lastBeat := Function.update s.lastBeat run (some s.now) } := by
      refine ⟨hs.slots, hs.running, hs.ordered, fun r beat hbeat => ?_⟩
      have hbeat' : Function.update s.redis.heartbeat run (some s.now) r = some beat := hbeat
      show Function.update s.lastBeat run (some s.now) r = some beat
      by_cases heq : r = run
      · rw [heq, Function.update_self] at hbeat' ⊢
        exact hbeat'
      · rw [Function.update_of_ne heq] at hbeat' ⊢
        exact hs.beats r beat hbeat'
    exact ⟨hquiet (fun _ _ => Action.noConfusion) Action.noConfusion Action.noConfusion rfl hsound, fun _ => hsound⟩
  | finish user run =>
    obtain ⟨hiff, hsound⟩ := release_step (a := .finish user run) rfl (Option.some.inj h).symm hs
    exact ⟨hiff, fun _ => hsound⟩
  | cancel user run =>
    have hpost : s' = s.release user run := by
      simp only [step] at h
      split at h
      · cases h
      · exact (Option.some.inj h).symm
    obtain ⟨hiff, hsound⟩ := release_step (a := .cancel user run) rfl hpost hs
    exact ⟨hiff, fun _ => hsound⟩
  | promote => exact promote_step h hs
  | reap =>
    obtain ⟨hiff, hsound⟩ := reap_step h hs
    exact ⟨hiff, fun _ => hsound⟩

end Steps

/-! ## Runs -/

/-- **When the scheduler respects its capacity and its heartbeats.** Every step of a run does exactly if every step is
regular. -/
theorem keeps_iff {cfg : Settings} {s s' : Sys} {ts : List (Transition Sys Action)} (hr : Run (step cfg) s ts s')
    (hs : Sound cfg s) : (∀ t ∈ ts, Keeps cfg t) ↔ ∀ t ∈ ts, Regular cfg t :=
  hr.forall_congr keeps_step hs

/-- One slot, and a timeout of 90 seconds. -/
def oneSlot : Settings := { maxConcurrentUsers := 1, heartbeatTimeout := seconds 90 }

theorem sound_init (cfg : Settings) : Sound cfg Sys.init :=
  ⟨Nat.zero_le _, Nat.zero_le _, .nil, fun _ _ h => by cases h⟩

/-- A run that gets the slot, gives a heartbeat and ends. -/
def served : List Action := [.submit "u" "r", .heartbeat "r", .reap, .finish "u" "r", .promote]

theorem keeps_served : (∀ t ∈ play (step oneSlot) Sys.init served, Keeps oneSlot t) ↔
    ∀ t ∈ play (step oneSlot) Sys.init served, Regular oneSlot t :=
  keeps_iff (play_run _ _) (sound_init oneSlot)

/-- Two runs wait for the slot of a third, which ends. -/
def overtaken : List Action :=
  [.submit "u" "r", .submit "v" "q", .tick 1, .submit "w" "p", .finish "u" "r", .promote]

/-- **A promotion into one free slot**: both runs that wait are promoted. -/
theorem not_keeps_overtaken : ¬ ∀ t ∈ play (step oneSlot) Sys.init overtaken, Keeps oneSlot t := by
  intro h
  have hlast : ∃ t ∈ play (step oneSlot) Sys.init overtaken,
      ¬ t.post.running.length ≤ oneSlot.maxConcurrentUsers := by
    decide +kernel
  obtain ⟨t, ht, hmany⟩ := hlast
  exact hmany (h t ht).capacity.2

end Irip.Execution.Scheduler
