import Irip.Base.Run
import Mathlib.Logic.Function.Basic
import Mathlib.Algebra.Order.Ring.Int

/-!
# `Jobs.DeptConcurrency` — the concurrency limit of a department

`DeptConcurrencyLimiter` counts the running tasks of a department in a Redis key. Each Redis command is a step of its
own: `acquire` increments, tests, and takes the increment back or sets an expiry; `release` decrements and sets the
counter to 0 where it has become negative.
-/

namespace Irip.Jobs.DeptConcurrency

open Runs

/-! ## Redis -/

/-- A counter in Redis. -/
structure Entry where
  value : Int
  ttl : Bool := false -- it has an expiry
deriving DecidableEq

/-- The commands of the limiter, each for one key. -/
inductive Command where
  | incr
  | decr
  | expire
  | set (value : Int)

/-- What a command answers and leaves in the key. A key that is not there counts as 0; a new value keeps the expiry of
the key, except that of `SET`. -/
def exec : Command → Option Entry → Int × Option Entry
  | .incr, e => let n := (e.map Entry.value).getD 0 + 1; (n, some ⟨n, e.any Entry.ttl⟩)
  | .decr, e => let n := (e.map Entry.value).getD 0 - 1; (n, some ⟨n, e.any Entry.ttl⟩)
  | .expire, e => (if e.isSome then 1 else 0, e.map (fun x => { x with ttl := true }))
  | .set value, _ => (1, some ⟨value, false⟩)

/-! ## Sessions -/

/-- How far a session has come. -/
inductive Phase where
  | acquiring -- `acquire` has been called
  | refused -- its increment was too much: it is to be taken back
  | granted -- its increment was not: the expiry is to be set
  | holding -- `acquire` has returned `True`
  | releasing -- `release` has been called
  | clamping -- its decrement has made the counter negative: it is to be set to 0
  | done -- `release` has returned, or `acquire` has returned `False`
deriving DecidableEq

/-- The next command of a session. -/
def Phase.next : Phase → Option Command
  | .acquiring => some .incr
  | .refused => some .decr
  | .granted => some .expire
  | .holding => none
  | .releasing => some .decr
  | .clamping => some (.set 0)
  | .done => none

/-- How a session goes on with the answer of its command. -/
def Phase.resume (maxPerDept : Int) : Phase → Int → Phase
  | .acquiring, current => if current > maxPerDept then .refused else .granted
  | .granted, _ => .holding
  | .releasing, current => if current < 0 then .clamping else .done
  | .refused, _ => .done
  | .clamping, _ => .done
  | p, _ => p

/-- The session holds a slot. -/
def Phase.holds : Phase → Bool
  | .granted => true
  | .holding => true
  | .releasing => true
  | _ => false

/-- The increment of the session has not been taken back. -/
def Phase.owes : Phase → Bool
  | .refused => true
  | p => p.holds

/-- `acquire` has not returned. -/
def Phase.inAcquire : Phase → Bool
  | .acquiring => true
  | .refused => true
  | .granted => true
  | _ => false

structure Session where
  dept : String
  phase : Phase
deriving DecidableEq

/-! ## The system -/

def key (dept : String) : String := "irip:dept:concurrency:" ++ dept

structure Sys where
  redis : String → Option Entry := fun _ => none
  sessions : List Session := []
  expired : String → Bool := fun _ => false -- the keys that have expired so far

/-- No session, and no key. -/
def Sys.init : Sys := {}

/-- The counter of a department: `get_count`. -/
def Sys.count (s : Sys) (dept : String) : Int := ((s.redis (key dept)).map Entry.value).getD 0

inductive Action where
  | acquire (dept : String) -- a session calls `acquire`
  | release (i : Nat) -- session `i` calls `release`
  | command (i : Nat) -- session `i` executes its next command
  | expire (dept : String) -- the time of the key runs out

/-- The step function. -/
def step (maxPerDept : Int) (s : Sys) : Action → Option Sys
  | .acquire dept => some { s with sessions := s.sessions ++ [⟨dept, .acquiring⟩] }
  | .release i => do
    let x ← s.sessions[i]?
    if x.phase = .holding then some { s with sessions := s.sessions.set i { x with phase := .releasing } } else none
  | .command i => do
    let x ← s.sessions[i]?
    let c ← x.phase.next
    let (answer, e) := exec c (s.redis (key x.dept))
    some { s with redis := Function.update s.redis (key x.dept) e
                  sessions := s.sessions.set i { x with phase := x.phase.resume maxPerDept answer } }
  | .expire dept =>
    if (s.redis (key dept)).any Entry.ttl then
      some { s with redis := Function.update s.redis (key dept) none
                    expired := Function.update s.expired (key dept) true }
    else none

/-- The number of holders of a department. -/
def Sys.holders (s : Sys) (dept : String) : Nat := s.sessions.countP (fun x => x.dept = dept ∧ x.phase.holds)

/-- The number of increments of a department that have not been taken back. -/
def Sys.owed (s : Sys) (dept : String) : Nat := s.sessions.countP (fun x => x.dept = dept ∧ x.phase.owes)

/-- The limit of a department is respected. -/
structure Limits (maxPerDept : Int) (s : Sys) (dept : String) : Prop where
  atMost : s.holders dept ≠ 0 → (s.holders dept : Int) ≤ maxPerDept
  nonneg : 0 ≤ s.count dept
  exact : s.expired (key dept) = false → (∀ x ∈ s.sessions, x.dept = dept → x.phase.inAcquire = false) →
    s.count dept = s.holders dept

/-- A key expires only while it stands at 0. -/
def Regular (t : Transition Sys Action) : Prop := ∀ dept, t.act = .expire dept → t.pre.count dept = 0

/-- No key expires. -/
def Unexpiring (t : Transition Sys Action) : Prop := ∀ dept, t.act ≠ .expire dept

/-! ## Accounts -/

theorem key_inj {d d' : String} : key d = key d' ↔ d = d' := by
  unfold key
  exact String.append_right_inj _

section Steps

variable {maxPerDept : Int} {s s' : Sys} {dept : String}

theorem countP_set_session {l : List Session} {i : Nat} {x y : Session} (h : l[i]? = some x) (p : Session → Bool) :
    (l.set i y).countP p + (if p x then 1 else 0) = l.countP p + (if p y then 1 else 0) := by
  obtain ⟨hi, hx⟩ := List.getElem?_eq_some_iff.mp h
  rw [List.countP_set hi, hx]
  have hpos : p x = true → 0 < l.countP p := by
    intro hp
    exact List.countP_pos_iff.mpr ⟨x, List.mem_of_getElem? h, hp⟩
  by_cases hp : p x = true
  · have hle := hpos hp
    simp only [hp, if_true]
    omega
  · simp [hp]

/-- **What a step is.** -/
theorem step_cases {a : Action} (h : step maxPerDept s a = some s') :
    (∃ d, a = .acquire d ∧ s' = { s with sessions := s.sessions ++ [⟨d, .acquiring⟩] }) ∨
    (∃ i x, a = .release i ∧ s.sessions[i]? = some x ∧ x.phase = .holding ∧
      s' = { s with sessions := s.sessions.set i { x with phase := .releasing } }) ∨
    (∃ i x c, a = .command i ∧ s.sessions[i]? = some x ∧ x.phase.next = some c ∧
      s' = { s with redis := Function.update s.redis (key x.dept) (exec c (s.redis (key x.dept))).2
                    sessions := s.sessions.set i { x with
                      phase := x.phase.resume maxPerDept (exec c (s.redis (key x.dept))).1 } }) ∨
    (∃ d, a = .expire d ∧ s' = { s with redis := Function.update s.redis (key d) none
                                        expired := Function.update s.expired (key d) true }) := by
  cases a with
  | acquire d => exact .inl ⟨d, rfl, (Option.some.inj h).symm⟩
  | release i =>
    obtain ⟨x, hx, hrest⟩ := Option.bind_eq_some_iff.mp h
    split at hrest
    · next hphase => exact .inr (.inl ⟨i, x, rfl, hx, hphase, (Option.some.inj hrest).symm⟩)
    · cases hrest
  | command i =>
    obtain ⟨x, hx, hrest⟩ := Option.bind_eq_some_iff.mp h
    obtain ⟨c, hc, hrest⟩ := Option.bind_eq_some_iff.mp hrest
    exact .inr (.inr (.inl ⟨i, x, c, rfl, hx, hc, (Option.some.inj hrest).symm⟩))
  | expire d =>
    simp only [step] at h
    split at h
    · exact .inr (.inr (.inr ⟨d, rfl, (Option.some.inj h).symm⟩))
    · cases h

/-- The increments that are owed and the counter does not show. -/
def Sys.deficit (s : Sys) (dept : String) : Int := s.owed dept - s.count dept

/-- No session is about to set the counter to 0. -/
def Sys.Unclamped (s : Sys) : Prop := ∀ x ∈ s.sessions, x.phase ≠ .clamping

/-- The value a command leaves. -/
def Command.after : Command → Int → Int
  | .incr, n => n + 1
  | .decr, n => n - 1
  | .expire, n => n
  | .set value, _ => value

theorem value_exec (c : Command) (e : Option Entry) :
    (((exec c e).2).map Entry.value).getD 0 = c.after ((e.map Entry.value).getD 0) := by
  cases c <;> cases e <;> rfl

theorem count_command {x : Session} {c : Command} {sessions : List Session} (d : String) :
    Sys.count { s with redis := Function.update s.redis (key x.dept) (exec c (s.redis (key x.dept))).2
                       sessions := sessions } d
      = if x.dept = d then c.after (s.count d) else s.count d := by
  unfold Sys.count
  by_cases hd : x.dept = d
  · subst hd
    simp only [Function.update_self, if_true]
    exact value_exec c _
  · have hkey : key d ≠ key x.dept := fun he => hd (key_inj.mp he).symm
    rw [if_neg hd]
    simp only [Function.update_of_ne hkey]

theorem owed_set {i : Nat} {x : Session} {q : Phase} (hx : s.sessions[i]? = some x) (redis : String → Option Entry)
    (d : String) :
    Sys.owed { s with redis := redis, sessions := s.sessions.set i { x with phase := q } } d
        + (if x.dept = d ∧ x.phase.owes then 1 else 0)
      = s.owed d + (if x.dept = d ∧ q.owes then 1 else 0) := by
  have hcount := countP_set_session (y := { x with phase := q }) hx (fun x => x.dept = d ∧ x.phase.owes)
  simp only [decide_eq_true_eq] at hcount
  exact hcount

/-- **A command changes what is owed as it changes the counter**, unless it sets it to 0. -/
theorem owes_resume (maxPerDept : Int) {p : Phase} {c : Command} (hc : p.next = some c) (hp : p ≠ .clamping) (n current : Int) :
    (if (p.resume maxPerDept current).owes then 1 else 0 : Int) - (if p.owes then 1 else 0) = c.after n - n := by
  cases p with
  | acquiring =>
    obtain rfl := Option.some.inj hc
    simp only [Phase.resume, Command.after]
    split
    · simp [Phase.owes, Phase.holds]
    · simp [Phase.owes, Phase.holds]
  | refused | granted =>
    obtain rfl := Option.some.inj hc
    simp [Phase.resume, Command.after, Phase.owes, Phase.holds]
  | holding => cases hc
  | releasing =>
    obtain rfl := Option.some.inj hc
    simp only [Phase.resume, Command.after]
    split
    · simp [Phase.owes, Phase.holds]
    · simp [Phase.owes, Phase.holds]
  | clamping => exact absurd rfl hp
  | done => cases hc

/-- **What a step does to a deficit.** It is kept, but for what a key stands at when it expires. -/
theorem deficit_step {a : Action} (hs : s.Unclamped) (h : step maxPerDept s a = some s') (d : String) :
    (a ≠ .expire d → s'.deficit d = s.deficit d) ∧ (a = .expire d → s'.deficit d = s.deficit d + s.count d) := by
  rcases step_cases h with ⟨d', rfl, rfl⟩ | ⟨i, x, rfl, hx, hphase, rfl⟩ | ⟨i, x, c, rfl, hx, hc, rfl⟩ | ⟨d', rfl, rfl⟩
  · refine ⟨fun _ => ?_, fun heq => by cases heq⟩
    simp [Sys.deficit, Sys.owed, Sys.count, Phase.owes, Phase.holds]
  · refine ⟨fun _ => ?_, fun heq => by cases heq⟩
    have howed := owed_set (q := .releasing) hx s.redis d
    rw [hphase] at howed
    have hsame : Sys.owed { s with sessions := s.sessions.set i { x with phase := .releasing } } d = s.owed d :=
      Nat.add_right_cancel howed
    unfold Sys.deficit
    rw [hsame]
    rfl
  · refine ⟨fun _ => ?_, fun heq => by cases heq⟩
    have hp : x.phase ≠ .clamping := hs x (List.mem_of_getElem? hx)
    have howes := owes_resume maxPerDept hc hp (s.count d) (exec c (s.redis (key x.dept))).1
    have howed := owed_set (q := x.phase.resume maxPerDept (exec c (s.redis (key x.dept))).1) hx
      (Function.update s.redis (key x.dept) (exec c (s.redis (key x.dept))).2) d
    unfold Sys.deficit
    rw [count_command]
    by_cases hd : x.dept = d
    · simp only [hd, true_and, if_true] at howed ⊢
      rw [hd] at howes
      split_ifs at howed howes with h₁ h₂ <;> omega
    · simp only [hd, false_and, if_false] at howed ⊢
      omega
  · by_cases hd : d' = d
    · subst hd
      refine ⟨fun hne => absurd rfl hne, fun _ => ?_⟩
      have hzero : Sys.count { s with redis := Function.update s.redis (key d') none
                                      expired := Function.update s.expired (key d') true } d' = 0 := by
        simp [Sys.count]
      unfold Sys.deficit
      rw [hzero]
      show (s.owed d' : Int) - 0 = s.owed d' - s.count d' + s.count d'
      omega
    · have hkey : key d ≠ key d' := fun he => hd (key_inj.mp he).symm
      refine ⟨fun _ => ?_, fun heq => absurd (Action.expire.inj heq) hd⟩
      simp [Sys.deficit, Sys.owed, Sys.count, Function.update_of_ne hkey]

theorem unclamped_step {a : Action} (hs : s.Unclamped) (h : step maxPerDept s a = some s')
    (hcount : ∀ d, 0 ≤ s'.count d) : s'.Unclamped := by
  intro y hy
  rcases step_cases h with ⟨d', rfl, rfl⟩ | ⟨i, x, rfl, hx, hphase, rfl⟩ | ⟨i, x, c, rfl, hx, hc, rfl⟩ | ⟨d', rfl, rfl⟩
  · rcases List.mem_append.mp hy with hy | hy
    · exact hs y hy
    · rw [List.mem_singleton.mp hy]
      exact Phase.noConfusion
  · rcases List.mem_or_eq_of_mem_set hy with hy | rfl
    · exact hs y hy
    · exact Phase.noConfusion
  · rcases List.mem_or_eq_of_mem_set hy with hy | rfl
    · exact hs y hy
    · -- only a decrement below 0 is followed by setting the counter
      have hnonneg := hcount x.dept
      rw [count_command, if_pos rfl] at hnonneg
      intro hclamp
      cases hp : x.phase with
      | releasing =>
        rw [hp] at hc
        obtain rfl := Option.some.inj hc
        rw [hp] at hclamp
        simp only [Phase.resume] at hclamp
        split at hclamp
        · next hneg =>
            have hle : 0 ≤ s.count x.dept - 1 := hnonneg
            have hlt : s.count x.dept - 1 < 0 := hneg
            omega
        · cases hclamp
      | acquiring =>
        rw [hp] at hclamp
        simp only [Phase.resume] at hclamp
        split at hclamp <;> cases hclamp
      | clamping => exact hs x (List.mem_of_getElem? hx) hp
      | refused | granted => rw [hp] at hclamp; cases hclamp
      | holding | done => rw [hp] at hc; cases hc
  · exact hs y hy

end Steps

/-! ## Regular runs -/

section Regular

variable {maxPerDept : Int} {s s' : Sys} {ts : List (Transition Sys Action)}

/-- Every counter shows what is owed, and the holders are within the limit. -/
structure Sound (maxPerDept : Int) (s : Sys) : Prop where
  unclamped : s.Unclamped
  balanced : ∀ d, s.count d = s.owed d
  atMost : ∀ d, s.holders d ≠ 0 → (s.holders d : Int) ≤ maxPerDept

theorem sound_init (maxPerDept : Int) : Sound maxPerDept Sys.init where
  unclamped _ hx := absurd hx List.not_mem_nil
  balanced _ := rfl
  atMost _ h := absurd rfl h

theorem holders_set {i : Nat} {x : Session} {q : Phase} (hx : s.sessions[i]? = some x) (redis : String → Option Entry)
    (d : String) :
    Sys.holders { s with redis := redis, sessions := s.sessions.set i { x with phase := q } } d
        + (if x.dept = d ∧ x.phase.holds then 1 else 0)
      = s.holders d + (if x.dept = d ∧ q.holds then 1 else 0) := by
  have hcount := countP_set_session (y := { x with phase := q }) hx (fun x => x.dept = d ∧ x.phase.holds)
  simp only [decide_eq_true_eq] at hcount
  exact hcount

theorem holders_le_owed (s : Sys) (d : String) : s.holders d ≤ s.owed d := by
  refine List.countP_mono_left fun x _ hx => ?_
  simp only [decide_eq_true_eq] at hx ⊢
  refine ⟨hx.1, ?_⟩
  cases hp : x.phase with
  | refused => rfl
  | _ => rw [hp] at hx; exact hx.2

theorem atMost_step {a : Action} (hs : Sound maxPerDept s) (h : step maxPerDept s a = some s') (d : String)
    (hd : s'.holders d ≠ 0) : (s'.holders d : Int) ≤ maxPerDept := by
  rcases step_cases h with ⟨d', rfl, rfl⟩ | ⟨i, x, rfl, hx, hphase, rfl⟩ | ⟨i, x, c, rfl, hx, hc, rfl⟩ | ⟨d', rfl, rfl⟩
  · have hsame : Sys.holders { s with sessions := s.sessions ++ [⟨d', .acquiring⟩] } d = s.holders d := by
      simp [Sys.holders, Phase.holds]
    rw [hsame] at hd ⊢
    exact hs.atMost d hd
  · have hholders := holders_set (q := .releasing) hx s.redis d
    rw [hphase] at hholders
    have hsame : Sys.holders { s with sessions := s.sessions.set i { x with phase := .releasing } } d = s.holders d :=
      Nat.add_right_cancel hholders
    rw [hsame] at hd ⊢
    exact hs.atMost d hd
  · have hholders := holders_set (q := x.phase.resume maxPerDept (exec c (s.redis (key x.dept))).1) hx
      (Function.update s.redis (key x.dept) (exec c (s.redis (key x.dept))).2) d
    generalize hs'eq : Sys.mk _ _ _ = s'' at hd ⊢ hholders
    by_cases hgain : x.phase.holds = false ∧ x.dept = d ∧
        (x.phase.resume maxPerDept (exec c (s.redis (key x.dept))).1).holds = true
    · -- a grant: the counter, which shows all that is owed, was below the limit
      obtain ⟨hbefore, rfl, hafter⟩ := hgain
      have hacquire : x.phase = .acquiring := by
        cases hp : x.phase with
        | acquiring => rfl
        | releasing | granted | holding => rw [hp] at hbefore; cases hbefore
        | refused | clamping | done => rw [hp] at hafter; cases hafter
      rw [hacquire] at hc hafter hholders
      obtain rfl := Option.some.inj hc
      simp only [Phase.resume] at hafter hholders
      split at hafter
      · cases hafter
      · next hwithin =>
          rw [if_neg hwithin] at hholders
          simp only [Phase.holds, Bool.false_eq_true, and_false, if_false, and_self, if_true] at hholders
          have hle := holders_le_owed s x.dept
          have hbalanced := hs.balanced x.dept
          have hcount : s.count x.dept + 1 ≤ maxPerDept := not_lt.mp hwithin
          omega
    · have hle : s''.holders d ≤ s.holders d := by
        split_ifs at hholders with h₁ h₂ h₂
        · omega
        · omega
        · refine absurd ⟨?_, h₂.1, h₂.2⟩ hgain
          rw [← Bool.not_eq_true]
          exact fun hb => h₁ ⟨h₂.1, hb⟩
        · omega
      have hpos : s.holders d ≠ 0 := by omega
      have hbound := hs.atMost d hpos
      omega
  · exact hs.atMost d hd

/-- **A regular step keeps the accounts.** -/
theorem Sound.step {a : Action} (hs : Sound maxPerDept s) (h : step maxPerDept s a = some s')
    (hregular : Regular ⟨s, a, s'⟩) : Sound maxPerDept s' := by
  have hbalanced : ∀ d, s'.count d = s'.owed d := by
    intro d
    have hbefore := hs.balanced d
    obtain ⟨hsame, hmore⟩ := deficit_step hs.unclamped h d
    unfold Sys.deficit at hsame hmore
    by_cases hact : a = .expire d
    · have hzero : s.count d = 0 := hregular d hact
      have hd := hmore hact
      omega
    · have hd := hsame hact
      omega
  refine ⟨unclamped_step hs.unclamped h fun d => ?_, hbalanced, fun d => atMost_step hs h d⟩
  have hd := hbalanced d
  omega

theorem owed_eq_holders (d : String) (h : ∀ x ∈ s.sessions, x.dept = d → x.phase.inAcquire = false) :
    s.owed d = s.holders d := by
  refine List.countP_congr fun x hx => ?_
  simp only [decide_eq_true_eq]
  refine and_congr_right fun hd => ?_
  have hquiet := h x hx hd
  cases hp : x.phase with
  | refused => rw [hp] at hquiet; cases hquiet
  | _ => rfl

theorem Sound.limits (hs : Sound maxPerDept s) (d : String) : Limits maxPerDept s d where
  atMost := hs.atMost d
  nonneg := by
    have hd := hs.balanced d
    omega
  exact _ hquiet := by
    rw [hs.balanced, owed_eq_holders d hquiet]

/-- **In a regular run** the limit of every department is respected in every state. -/
theorem limits_of_regular (hr : Run (step maxPerDept) Sys.init ts s) (hregular : ∀ t ∈ ts, Regular t) :
    (∀ t ∈ ts, ∀ d, Limits maxPerDept t.post d) ∧ Sound maxPerDept s := by
  have hall := hr.invariant (sound_init maxPerDept) fun t ht hs => hs.step (hr.step_of_mem ht) (hregular t ht)
  refine ⟨fun t ht d => (hall t ht).2.limits d, ?_⟩
  exact hr.last (sound_init maxPerDept) fun t ht hs => hs.step (hr.step_of_mem ht) (hregular t ht)

end Regular

/-! ## Irregular runs -/

section Irregular

variable {maxPerDept : Int} {s s' : Sys} {ts : List (Transition Sys Action)}

/-- Along a run whose counters do not become negative a deficit never shrinks, and an expiry of a counter that is
not 0 makes one. -/
theorem deficit_run (hr : Run (step maxPerDept) s ts s') (hs : s.Unclamped) (hcount : ∀ d, 0 ≤ s.count d)
    (hnonneg : ∀ t ∈ ts, ∀ d, 0 ≤ t.post.count d) (d : String) :
    s'.Unclamped ∧ s.deficit d ≤ s'.deficit d ∧
      ((∃ t ∈ ts, t.act = .expire d ∧ t.pre.count d ≠ 0) → s.deficit d < s'.deficit d) := by
  induction hr with
  | nil => exact ⟨hs, le_refl _, fun ⟨t, ht, _⟩ => absurd ht List.not_mem_nil⟩
  | @cons s a m ts s' h _ ih =>
    have hm : ∀ d, 0 ≤ m.count d := hnonneg ⟨s, a, m⟩ List.mem_cons_self
    obtain ⟨hend, hle, hlt⟩ := ih (unclamped_step hs h hm) hm fun t ht => hnonneg t (List.mem_cons_of_mem _ ht)
    obtain ⟨hsame, hmore⟩ := deficit_step hs h d
    have hd := hcount d
    have hmono : s.deficit d ≤ m.deficit d := by
      by_cases hact : a = .expire d
      · have hexpired := hmore hact
        omega
      · exact (hsame hact).ge
    refine ⟨hend, hmono.trans hle, ?_⟩
    rintro ⟨t, ht, hact, hne⟩
    rcases List.mem_cons.mp ht with rfl | ht
    · have hexpired := hmore hact
      have hpos : s.count d ≠ 0 := hne
      omega
    · exact lt_of_le_of_lt hmono (hlt ⟨t, ht, hact, hne⟩)

variable {x : Session}

theorem exists_decr (maxPerDept : Int) {i : Nat} (hs : s.Unclamped) (hx : s.sessions[i]? = some x)
    (hphase : x.phase = .refused ∨ x.phase = .releasing) :
    ∃ m, step maxPerDept s (.command i) = some m ∧ m.count x.dept = s.count x.dept - 1 ∧
      m.deficit x.dept = s.deficit x.dept ∧ (0 ≤ m.count x.dept → m.Unclamped) := by
  have hnext : x.phase.next = some .decr := by
    rcases hphase with h | h <;> rw [h] <;> rfl
  have hstep : step maxPerDept s (.command i) = some { s with
      redis := Function.update s.redis (key x.dept) (exec .decr (s.redis (key x.dept))).2
      sessions := s.sessions.set i { x with
        phase := x.phase.resume maxPerDept (exec .decr (s.redis (key x.dept))).1 } } := by
    simp only [step, hx, Option.bind_eq_bind, Option.bind_some, hnext]
  refine ⟨_, hstep, ?_, ?_, fun hnonneg => ?_⟩
  · rw [count_command, if_pos rfl]
    rfl
  · exact (deficit_step hs hstep x.dept).1 Action.noConfusion
  · rw [count_command, if_pos rfl] at hnonneg
    intro y hy
    rcases List.mem_or_eq_of_mem_set hy with hy | rfl
    · exact hs y hy
    · rcases hphase with h | h
      · rw [h]
        exact Phase.noConfusion
      · have hle : ¬ (exec .decr (s.redis (key x.dept))).1 < 0 := not_lt.mpr hnonneg
        rw [h]
        simp only [Phase.resume, if_neg hle]
        exact Phase.noConfusion

theorem Sys.Unclamped.set (hs : s.Unclamped) {i : Nat} {q : Phase} (hq : q ≠ .clamping)
    (redis : String → Option Entry) :
    Sys.Unclamped { s with redis := redis, sessions := s.sessions.set i { x with phase := q } } := by
  intro y hy
  rcases List.mem_or_eq_of_mem_set hy with hy | rfl
  · exact hs y hy
  · exact hq

/-- A state in which session `i` is about to decrement the counter of `d`, and nothing is counted otherwise than
in `s`. -/
structure Poised (s : Sys) (i : Nat) (d : String) (m : Sys) : Prop where
  unclamped : m.Unclamped
  count : m.count d = s.count d
  deficit : m.deficit d = s.deficit d
  session : ∃ y, m.sessions[i]? = some y ∧ y.dept = d ∧ (y.phase = .refused ∨ y.phase = .releasing)

theorem exists_release (maxPerDept : Int) {i : Nat} (hs : s.Unclamped) (hx : s.sessions[i]? = some x)
    (hphase : x.phase = .holding) : ∃ m, step maxPerDept s (.release i) = some m ∧ Poised s i x.dept m := by
  have hstep : step maxPerDept s (.release i)
      = some { s with sessions := s.sessions.set i { x with phase := .releasing } } := by
    simp only [step, hx, Option.bind_eq_bind, Option.bind_some, if_pos hphase]
  obtain ⟨hi, -⟩ := List.getElem?_eq_some_iff.mp hx
  refine ⟨_, hstep, hs.set Phase.noConfusion s.redis, rfl, (deficit_step hs hstep x.dept).1 Action.noConfusion, ?_⟩
  exact ⟨_, List.getElem?_set_self hi, rfl, .inr rfl⟩

theorem exists_hold (maxPerDept : Int) {i : Nat} (hs : s.Unclamped) (hx : s.sessions[i]? = some x)
    (hphase : x.phase = .granted) :
    ∃ m, step maxPerDept s (.command i) = some m ∧ m.Unclamped ∧ m.count x.dept = s.count x.dept ∧
      m.deficit x.dept = s.deficit x.dept ∧ m.sessions[i]? = some { x with phase := .holding } := by
  have hstep : step maxPerDept s (.command i) = some { s with
      redis := Function.update s.redis (key x.dept) (exec .expire (s.redis (key x.dept))).2
      sessions := s.sessions.set i { x with phase := .holding } } := by
    simp only [step, hx, Option.bind_eq_bind, Option.bind_some, hphase, Phase.next, Phase.resume]
  obtain ⟨hi, -⟩ := List.getElem?_eq_some_iff.mp hx
  refine ⟨_, hstep, hs.set Phase.noConfusion _, ?_, (deficit_step hs hstep x.dept).1 Action.noConfusion,
    List.getElem?_set_self hi⟩
  rw [count_command, if_pos rfl]
  rfl

/-- **A session that owes its increment** can come to its decrement by itself. -/
theorem exists_poised (maxPerDept : Int) {i : Nat} (hs : s.Unclamped) (hx : s.sessions[i]? = some x)
    (howes : x.phase.owes = true) :
    ∃ ts m, Run (step maxPerDept) s ts m ∧ (∀ t ∈ ts, Unexpiring t) ∧ Poised s i x.dept m := by
  cases hp : x.phase with
  | refused => exact ⟨[], s, .nil, List.forall_mem_nil _, hs, rfl, rfl, x, hx, rfl, .inl hp⟩
  | releasing => exact ⟨[], s, .nil, List.forall_mem_nil _, hs, rfl, rfl, x, hx, rfl, .inr hp⟩
  | holding =>
    obtain ⟨m, hstep, hpoised⟩ := exists_release maxPerDept hs hx hp
    refine ⟨_, m, .one hstep, fun t ht => ?_, hpoised⟩
    rw [List.mem_singleton.mp ht]
    exact fun _ => Action.noConfusion
  | granted =>
    obtain ⟨k, hhold, hk, hcount, hdeficit, hsession⟩ := exists_hold maxPerDept hs hx hp
    obtain ⟨m, hrelease, hpoised⟩ := exists_release maxPerDept hk hsession rfl
    refine ⟨_, m, .cons hhold (.one hrelease), fun t ht => ?_, hpoised.unclamped, hpoised.count.trans hcount,
      hpoised.deficit.trans hdeficit, hpoised.session⟩
    rcases List.mem_cons.mp ht with rfl | ht
    · exact fun _ => Action.noConfusion
    · rw [List.mem_singleton.mp ht]
      exact fun _ => Action.noConfusion
  | acquiring | clamping | done => rw [hp] at howes; cases howes

/-- **A deficit shows.** The sessions that owe can take their increments back, after which the counter is negative. -/
theorem exists_negative (maxPerDept : Int) {d : String} (hs : s.Unclamped) (hdeficit : 0 < s.deficit d) :
    ∃ ts m, Run (step maxPerDept) s ts m ∧ (∀ t ∈ ts, Unexpiring t) ∧ m.count d < 0 := by
  -- by what the counter stands at: every decrement brings it down by one and leaves the deficit as it is
  induction hn : (s.count d + 1).toNat generalizing s with
  | zero => exact ⟨[], s, .nil, List.forall_mem_nil _, by omega⟩
  | succ n ih =>
    have howed : 0 < s.owed d := by
      unfold Sys.deficit at hdeficit
      omega
    obtain ⟨x, hmem, hx⟩ := List.countP_pos_iff.mp howed
    simp only [decide_eq_true_eq] at hx
    obtain ⟨i, hi⟩ := List.getElem?_of_mem hmem
    obtain ⟨rfl, howes⟩ := hx
    obtain ⟨ts, k, hrun, hquiet, hk, hcount, hsame, y, hy, hdept, hphase⟩ :=
      exists_poised maxPerDept hs hi howes
    obtain ⟨m, hstep, hdown, hkept, hnext⟩ := exists_decr maxPerDept hk hy hphase
    rw [hdept] at hdown hkept hnext
    have hrun' := hrun.append (.one hstep)
    have hquiet' : ∀ t ∈ ts ++ [⟨k, .command i, m⟩], Unexpiring t := by
      intro t ht
      rcases List.mem_append.mp ht with ht | ht
      · exact hquiet t ht
      · rw [List.mem_singleton.mp ht]
        exact fun _ => Action.noConfusion
    by_cases hneg : m.count x.dept < 0
    · exact ⟨_, m, hrun', hquiet', hneg⟩
    · obtain ⟨us, l, hrest, hquiet'', hl⟩ := ih (hnext (by omega)) (by omega) (by omega)
      refine ⟨_, l, hrun'.append hrest, fun t ht => ?_, hl⟩
      rcases List.mem_append.mp ht with ht | ht
      · exact hquiet' t ht
      · exact hquiet'' t ht

/-- **When the limit holds.** The limit of every department is respected in every state of a run, and however the run
goes on without a further expiry, exactly if no key has expired that did not stand at 0. -/
theorem limits_iff (hr : Run (step maxPerDept) Sys.init ts s) :
    ((∀ t ∈ ts, ∀ d, Limits maxPerDept t.post d) ∧
      ∀ us m, Run (step maxPerDept) s us m → (∀ t ∈ us, Unexpiring t) → ∀ d, Limits maxPerDept m d) ↔
    ∀ t ∈ ts, Regular t := by
  constructor
  · rintro ⟨hlimits, hon⟩ t ht d hact
    by_contra hne
    have hinit : Sys.init.Unclamped := (sound_init maxPerDept).unclamped
    obtain ⟨hs, hle, hlt⟩ := deficit_run hr hinit (fun _ => le_refl _) (fun t ht d => (hlimits t ht d).nonneg) d
    have hpos : 0 < s.deficit d := hlt ⟨t, ht, hact, hne⟩
    obtain ⟨us, m, hrun, hquiet, hneg⟩ := exists_negative maxPerDept hs hpos
    exact absurd (hon us m hrun hquiet d).nonneg (not_le.mpr hneg)
  · intro hregular
    obtain ⟨hlimits, hs⟩ := limits_of_regular hr hregular
    refine ⟨hlimits, fun us m hrun hquiet d => ?_⟩
    have hm := hrun.last hs fun t ht hs => hs.step (hrun.step_of_mem ht) fun d hact => absurd hact (hquiet t ht d)
    exact hm.limits d

/-- A task runs and ends. -/
def served : List Action := [.acquire "d", .command 0, .command 0, .release 0, .command 0]

theorem limits_served : List.Forall (fun t => ∀ d, Limits 1 t.post d) (play (step 1) Sys.init served) := by
  rw [List.forall_iff_forall_mem]
  refine ((limits_iff (play_run Sys.init served)).mpr fun t ht d hact => ?_).1
  rcases act_of_mem_play ht with ⟨-, h⟩ | h
  · rw [hact] at h
    cases h
  · rw [hact] at h
    simp at h

/-- A task outlives the key, and another one starts. -/
def outlived : List Action := [.acquire "d", .command 0, .command 0, .expire "d", .acquire "d", .command 1]

theorem limit_exceeded : ¬ ∀ (ts : List (Transition Sys Action)) (s : Sys), Run (step 1) Sys.init ts s →
    ∀ t ∈ ts, ∀ d, Limits 1 t.post d := by
  intro h
  have hlimits := h _ _ (play_run Sys.init outlived) _ (List.getElem_mem (n := 5) (by decide)) "d"
  exact absurd (hlimits.atMost (by decide)) (by decide)

end Irregular

end Irip.Jobs.DeptConcurrency
