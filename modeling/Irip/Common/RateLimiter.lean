import Irip.Base.Run
import Mathlib.Algebra.Order.Field.Rat
import Mathlib.Tactic.Linarith

/-!
# `Common.RateLimiter` — the two rate limiters

`RateLimiter` keeps the instants of the requests it has admitted, `RedisRateLimiter` a sorted set of the instants of
all requests, each under its own text. A request is given with the clock it reads; instants are in seconds.
-/

namespace Irip.RateLimiting

open Runs

/-- `allow(key, limit, window)`, called at an instant. -/
structure Request where
  key : String
  limit : Int
  window : Int
  now : ℚ
  nonneg : 0 ≤ now

/-- The start of the window that ends with the request. -/
def Request.cutoff (r : Request) : ℚ := r.now - r.window

/-! ## In memory -/

abbrev Buckets := String → List ℚ

namespace RateLimiter

/-- The instants of a bucket that have not expired. -/
def timestamps (buckets : Buckets) (r : Request) : List ℚ := (buckets r.key).filter (fun ts => r.cutoff < ts)

def allow (buckets : Buckets) (r : Request) : Bool × Buckets :=
  let kept := timestamps buckets r
  if r.limit ≤ kept.length then (false, Function.update buckets r.key kept)
  else (true, Function.update buckets r.key (kept ++ [r.now]))

end RateLimiter

/-! ## In Redis -/

/-- A sorted set whose members are the texts of their scores, and the instant at which it expires. -/
structure ZSet where
  members : List ℚ
  deadline : ℚ

abbrev Store := String → Option ZSet

namespace RedisRateLimiter

/-- The members of a key at an instant. -/
def live (z : Option ZSet) (now : ℚ) : List ℚ :=
  match z with
  | some z => if now < z.deadline then z.members else []
  | none => []

def zremrangebyscore (lo hi : ℚ) (members : List ℚ) : List ℚ := members.filter (fun x => ¬ (lo ≤ x ∧ x ≤ hi))

/-- `ZADD` of an instant under its own text. -/
def zadd (now : ℚ) (members : List ℚ) : List ℚ := if now ∈ members then members else members ++ [now]

/-- The earlier instants that are on record when a request is counted. -/
def recorded (store : Store) (r : Request) : List ℚ := zremrangebyscore 0 r.cutoff (live (store r.key) r.now)

def allow (store : Store) (r : Request) : Bool × Store :=
  let members := zadd r.now (recorded store r)
  (members.length ≤ r.limit,
    Function.update store r.key (some { members := members, deadline := r.now + (r.window + 10) }))

end RedisRateLimiter

/-! ## Both -/

structure Limiters where
  memory : Buckets := fun _ => []
  redis : Store := fun _ => none

def Limiters.init : Limiters := {}

/-- A request is put to both limiters. -/
def step (s : Limiters) (r : Request) : Option Limiters :=
  some { memory := (RateLimiter.allow s.memory r).2, redis := (RedisRateLimiter.allow s.redis r).2 }

abbrev Served := Transition Limiters Request

/-- The instants at which requests of a key are admitted. -/
def admitted (allows : Served → Bool) (key : String) (ts : List Served) : List ℚ :=
  (ts.filter (fun t => t.act.key = key ∧ allows t)).map (fun t => t.act.now)

/-- The requests of a key all come with this limit and this window. -/
def Uniform (key : String) (limit window : Int) (ts : List Served) : Prop :=
  ∀ t ∈ ts, t.act.key = key → t.act.limit = limit ∧ t.act.window = window

/-- Of a key, at most `limit` requests are admitted in every window. -/
def Bounded (allows : Served → Bool) (ts : List Served) : Prop :=
  ∀ key limit window, Uniform key limit window ts → ∀ stop : ℚ,
    let within := (admitted allows key ts).filter (fun x => stop - window < x ∧ x ≤ stop)
    within ≠ [] → (within.length : Int) ≤ limit

/-- The instants of the window on record in Redis, with that of the request, are more than the limit exactly if the
requests admitted in the window have reached it. -/
def Alike (t : Served) : Prop :=
  t.act.limit < (RedisRateLimiter.zadd t.act.now (RedisRateLimiter.recorded t.pre.redis t.act)).length ↔
    t.act.limit ≤ (RateLimiter.timestamps t.pre.memory t.act).length

instance alikeDecidable : DecidablePred Alike := fun _ => inferInstanceAs (Decidable (_ ↔ _))

/-- The requests come one after the other. -/
def Ordered (ts : List Served) : Prop := ts.Pairwise (fun t u => t.act.now ≤ u.act.now)

instance orderedDecidable : DecidablePred Ordered := fun _ => inferInstanceAs (Decidable (List.Pairwise _ _))

section Memory

variable {s s' : Limiters} {r : Request} {ts : List Served} {key : String}

end Memory

/-! ## Results -/

section Results

variable {s : Limiters} {ts : List Served} {key : String}

/-- Two requests, one after the window of the other. -/
def apart : List Request := [⟨"k", 1, 60, 0, by decide⟩, ⟨"k", 1, 60, 60, by decide⟩]

end Results

end Irip.RateLimiting
