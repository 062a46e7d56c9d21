import Irip.Base.Batch
import Irip.Jobs.System

/-!
# `Jobs.Dispatcher` — delivery of the outbox in batches

`OutboxDispatcherService.dispatch` takes the oldest undelivered events, sends those it can route and marks
them delivered. An event it cannot route keeps `delivered_at` NULL and is selected again, first, by the
next call.
-/

namespace Irip.Jobs

open Table (Update)
open Batches

/-! ## Principals -/

/-- The value of one hexadecimal digit. -/
def hexDigit? (c : Char) : Option Nat :=
  if '0' ≤ c ∧ c ≤ '9' then some (c.toNat - '0'.toNat)
  else if 'a' ≤ c ∧ c ≤ 'f' then some (c.toNat - 'a'.toNat + 10)
  else if 'A' ≤ c ∧ c ≤ 'F' then some (c.toNat - 'A'.toNat + 10)
  else none

/-- Digits with single underscores between them. -/
def hexDigits (acc : Nat) (afterDigit : Bool) : List Char → Option Nat
  | [] => if afterDigit then some acc else none
  | c :: cs =>
    if c = '_' then if afterDigit then hexDigits acc false cs else none
    else
      match hexDigit? c with
      | some d => hexDigits (acc * 16 + d) true cs
      | none => none

/-- `int(·, 16)` of a text without a minus sign. -/
def parseHex (cs : List Char) : Option Nat :=
  let cs := ((cs.dropWhile isSpace).reverse.dropWhile isSpace).reverse
  let cs := match cs with
    | '+' :: cs => cs
    | cs => cs
  match cs with
  | '0' :: x :: '_' :: cs => if x = 'x' ∨ x = 'X' then hexDigits 0 false cs else hexDigits 0 false ('0' :: x :: '_' :: cs)
  | '0' :: x :: cs => if x = 'x' ∨ x = 'X' then hexDigits 0 false cs else hexDigits 0 false ('0' :: x :: cs)
  | cs => hexDigits 0 false cs

/-- `str.replace(pattern, "")`; `skip` characters are still to be dropped. -/
def removeAll (pattern : List Char) (skip : Nat) : List Char → List Char
  | [] => []
  | c :: cs =>
    match skip with
    | k + 1 => removeAll pattern k cs
    | 0 =>
      if pattern.isPrefixOf (c :: cs) then removeAll pattern (pattern.length - 1) cs
      else c :: removeAll pattern 0 cs

/-- `UUID(text)`, as the number it denotes. -/
def parseUuid (text : String) : Option Nat :=
  let isBrace := fun c : Char => c.toNat = 0x7b || c.toNat = 0x7d
  let hex := removeAll "uuid:".toList 0 (removeAll "urn:".toList 0 text.toList)
  let hex := ((hex.dropWhile isBrace).reverse.dropWhile isBrace).reverse
  let hex := hex.filter (fun c => c != '-')
  if hex.length = 32 then parseHex hex else none

/-- `str(uuid)`. -/
def uuidText (n : Nat) : String :=
  let digits := (List.range 32).map (fun k => Json.hexChar (n / 16 ^ (31 - k)))
  String.ofList ((digits.take 8) ++ ['-'] ++ ((digits.drop 8).take 4) ++ ['-'] ++ ((digits.drop 12).take 4) ++
    ['-'] ++ ((digits.drop 16).take 4) ++ ['-'] ++ (digits.drop 20))

/-- `str(·)` of a scalar. The text of a list or of a dict has a bracket or a quote in it, so it names
neither a UUID nor a kind. -/
def scalarText : Json → Option String
  | .null => some "None"
  | .bool b => some (if b then "True" else "False")
  | .int i => some (toString i)
  | .float r => some r
  | .str s => some s
  | .arr _ => none
  | .obj _ => none
  | .other _ => none

/-- The identity a research task runs under. -/
structure ResearchTaskPrincipal where
  actorId : Nat
  departmentId : Nat
  workspaceId : Nat

/-- `UUID(str(payload[key]))`, `none` when one of the three raises. -/
def uuidAt (payload : Json) (key : String) : Option Nat :=
  match payload with
  | .obj fields => (fields.lookup key).bind (fun v => (scalarText v).bind parseUuid)
  | _ => none

/-- `from_payload`, `none` when it raises `ValueError`. -/
def ResearchTaskPrincipal.fromPayload (payload : Json) : Option ResearchTaskPrincipal :=
  match uuidAt payload "actor_id", uuidAt payload "department_id", uuidAt payload "workspace_id" with
  | some actorId, some departmentId, some workspaceId =>
    some { actorId := actorId, departmentId := departmentId, workspaceId := workspaceId }
  | _, _, _ => none

def ResearchTaskPrincipal.asKwargs (p : ResearchTaskPrincipal) : List (String × String) :=
  [("actor_id", uuidText p.actorId), ("department_id", uuidText p.departmentId),
   ("workspace_id", uuidText p.workspaceId)]

/-! ## Routing -/

/-- The arguments of `send_task`. -/
structure Task where
  name : String
  args : List String
  kwargs : List (String × String) := []
  queue : String

/-- What the broker does with a task: `false` when `send_task` raises. -/
abbrev TaskSender := Task → Bool

def researchEventRoutes : List (String × String × String) :=
  [("research.plan.requested", "research.plans.generate", "irip-research"),
   ("research.recommendation.requested", "research.recommendations.generate", "irip-research"),
   ("research.run.requested", "research.run.execute", "irip-research"),
   ("research.candidate_extraction.requested", "research.candidates.extract", "irip-research")]

/-- The queues of `JobKindPolicy.POLICIES`. -/
def policyQueues : List (String × String) :=
  [("flow_execute", "irip-normal"), ("flow_resume", "irip-fast"), ("ingestion", "irip-fast"),
   ("model_train", "irip-normal"), ("model_predict", "irip-fast"), ("model_publish", "irip-normal"),
   ("backup", "irip-ops"), ("restore", "irip-ops"), ("audit_export", "irip-ops")]

/-- The queue of a default-routed event, `none` when looking into the payload raises. -/
def defaultQueue (payload : Option Json) : Option String :=
  match payload with
  | none => some "irip-normal"
  | some p =>
    if p.truthy then
      match p with
      | .obj fields =>
        match fields.lookup "kind" with
        | some kind => some (((scalarText kind).bind (fun k => policyQueues.lookup k)).getD "irip-normal")
        | none => some "irip-normal"
      -- in a list or a text `"kind" in payload` is a search, and the subscript after it raises
      | .arr items => if items.any (fun | .str s => s == "kind" | _ => false) then none else some "irip-normal"
      | .str s => if "kind".toList <:+: s.toList then none else some "irip-normal"
      | _ => none
    else some "irip-normal"

/-- The task an event is sent as, `none` when there is none. -/
def route (ev : OutboxEvent) : Option Task :=
  match researchEventRoutes.lookup ev.eventType with
  | some (taskName, queue) =>
    let payload := match ev.payload with
      | some p => if p.truthy then p else .obj []
      | none => .obj []
    (ResearchTaskPrincipal.fromPayload payload).map (fun principal =>
      { name := taskName, args := [toString ev.aggregateId], kwargs := principal.asKwargs, queue := queue })
  | none =>
    (defaultQueue ev.payload).map (fun queue =>
      { name := "jobs.execute", args := [toString ev.aggregateId], queue := queue })

/-- `_send_to_celery`; every exception is caught. -/
def sendToCelery (sender : Option TaskSender) (ev : OutboxEvent) : Bool :=
  match sender, route ev with
  | some accepts, some task => accepts task
  | _, _ => false

/-! ## Dispatch -/

/-- `dispatch` for the events its SELECT has returned: the number of events it has delivered and the
database it commits. `clock i` is the instant read for event `i`. -/
def dispatch (sender : Option TaskSender) (clock : EventId → Time) (db : Db) (selected : List EventId) :
    Nat × Db :=
  selected.foldl (fun (p : Nat × Db) i =>
    match p.2.outbox[i]? with
    | some ev =>
      if sendToCelery sender ev then
        (p.1 + 1, { p.2 with outbox := Table.update p.2.outbox [i] (deliveredStmt (clock i)) })
      else p
    | none => p) (0, db)

/-- The undelivered events. -/
def Db.pendingEvents (db : Db) : Finset EventId :=
  (Finset.range db.outbox.length).filter (fun i => db.undelivered i = true)

/-- The event can be routed. -/
def Db.routable (db : Db) (i : EventId) : Bool :=
  match db.outbox[i]? with
  | some ev => (route ev).isSome
  | none => false

/-- The list is an answer to `SELECT … WHERE delivered_at IS NULL ORDER BY occurred_at LIMIT batchSize`, which
leaves the order of simultaneous events open. -/
def Selects (batchSize : Nat) (db : Db) (selected : List EventId) : Prop :=
  Batch db.occurredAt batchSize db.pendingEvents selected

theorem route_delivered (ev : OutboxEvent) (t : Time) : route ((deliveredStmt t).set ev) = route ev := rfl

/-- **Row-wise reading of `dispatch`**: the selected events that could be sent are delivered, and nothing
else changes. -/
theorem getElem?_dispatch (sender : Option TaskSender) (clock : EventId → Time) (db : Db)
    (selected : List EventId) (k : EventId) :
    (dispatch sender clock db selected).2.outbox[k]? = db.outbox[k]?.map (fun ev =>
      if k ∈ selected ∧ sendToCelery sender ev = true then (deliveredStmt (clock k)).set ev else ev) := by
  unfold dispatch
  generalize 0 = n
  induction selected generalizing n db with
  | nil => simp
  | cons i rest ih =>
    rw [List.foldl_cons]
    cases hev : db.outbox[i]? with
    | none =>
      simp only [ih]
      by_cases hk : k = i
      · subst hk
        simp [hev]
      · simp [hk]
    | some ev =>
      by_cases hs : sendToCelery sender ev = true
      · have happ : (deliveredStmt (clock i)).apply ev = (deliveredStmt (clock i)).set ev :=
          Update.apply_of_cond rfl
        simp only [hs, if_true, ih, Table.getElem?_update, Option.map_map]
        by_cases hk : k = i
        · subst hk
          -- the event keeps its route, so a second send would write the same instant
          simp only [hev, Option.map_some, Function.comp, if_true, happ,
            List.mem_cons, true_or, true_and, hs]
          split <;> rfl
        · simp only [List.mem_cons, hk, false_or]
          rfl
      · simp only [hs, if_false, ih, Bool.false_eq_true]
        by_cases hk : k = i
        · subst hk
          simp [hev, hs]
        · simp [hk]

theorem undelivered_iff {db : Db} {i : EventId} :
    db.undelivered i = true ↔ ∃ ev, db.outbox[i]? = some ev ∧ ev.deliveredAt = none := by
  unfold Db.undelivered
  cases db.outbox[i]? with
  | none => simp
  | some ev => simp

theorem mem_pendingEvents {db : Db} {i : EventId} : i ∈ db.pendingEvents ↔ db.undelivered i = true := by
  rw [Db.pendingEvents, Finset.mem_filter, Finset.mem_range]
  refine ⟨And.right, fun h => ⟨?_, h⟩⟩
  obtain ⟨ev, hev, -⟩ := undelivered_iff.mp h
  exact (List.getElem?_eq_some_iff.mp hev).1

/-! ## Calls -/

/-- The broker accepts every send. -/
def acceptAll : Option TaskSender := some (fun _ => true)

/-- `n` calls `dispatch(b)`, one after the other, with nothing inserted between them. -/
inductive Dispatches (sender : Option TaskSender) (b : Nat) : Nat → Db → Db → Prop where
  | zero {db} : Dispatches sender b 0 db db
  | succ {n db db' selected clock} : Selects b db selected →
      Dispatches sender b n (dispatch sender clock db selected).2 db' → Dispatches sender b (n + 1) db db'

theorem occurredAt_dispatch (sender : Option TaskSender) (clock : EventId → Time) (db : Db)
    (selected : List EventId) : (dispatch sender clock db selected).2.occurredAt = db.occurredAt := by
  funext k
  unfold Db.occurredAt
  rw [getElem?_dispatch]
  cases db.outbox[k]? with
  | none => rfl
  | some ev =>
    simp only [Option.map_some]
    split <;> rfl

theorem routable_dispatch (sender : Option TaskSender) (clock : EventId → Time) (db : Db)
    (selected : List EventId) : (dispatch sender clock db selected).2.routable = db.routable := by
  funext k
  unfold Db.routable
  rw [getElem?_dispatch]
  cases db.outbox[k]? with
  | none => rfl
  | some ev =>
    simp only [Option.map_some]
    split
    · rw [route_delivered]
    · rfl

theorem pendingEvents_dispatch (clock : EventId → Time) (db : Db) (selected : List EventId) :
    (dispatch acceptAll clock db selected).2.pendingEvents
      = serve db.routable db.pendingEvents selected := by
  ext k
  rw [mem_serve, mem_pendingEvents, mem_pendingEvents]
  unfold Db.undelivered Db.routable
  rw [getElem?_dispatch]
  cases db.outbox[k]? with
  | none => simp
  | some ev =>
    have hsend : sendToCelery acceptAll ev = (route ev).isSome := by
      unfold sendToCelery acceptAll
      cases route ev <;> rfl
    simp only [Option.map_some, hsend]
    by_cases hk : k ∈ selected ∧ (route ev).isSome = true
    · simp [hk, deliveredStmt]
    · simp [hk]

theorem rounds_of_dispatches {b n : Nat} {db db' : Db} (h : Dispatches acceptAll b n db db') :
    Rounds db.occurredAt b db.routable n db.pendingEvents db'.pendingEvents := by
  induction h with
  | zero => exact .zero
  | succ hsel _ ih =>
    rw [occurredAt_dispatch, routable_dispatch, pendingEvents_dispatch] at ih
    exact .succ hsel ih

theorem dispatches_of_rounds {b n : Nat} {db : Db} {q : Finset EventId}
    (h : Rounds db.occurredAt b db.routable n db.pendingEvents q) :
    ∃ db', Dispatches acceptAll b n db db' ∧ db'.pendingEvents = q := by
  induction n generalizing db with
  | zero =>
    cases h
    exact ⟨db, .zero, rfl⟩
  | succ n ih =>
    cases h with
    | @succ _ _ _ selected hsel hrest =>
      rw [← pendingEvents_dispatch (fun _ => 0), ← occurredAt_dispatch acceptAll (fun _ => 0) db selected,
        ← routable_dispatch acceptAll (fun _ => 0) db selected] at hrest
      obtain ⟨db', hd, hq⟩ := ih hrest
      exact ⟨db', .succ hsel hd, hq⟩

/-! ## Results -/

/-- **When an event is delivered.** An undelivered event that can be routed is delivered within as many
calls `dispatch(b)` as there are undelivered events, however the database orders simultaneous events,
if and only if fewer than `b` of the undelivered events that are not younger cannot be routed. -/
theorem delivered_within_iff (b : Nat) (db : Db) (i : EventId) (hundelivered : db.undelivered i = true)
    (hroutable : db.routable i = true) :
    (∀ db', Dispatches acceptAll b db.pendingEvents.card db db' → db'.undelivered i = false) ↔
      (db.pendingEvents.filter (fun k =>
        db.routable k = false ∧ db.occurredAt k ≤ db.occurredAt i)).card < b := by
  have hiff : (∀ q, Rounds db.occurredAt b db.routable db.pendingEvents.card db.pendingEvents q → i ∉ q) ↔ _ :=
    served_iff (mem_pendingEvents.mpr hundelivered) hroutable
  refine Iff.trans ⟨fun hall q hq hmem => ?_, fun hall db' hd => ?_⟩ hiff
  · obtain ⟨db', hd, rfl⟩ := dispatches_of_rounds hq
    have hdone := hall db' hd
    rw [mem_pendingEvents.mp hmem] at hdone
    cases hdone
  · have hnot := hall _ (rounds_of_dispatches hd)
    rwa [mem_pendingEvents, Bool.not_eq_true] at hnot

/-- An outbox with a research event that lacks its principal before an accepted job. -/
def poisonedDb : Db :=
  { jobs := [],
    outbox :=
      [{ aggregateType := "research_run", aggregateId := 0, eventType := "research.run.requested",
         payload := some (.obj []), occurredAt := 0 },
       { aggregateType := "job", aggregateId := 1, eventType := "job.accepted",
         payload := some (.obj [("kind", .str "backup")]), occurredAt := 1 }] }

/-- With two events a call the accepted job is delivered within two calls. -/
theorem delivered_behind_one :
    poisonedDb.undelivered 1 = true ∧ poisonedDb.routable 1 = true ∧
      ∀ db', Dispatches acceptAll 2 poisonedDb.pendingEvents.card poisonedDb db' → db'.undelivered 1 = false :=
  ⟨by decide, by decide,
    (delivered_within_iff 2 poisonedDb 1 (by decide) (by decide)).mpr (by decide)⟩

/-- Poisoned events block the outbox in general: with one event a call the accepted job is never sent. -/
theorem poisoned_head_blocks :
    ¬ ∀ (b : Nat) (db : Db) (i : EventId), 1 ≤ b → db.undelivered i = true → db.routable i = true →
      ∀ db', Dispatches acceptAll b db.pendingEvents.card db db' → db'.undelivered i = false := by
  intro h
  have hsel : Selects 1 poisonedDb [0] :=
    { nodup := by decide, sub := by decide, size := by decide, least := by decide, sorted := by decide }
  have hfix : (dispatch acceptAll (fun _ => 0) poisonedDb [0]).2 = poisonedDb := by rfl
  have hagain : ∀ n, Dispatches acceptAll 1 n poisonedDb poisonedDb →
      Dispatches acceptAll 1 (n + 1) poisonedDb poisonedDb := by
    intro n hn
    have hnext : Dispatches acceptAll 1 n (dispatch acceptAll (fun _ => 0) poisonedDb [0]).2 poisonedDb := by
      rw [hfix]
      exact hn
    exact .succ hsel hnext
  have hdone := h 1 poisonedDb 1 (by decide) (by decide) (by decide) poisonedDb (hagain 1 (hagain 0 .zero))
  exact absurd hdone (by decide)

end Irip.Jobs
