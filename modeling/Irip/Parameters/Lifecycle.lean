import Irip.Parameters.Service

/-!
# `Parameters.Lifecycle` — the status of a parameter over a sequence of calls

The calls of the service one after the other, each a whole transaction.
-/

namespace Irip.Parameters

open Runs (Transition play play_run Run Since)

/-! ## The system -/

/-- A call, with what the surroundings answer its statements. -/
abbrev Performance := Call × List Answer

/-- One call on the tables, committed or undone. -/
def perform (d : Database) (c : Performance) : Option Database :=
  (engine.transact c.2 c.1.prog [] d).map Prod.snd

/-! ## Status -/

/-- The status of a parameter. -/
def Database.status? (d : Database) (id : Uuid) : Option ParameterStatus :=
  (d.parameters.find? (fun p => p.id = id)).map Parameter.status

section Status

variable {d d' : Database} {id : Uuid}

theorem hasParameter_iff : d.hasParameter id = true ↔ d.status? id ≠ none := by
  unfold Database.hasParameter Database.status?
  rw [ne_eq, Option.map_eq_none_iff, List.find?_eq_none, List.any_eq_true]
  simp

theorem status?_setParameter (id' : Uuid) (st : ParameterStatus) (d : Database) (id : Uuid) :
    ((Write.setParameter id' st).apply d).status? id
      = if id = id' then (d.status? id).map (fun _ => st) else d.status? id := by
  have hsame : (fun p : Parameter => decide (p.id = id)) ∘
      (fun p => if p.id = id' then { p with status := st, lockVersion := p.lockVersion + 1 } else p)
      = fun p => decide (p.id = id) := by
    funext p
    show decide ((if p.id = id' then _ else p).id = id) = _
    split <;> rfl
  unfold Database.status?
  show ((d.parameters.map _).find? _).map _ = _
  rw [List.find?_map, hsame, Option.map_map, Option.map_map]
  cases hp : d.parameters.find? (fun p => decide (p.id = id)) with
  | none => simp
  | some p =>
    have hid : p.id = id := by simpa using List.find?_some hp
    by_cases h : id = id'
    · simp [hid, h]
    · simp [hid, h]

theorem status?_insertParameter (row : Parameter) (d : Database) (id : Uuid) :
    ((Write.insertParameter row).apply d).status? id
      = (d.status? id).or (if row.id = id then some row.status else none) := by
  unfold Database.status?
  show ((d.parameters ++ [row]).find? _).map _ = _
  rw [List.find?_append]
  cases d.parameters.find? (fun p => decide (p.id = id)) with
  | some p => rfl
  | none =>
    by_cases h : row.id = id
    · simp [h]
    · simp [h]

end Status

/-! ## Calls -/

/-- What `create_candidate` checks, up to the constraints of the table. -/
def Submits (d : Database) (service : Service) (parameterId derivationRunId : Uuid) (as : List Answer) : Prop :=
  (as[0]?.bind Answer.runStatus) = some .succeeded ∧ d.status? parameterId ≠ none ∧
    (∀ c ∈ d.candidates, ¬ (c.parameterId = parameterId ∧ c.derivationRunId = derivationRunId)) ∧
    service.actorId ≠ none ∧ (∃ a ∈ as[5]?, a.resolves = true) ∧ ∃ a ∈ as[3]?, ∀ c ∈ d.candidates, c.id ≠ a.id

/-- The candidate `reject` finds and may reject. -/
def Rejects (d : Database) (candidateId reviewer : Uuid) (c : ParameterCandidate) : Prop :=
  d.candidates.find? (fun c => c.id = candidateId ∧ d.hasParameter c.parameterId) = some c ∧
    c.status = .pendingReview ∧ c.submittedBy ≠ some reviewer

section Calls

variable {d d' : Database} {as : List Answer} {out : Except Exn Reply}

theorem transact_lift {α : Type} {x : Except Exn α} {f : α → M Reply} {ws : List Write}
    (h : engine.transact as (Prog.lift x >>= f) ws d = some (out, d')) :
    (∃ a, x = .ok a ∧ engine.transact as (f a) ws d = some (out, d')) ∨ ((∃ e, x = .error e) ∧ d' = d) := by
  cases x with
  | ok a => exact .inl ⟨a, rfl, h⟩
  | error e => exact .inr ⟨⟨e, rfl⟩, Engine.transact_raise h⟩

theorem allowed_iff {param run : Uuid} (hexists : d.status? param ≠ none)
    (hnone : ∀ c ∈ d.candidates, ¬ (c.parameterId = param ∧ c.derivationRunId = run)) {a : Answer}
    {row : ParameterCandidate} (hparam : row.parameterId = param) (hrun : row.derivationRunId = run) :
    (a.resolves && row.submittedBy.isSome && d.hasParameter row.parameterId && !d.candidates.any row.clashes) = true ↔
      a.resolves = true ∧ row.submittedBy ≠ none ∧ ∀ c ∈ d.candidates, c.id ≠ row.id := by
  subst hparam hrun
  have hclash : d.candidates.any row.clashes = false ↔ ∀ c ∈ d.candidates, c.id ≠ row.id := by
    rw [List.any_eq_false]
    refine forall₂_congr fun c hc => ?_
    have hother := hnone c hc
    simp only [ParameterCandidate.clashes, Bool.or_eq_true, Bool.and_eq_true, beq_iff_eq]
    constructor
    · exact fun h hid => h (.inl hid.symm)
    · rintro h (hid | ⟨hp, hr⟩)
      · exact h hid.symm
      · exact hother ⟨hp.symm, hr.symm⟩
  rw [← hclash, Bool.and_eq_true, Bool.and_eq_true, Bool.and_eq_true, hasParameter_iff.mpr hexists,
    Bool.not_eq_true', Option.isSome_iff_ne_none]
  simp only [and_true, and_assoc]

theorem status_of_checkRun {run : Option DerivationRun} {id : Uuid} {text : String} {u : Unit}
    (h : checkRun run id text = .ok u) : run.map DerivationRun.status = some .succeeded := by
  cases run with
  | none => cases h
  | some r =>
    simp only [checkRun] at h
    split at h
    · cases h
    · next hstatus => exact congrArg some (by simpa using hstatus)

/-- `create_candidate` writes the candidate and sets the parameter back to the review, or it raises. -/
theorem transact_createCandidate {service : Service} {param run : Uuid} {value : String}
    {unit confidence : Option String} {conditions : Option Json}
    (h : engine.transact as (createCandidate service param run value unit confidence conditions) [] d
      = some (out, d')) :
    (Submits d service param run as ∧ ∃ row,
      d' = engine.view [.insertCandidate row, .setParameter param .pendingReview] d) ∨
    (¬ Submits d service param run as ∧ d' = d) := by
  obtain ⟨a₀, as, found, _, rfl, hfound, h⟩ := Engine.transact_op h
  obtain ⟨rfl, rfl⟩ := answer_inj hfound
  rcases transact_lift h with ⟨_, hrun, h⟩ | ⟨⟨e, hrun⟩, rfl⟩
  · have hsucceeded : a₀.runStatus = some .succeeded := by
      have hstatus := status_of_checkRun hrun
      cases hr : a₀.runStatus with
      | none => rw [hr] at hstatus; cases hstatus
      | some st => rw [hr] at hstatus; exact hstatus
    obtain ⟨a₁, as, row, _, rfl, hselect, h⟩ := Engine.transact_op h
    obtain ⟨hrow, rfl⟩ := answer_inj hselect
    have hstatus : d.status? param = row.map Parameter.status := congrArg _ hrow
    cases row with
    | none => exact .inr ⟨fun hs => hs.2.1 hstatus, Engine.transact_raise h⟩
    | some p =>
      have hexists : d.status? param ≠ none := by simp [hstatus]
      obtain ⟨a₂, as, existing, _, rfl, hselect', h⟩ := Engine.transact_op h
      obtain ⟨hexisting, rfl⟩ := answer_inj hselect'
      have hfind : d.candidates.find? (fun c => c.parameterId = param ∧ c.derivationRunId = run) = existing :=
        hexisting
      cases existing with
      | some c =>
        refine .inr ⟨fun hs => ?_, Engine.transact_raise h⟩
        exact hs.2.2.1 c (List.mem_of_find?_eq_some hfind) (by simpa using List.find?_some hfind)
      | none =>
        have hnone : ∀ c ∈ d.candidates, ¬ (c.parameterId = param ∧ c.derivationRunId = run) := by
          intro c hc
          simpa using List.find?_eq_none.mp hfind c hc
        obtain ⟨a₃, as, id, _, rfl, hid, h⟩ := Engine.transact_op h
        obtain ⟨rfl, rfl⟩ := answer_inj hid
        obtain ⟨a₄, as, now, _, rfl, hnow, h⟩ := Engine.transact_op h
        obtain ⟨rfl, rfl⟩ := answer_inj hnow
        obtain ⟨a₅, as, inserted, _, rfl, hinsert, h⟩ := Engine.transact_op h
        -- what the constraints of the table ask for is what is left of `Submits`
        rcases insert_cases (Option.some.inj hinsert) with ⟨hallowed, rfl, rfl⟩ | ⟨hrefused, rfl, rfl⟩
        · left
          obtain ⟨hresolves, hactor, hid⟩ := (allowed_iff hexists hnone rfl rfl).mp hallowed
          refine ⟨⟨hsucceeded, hexists, hnone, hactor, ⟨a₅, rfl, hresolves⟩, a₃, rfl, hid⟩, ?_⟩
          obtain ⟨a₆, as, _, _, rfl, hupdate, h⟩ := Engine.transact_op h
          obtain ⟨_, rfl⟩ := answer_inj hupdate
          exact ⟨_, Engine.transact_ret h⟩
        · right
          refine ⟨?_, Engine.transact_raise h⟩
          rintro ⟨_, _, _, hactor, ⟨_, ha₅, hresolves⟩, _, ha₃, hid⟩
          obtain rfl := Option.some.inj ha₅
          obtain rfl := Option.some.inj ha₃
          refine Bool.false_ne_true (hrefused.symm.trans ?_)
          exact (allowed_iff hexists hnone rfl rfl).mpr ⟨hresolves, hactor, hid⟩
  · right
    refine ⟨fun hs => ?_, rfl⟩
    have hstatus : a₀.runStatus = some .succeeded := hs.1
    rw [hstatus] at hrun
    cases hrun

/-- `reject` writes the review and sets the parameter of the candidate to rejected, or it raises. -/
theorem transact_reject {id reviewer : Uuid} {comment : String}
    (h : engine.transact as (reject id reviewer comment) [] d = some (out, d')) :
    (∃ c r, Rejects d id reviewer c ∧
      d' = engine.view [.reviewCandidate c.id r, .setParameter c.parameterId .rejected] d) ∨
    ((∀ c, ¬ Rejects d id reviewer c) ∧ d' = d) := by
  obtain ⟨a₀, as, found, _, rfl, hselect, h⟩ := Engine.transact_op h
  obtain ⟨hfound, rfl⟩ := answer_inj hselect
  have hfind : d.candidates.find? (fun c => c.id = id ∧ d.hasParameter c.parameterId) = found := hfound
  cases found with
  | none =>
    refine .inr ⟨fun c hc => ?_, Engine.transact_raise h⟩
    have hnone := hfind.symm.trans hc.1
    cases hnone
  | some c =>
    rcases transact_lift h with ⟨_, hcheck, h⟩ | ⟨⟨e, hcheck⟩, rfl⟩
    · left
      obtain ⟨a₁, as, now, _, rfl, hnow, h⟩ := Engine.transact_op h
      obtain ⟨_, rfl⟩ := answer_inj hnow
      obtain ⟨a₂, as, _, _, rfl, hreview, h⟩ := Engine.transact_op h
      obtain ⟨_, rfl⟩ := answer_inj hreview
      obtain ⟨a₃, as, _, _, rfl, hupdate, h⟩ := Engine.transact_op h
      obtain ⟨_, rfl⟩ := answer_inj hupdate
      exact ⟨c, _, ⟨hfind, checkPending_ok.mp hcheck⟩, Engine.transact_ret h⟩
    · right
      refine ⟨fun c' hc' => ?_, rfl⟩
      obtain ⟨hfind', hpending, hother⟩ := hc'
      obtain rfl := Option.some.inj (hfind.symm.trans hfind')
      have hok : checkPending c id reviewer = .ok () := checkPending_ok.mpr ⟨hpending, hother⟩
      rw [hok] at hcheck
      cases hcheck

/-- `approve` adds a version to the parameter of a candidate and publishes the parameter, or it raises. -/
theorem transact_approve {service : Service} {id reviewer : Uuid}
    (h : engine.transact as (approve service id reviewer) [] d = some (out, d')) :
    (∃ v c r edge, v.status = .published ∧ d.hasParameter v.parameterId = true ∧
      d' = engine.view [.insertVersion v, .setParameter v.parameterId .published, .reviewCandidate c r,
        .insertEdge edge] d) ∨ d' = d := by
  obtain ⟨a₀, as, found, _, rfl, hselect, h⟩ := Engine.transact_op h
  obtain ⟨hfound, rfl⟩ := answer_inj hselect
  cases found with
  | none => exact .inr (Engine.transact_raise h)
  | some c =>
    rcases transact_lift h with ⟨_, _, h⟩ | ⟨_, rfl⟩
    · obtain ⟨a₁, as, run, _, rfl, hrun, h⟩ := Engine.transact_op h
      obtain ⟨_, rfl⟩ := answer_inj hrun
      rcases transact_lift h with ⟨_, _, h⟩ | ⟨_, rfl⟩
      · obtain ⟨a₂, as, maxVersion, _, rfl, hmax, h⟩ := Engine.transact_op h
        obtain ⟨_, rfl⟩ := answer_inj hmax
        obtain ⟨a₃, as, versionId, _, rfl, hid, h⟩ := Engine.transact_op h
        obtain ⟨_, rfl⟩ := answer_inj hid
        obtain ⟨a₄, as, now, _, rfl, hnow, h⟩ := Engine.transact_op h
        obtain ⟨_, rfl⟩ := answer_inj hnow
        obtain ⟨a₅, as, inserted, _, rfl, hinsert, h⟩ := Engine.transact_op h
        rcases insert_cases (Option.some.inj hinsert) with ⟨hallowed, rfl, rfl⟩ | ⟨_, rfl, rfl⟩
        · obtain ⟨a₆, as, _, _, rfl, hupdate, h⟩ := Engine.transact_op h
          obtain ⟨_, rfl⟩ := answer_inj hupdate
          obtain ⟨a₇, as, edgeId, _, rfl, hid', h⟩ := Engine.transact_op h
          obtain ⟨_, rfl⟩ := answer_inj hid'
          obtain ⟨a₈, as, _, _, rfl, hreview, h⟩ := Engine.transact_op h
          obtain ⟨_, rfl⟩ := answer_inj hreview
          obtain ⟨a₉, as, linked, _, rfl, hlink, h⟩ := Engine.transact_op h
          rcases insert_cases (Option.some.inj hlink) with ⟨_, rfl, rfl⟩ | ⟨_, rfl, rfl⟩
          · left
            obtain ⟨a₁₀, as, row, _, rfl, hrow, h⟩ := Engine.transact_op h
            obtain ⟨_, rfl⟩ := answer_inj hrow
            have hparam := (Bool.and_eq_true_iff.mp (Bool.and_eq_true_iff.mp hallowed).1).2
            exact ⟨c.toVersion versionId (maxVersion.getD 0 + 1) now reviewer, _, _, _, rfl, hparam,
              Engine.transact_ret h⟩
          · exact .inr (Engine.transact_raise h)
        · exact .inr (Engine.transact_raise h)
      · exact .inr rfl
    · exact .inr rfl

/-- `deprecate` takes a published parameter and its published versions out of use, or it raises. -/
theorem transact_deprecateParameter {param : Uuid}
    (h : engine.transact as (deprecateParameter param) [] d = some (out, d')) :
    (d.status? param = some .published ∧ d' = engine.view [.setParameter param .deprecated,
      .deprecateVersions ((d.versions.filter (fun v => v.parameterId = param ∧ v.status = .published)).map
        ParameterVersion.id)] d) ∨ d' = d := by
  obtain ⟨a₀, as, found, _, rfl, hselect, h⟩ := Engine.transact_op h
  obtain ⟨hfound, rfl⟩ := answer_inj hselect
  have hstatus : d.status? param = found.map Parameter.status := congrArg _ hfound
  cases found with
  | none => exact .inr (Engine.transact_raise h)
  | some p =>
    change engine.transact as (ite (p.status ≠ .published) _ _) [] d = _ at h
    split at h
    · exact .inr (Engine.transact_raise h)
    · next hpublished =>
        left
        obtain ⟨a₁, as, _, _, rfl, hupdate, h⟩ := Engine.transact_op h
        obtain ⟨_, rfl⟩ := answer_inj hupdate
        obtain ⟨a₂, as, _, _, rfl, hversions, h⟩ := Engine.transact_op h
        obtain ⟨_, rfl⟩ := answer_inj hversions
        refine ⟨?_, Engine.transact_ret h⟩
        rw [hstatus]
        exact congrArg some (by simpa using hpublished)

theorem transact_createParameter {service : Service} {code : String} {obj : Uuid}
    (h : engine.transact as (createParameter service code obj) [] d = some (out, d')) :
    (∃ row, row.status = .draft ∧ d.status? row.id = none ∧ d' = engine.view [.insertParameter row] d) ∨
      d' = d := by
  unfold createParameter at h
  split at h
  · exact .inr (Engine.transact_raise h)
  · obtain ⟨a₀, as, existing, _, rfl, hselect, h⟩ := Engine.transact_op h
    obtain ⟨_, rfl⟩ := answer_inj hselect
    cases existing with
    | some p => exact .inr (Engine.transact_raise h)
    | none =>
      obtain ⟨a₁, as, id, _, rfl, hid, h⟩ := Engine.transact_op h
      obtain ⟨_, rfl⟩ := answer_inj hid
      obtain ⟨a₂, as, inserted, _, rfl, hinsert, h⟩ := Engine.transact_op h
      rcases insert_cases (Option.some.inj hinsert) with ⟨hallowed, rfl, rfl⟩ | ⟨_, rfl, rfl⟩
      · left
        refine ⟨_, rfl, ?_, Engine.transact_ret h⟩
        have hfree := (Bool.and_eq_true_iff.mp hallowed).2
        rw [Bool.not_eq_true', List.any_eq_false] at hfree
        refine Option.map_eq_none_iff.mpr (List.find?_eq_none.mpr fun p hp hid => hfree p hp ?_)
        simp [Parameter.clashes, of_decide_eq_true hid]
      · exact .inr (Engine.transact_raise h)

theorem transact_submitForReview {id : Uuid}
    (h : engine.transact as (submitForReview id) [] d = some (out, d')) : d' = d := by
  obtain ⟨a₀, as, found, _, rfl, hselect, h⟩ := Engine.transact_op h
  obtain ⟨_, rfl⟩ := answer_inj hselect
  cases found with
  | none => exact Engine.transact_raise h
  | some c => exact Engine.transact_ret h

end Calls

/-! ## The status and the history -/

/-- The statuses of a parameter of which nothing has been approved. -/
def ParameterStatus.PreApproval : ParameterStatus → Prop
  | .draft => True
  | .pendingReview => True
  | .rejected => True
  | _ => False

/-- A parameter with a version in effect is published. -/
def Database.EffectivePublished (d : Database) : Prop :=
  ∀ v ∈ d.versions, v.status = .published → d.status? v.parameterId = some .published

/-- The call submits or rejects a candidate. -/
def Call.Reviews : Call → Prop
  | .createCandidate _ _ _ _ _ _ _ => True
  | .reject _ _ _ => True
  | _ => False

/-- Submitting or rejecting a candidate takes no parameter's published status away. -/
def KeepsPublished (t : Transition Database Performance) : Prop :=
  t.act.1.Reviews → ∀ id, t.pre.status? id = some .published → t.post.status? id = some .published

/-- The parameter is published or deprecated. -/
def Database.Released (d : Database) (id : Uuid) : Prop :=
  d.status? id = some .published ∨ d.status? id = some .deprecated

/-- The call submits a candidate for, or rejects one of, a parameter that is published or deprecated. -/
def Disturbs (d : Database) : Performance → Prop
  | (.createCandidate service param run _ _ _ _, as) => Submits d service param run as ∧ d.Released param
  | (.reject id reviewer _, _) => ∃ c, Rejects d id reviewer c ∧ d.Released c.parameterId
  | _ => False

/-- The statuses after an UPDATE of one parameter. -/
def Database.Sets (d d' : Database) (id : Uuid) (st : ParameterStatus) : Prop :=
  ∀ i, d'.status? i = if i = id then (d.status? i).map (fun _ => st) else d.status? i

/-- What a call does to the statuses and the versions. -/
inductive Effect (d : Database) (c : Performance) (d' : Database) : Prop where
  | idle (hd : ¬ Disturbs d c) (h : d' = d)
  | draft (id : Uuid) (hc : ¬ c.1.Reviews) (hd : ¬ Disturbs d c) (hnew : d.status? id = none)
      (hstatus : ∀ i, d'.status? i = (d.status? i).or (if id = i then some .draft else none))
      (hversions : d'.versions = d.versions)
  | review (id : Uuid) (st : ParameterStatus) (hc : c.1.Reviews) (hd : Disturbs d c ↔ d.Released id)
      (hst : st.PreApproval) (hset : d.Sets d' id st) (hversions : d'.versions = d.versions)
  | approve (v : ParameterVersion) (hc : ¬ c.1.Reviews) (hd : ¬ Disturbs d c)
      (hexists : d.status? v.parameterId ≠ none) (hset : d.Sets d' v.parameterId .published)
      (hversions : d'.versions = d.versions ++ [v])
  | withdraw (id : Uuid) (hc : ¬ c.1.Reviews) (hd : ¬ Disturbs d c) (hset : d.Sets d' id .deprecated)
      (hversions : d'.versions = d.versions.map (fun v =>
        if v.id ∈ (d.versions.filter (fun v => v.parameterId = id ∧ v.status = .published)).map ParameterVersion.id
        then { v with status := .deprecated } else v))

section Histories

variable {d d' : Database} {c : Performance}

/-- **What a call does.** -/
theorem effect_perform (h : perform d c = some d') : Effect d c d' := by
  obtain ⟨call, as⟩ := c
  obtain ⟨⟨out, _⟩, hrun, rfl⟩ := Option.map_eq_some_iff.mp h
  cases call with
  | createParameter service code obj =>
    rcases transact_createParameter hrun with ⟨row, hdraft, hnew, rfl⟩ | rfl
    · refine .draft row.id (fun h => h) (fun h => h) hnew (fun i => ?_) rfl
      rw [← hdraft]
      exact status?_insertParameter row d i
    · exact .idle (fun h => h) rfl
  | createCandidate service param run value unit confidence conditions =>
    rcases transact_createCandidate hrun with ⟨hs, row, rfl⟩ | ⟨hs, rfl⟩
    · exact .review param .pendingReview trivial ⟨fun hd => hd.2, fun hd => ⟨hs, hd⟩⟩ trivial
        (fun i => status?_setParameter param .pendingReview _ i) rfl
    · exact .idle (fun hd => hs hd.1) rfl
  | submitForReview id =>
    obtain rfl := transact_submitForReview hrun
    exact .idle (fun h => h) rfl
  | approve service id reviewer =>
    rcases transact_approve hrun with ⟨v, e, r, edge, _, hexists, rfl⟩ | rfl
    · exact .approve v (fun h => h) (fun h => h) (hasParameter_iff.mp hexists)
        (fun i => status?_setParameter v.parameterId .published _ i) rfl
    · exact .idle (fun h => h) rfl
  | reject id reviewer comment =>
    rcases transact_reject hrun with ⟨e, r, he, rfl⟩ | ⟨hno, rfl⟩
    · refine .review e.parameterId .rejected trivial ?_ trivial
        (fun i => status?_setParameter e.parameterId .rejected _ i) rfl
      constructor
      · rintro ⟨e', he', hd⟩
        obtain rfl := Option.some.inj (he.1.symm.trans he'.1)
        exact hd
      · exact fun hd => ⟨e, he, hd⟩
    · exact .idle (fun ⟨e, he, _⟩ => hno e he) rfl
  | deprecateParameter param =>
    rcases transact_deprecateParameter hrun with ⟨_, rfl⟩ | rfl
    · exact .withdraw param (fun h => h) (fun h => h)
        (fun i => status?_setParameter param .deprecated _ i) rfl
    · exact .idle (fun h => h) rfl

/-- The versions of a parameter exist for an existing parameter, and one in effect for a published one. -/
structure Stable (d : Database) : Prop where
  effective : d.EffectivePublished
  owned : ∀ v ∈ d.versions, d.status? v.parameterId ≠ none

theorem Database.Sets.cases {id i : Uuid} {st : ParameterStatus} (h : d.Sets d' id st) :
    (i = id ∧ d'.status? i = (d.status? i).map (fun _ => st)) ∨ (i ≠ id ∧ d'.status? i = d.status? i) := by
  have hi := h i
  split at hi
  · next heq => exact .inl ⟨heq, hi⟩
  · next hne => exact .inr ⟨hne, hi⟩

theorem Database.Sets.exists {id i : Uuid} {st : ParameterStatus} (h : d.Sets d' id st)
    (hi : d.status? i ≠ none) : d'.status? i ≠ none := by
  rcases h.cases (i := i) with ⟨_, hset⟩ | ⟨_, hsame⟩
  · rw [hset, ne_eq, Option.map_eq_none_iff]
    exact hi
  · rw [hsame]
    exact hi

theorem Database.Sets.at {id : Uuid} {st st' : ParameterStatus} (h : d.Sets d' id st)
    (hi : d.status? id = some st') : d'.status? id = some st := by
  rw [h id, if_pos rfl, hi]
  rfl

/-- **A call that disturbs nothing** keeps the invariant, keeps published what submissions and rejections find
published, and leaves a parameter that is published or deprecated one of the two. -/
theorem effect_calm (hd : Stable d) (h : Effect d c d') (hcalm : ¬ Disturbs d c) :
    Stable d' ∧ KeepsPublished ⟨d, c, d'⟩ ∧ ∀ i, d.Released i → d'.Released i := by
  cases h with
  | idle _ h =>
    subst h
    exact ⟨hd, fun _ _ hi => hi, fun _ hi => hi⟩
  | draft id hc _ hnew hstatus hversions =>
    have hsame : ∀ i, d.status? i ≠ none → d'.status? i = d.status? i := by
      intro i hi
      obtain ⟨st, hst⟩ := Option.ne_none_iff_exists'.mp hi
      rw [hstatus, hst]
      rfl
    refine ⟨⟨?_, ?_⟩, fun hr => absurd hr hc, ?_⟩
    · intro v hv hpublished
      rw [hversions] at hv
      rw [hsame _ (hd.owned v hv)]
      exact hd.effective v hv hpublished
    · intro v hv
      rw [hversions] at hv
      rw [hsame _ (hd.owned v hv)]
      exact hd.owned v hv
    · rintro i (hi | hi)
      · exact .inl ((hsame i (by simp [hi])).trans hi)
      · exact .inr ((hsame i (by simp [hi])).trans hi)
  | review id st _ hdisturbs _ hset hversions =>
    -- the parameter is neither published nor deprecated, so no version of it is in effect
    have hnot : ¬ d.Released id := fun h => hcalm (hdisturbs.mpr h)
    have hkeep : ∀ i, d.Released i → d'.status? i = d.status? i := by
      intro i hi
      rcases hset.cases (i := i) with ⟨rfl, _⟩ | ⟨_, hsame⟩
      · exact absurd hi hnot
      · exact hsame
    refine ⟨⟨?_, ?_⟩, fun _ i hi => (hkeep i (.inl hi)).trans hi, ?_⟩
    · intro v hv hpublished
      rw [hversions] at hv
      have hold := hd.effective v hv hpublished
      exact (hkeep _ (.inl hold)).trans hold
    · intro v hv
      rw [hversions] at hv
      exact hset.exists (hd.owned v hv)
    · rintro i (hi | hi)
      · exact .inl ((hkeep i (.inl hi)).trans hi)
      · exact .inr ((hkeep i (.inr hi)).trans hi)
  | approve v hc _ hexists hset hversions =>
    obtain ⟨st, hst⟩ := Option.ne_none_iff_exists'.mp hexists
    have hnow : d'.status? v.parameterId = some .published := hset.at hst
    have hpub : ∀ i, d.status? i = some .published → d'.status? i = some .published := by
      intro i hi
      rcases hset.cases (i := i) with ⟨rfl, _⟩ | ⟨_, hsame⟩
      · exact hnow
      · exact hsame.trans hi
    refine ⟨⟨?_, ?_⟩, fun hr => absurd hr hc, ?_⟩
    · intro w hw hpublished
      rw [hversions] at hw
      rcases List.mem_append.mp hw with hw | hw
      · exact hpub _ (hd.effective w hw hpublished)
      · obtain rfl := List.mem_singleton.mp hw
        exact hnow
    · intro w hw
      rw [hversions] at hw
      rcases List.mem_append.mp hw with hw | hw
      · exact hset.exists (hd.owned w hw)
      · obtain rfl := List.mem_singleton.mp hw
        exact hset.exists hexists
    · rintro i (hi | hi)
      · exact .inl (hpub i hi)
      · rcases hset.cases (i := i) with ⟨rfl, _⟩ | ⟨_, hsame⟩
        · exact .inl hnow
        · exact .inr (hsame.trans hi)
  | withdraw id hc _ hset hversions =>
    refine ⟨⟨?_, ?_⟩, fun hr => absurd hr hc, ?_⟩
    · intro w hw hpublished
      rw [hversions] at hw
      obtain ⟨v, hv, rfl⟩ := List.mem_map.mp hw
      by_cases hids : v.id ∈ (d.versions.filter (fun v => v.parameterId = id ∧ v.status = .published)).map
          ParameterVersion.id
      · rw [if_pos hids] at hpublished
        cases hpublished
      · rw [if_neg hids] at hpublished ⊢
        have hother : v.parameterId ≠ id := by
          intro hid
          exact hids (List.mem_map_of_mem (List.mem_filter.mpr ⟨hv, by simp [hid, hpublished]⟩))
        have hi := hset v.parameterId
        rw [if_neg hother] at hi
        exact hi.trans (hd.effective v hv hpublished)
    · intro w hw
      rw [hversions] at hw
      obtain ⟨v, hv, rfl⟩ := List.mem_map.mp hw
      have hparam : ∀ b : Prop, [Decidable b] →
          (if b then { v with status := .deprecated } else v).parameterId = v.parameterId := by
        intro b _
        split <;> rfl
      rw [hparam]
      exact hset.exists (hd.owned v hv)
    · rintro i (hi | hi)
      · rcases hset.cases (i := i) with ⟨rfl, _⟩ | ⟨_, hsame⟩
        · exact .inr (hset.at hi)
        · exact .inl (hsame.trans hi)
      · rcases hset.cases (i := i) with ⟨rfl, _⟩ | ⟨_, hsame⟩
        · exact .inr (hset.at hi)
        · exact .inr (hsame.trans hi)

/-- **A call that disturbs a parameter** takes its published status away, or returns it from deprecation to a
status before approval. -/
theorem effect_disturbing (h : Effect d c d') (hdisturbs : Disturbs d c) :
    ¬ KeepsPublished ⟨d, c, d'⟩ ∨
      ∃ i st, d.status? i = some .deprecated ∧ d'.status? i = some st ∧ st.PreApproval := by
  cases h with
  | idle hd _ | draft _ _ hd _ _ _ | approve _ _ hd _ _ _ | withdraw _ _ hd _ _ => exact absurd hdisturbs hd
  | review id st hc hd hst hset _ =>
    rcases hd.mp hdisturbs with hpublished | hdeprecated
    · left
      intro hkeeps
      have hstill := hkeeps hc id hpublished
      have hnow : d'.status? id = some st := hset.at hpublished
      rw [show (⟨d, c, d'⟩ : Transition Database Performance).post.status? id = d'.status? id from rfl,
        hnow] at hstill
      obtain rfl := Option.some.inj hstill
      exact hst
    · exact .inr ⟨id, st, hdeprecated, hset.at hdeprecated, hst⟩

theorem not_preApproval_of_released {i : Uuid} (h : d.Released i) :
    ∀ st ∈ d.status? i, ¬ st.PreApproval := by
  intro st hst
  rcases h with h | h
  · obtain rfl := Option.some.inj (h.symm.trans hst)
    exact fun h => h
  · obtain rfl := Option.some.inj (h.symm.trans hst)
    exact fun h => h

end Histories

/-- **The status of a parameter agrees with its history exactly when nobody disturbs what is released.** In every
sequence of calls, these hold throughout: a parameter with a version in effect is published; submitting or
rejecting a candidate leaves a published parameter published; and from its deprecation on a parameter has no
status before approval. They do if and only if no call submits a candidate for, or rejects one of, a
parameter that is published or deprecated. -/
theorem lifecycle_iff (calls : List Performance) :
    ((∀ t ∈ play perform {} calls, t.post.EffectivePublished ∧ KeepsPublished t) ∧
      ∀ id, Since (fun t => t.pre.status? id = some .deprecated)
        (fun t => ∀ st ∈ t.post.status? id, ¬ st.PreApproval) (play perform {} calls)) ↔
      ∀ t ∈ play perform {} calls, ¬ Disturbs t.pre t.act := by
  have hrun : Run perform {} (play perform {} calls) _ := play_run _ calls
  constructor
  · rintro ⟨hstatus, hsince⟩ t ht hdisturbs
    rcases effect_disturbing (effect_perform (hrun.step_of_mem ht)) hdisturbs with hlost | ⟨i, st, hi, hst, hpre⟩
    · exact hlost (hstatus t ht).2
    · exact (hsince i).at t ht hi st hst hpre
  · intro hcalm
    have hempty : Stable {} := ⟨List.forall_mem_nil _, List.forall_mem_nil _⟩
    have hstep : ∀ t ∈ play perform {} calls, Stable t.pre →
        Stable t.post ∧ KeepsPublished t ∧ ∀ i, t.pre.Released i → t.post.Released i :=
      fun t ht hd => effect_calm hd (effect_perform (hrun.step_of_mem ht)) (hcalm t ht)
    have hstable := hrun.invariant hempty (fun t ht hd => (hstep t ht hd).1)
    refine ⟨fun t ht => ⟨(hstable t ht).2.effective, (hstep t ht (hstable t ht).1).2.1⟩, fun id => ?_⟩
    -- once deprecated, a parameter stays published or deprecated
    refine hrun.since (J := fun d => d.Released id) (fun t _ h => .inr h) (fun t ht hreleased => ?_)
    have hpost := (hstep t ht (hstable t ht).1).2.2 id hreleased
    exact ⟨hpost, not_preApproval_of_released hpost⟩

/-- A parameter is created and published, and a further candidate is submitted for it. -/
def secondCandidate : List Performance :=
  [(.createParameter { departmentId := "d", actorId := some "u" } "x" "o", [{}, { id := "p" }, {}]),
   (.createCandidate { departmentId := "d", actorId := some "u" } "p" "run" "1" none none none,
     [{ runStatus := some .succeeded }, {}, {}, { id := "c" }, {}, {}, {}]),
   (.approve { departmentId := "d", actorId := some "r" } "c" "r",
     [{}, { runStatus := some .succeeded }, {}, { id := "v" }, {}, {}, {}, { id := "e" }, {}, {}, {}]),
   (.createCandidate { departmentId := "d", actorId := some "u" } "p" "rerun" "2" none none none,
     [{ runStatus := some .succeeded }, {}, {}, { id := "c2" }, {}, {}, {}])]

/-- The further candidate takes the published status away from a parameter with a version in effect. -/
theorem candidate_unpublishes :
    ¬ ∀ (calls : List Performance),
      (∀ t ∈ play perform {} calls, t.post.EffectivePublished ∧ KeepsPublished t) ∧
        ∀ id, Since (fun t => t.pre.status? id = some .deprecated)
          (fun t => ∀ st ∈ t.post.status? id, ¬ st.PreApproval) (play perform {} calls) := by
  intro h
  have hlost : ∃ t ∈ play perform {} secondCandidate, ∃ v ∈ t.post.versions,
      v.status = .published ∧ t.post.status? v.parameterId ≠ some .published := by decide +kernel
  obtain ⟨t, ht, v, hv, hpublished, hstatus⟩ := hlost
  exact hstatus (((h secondCandidate).1 t ht).1 v hv hpublished)

end Irip.Parameters
