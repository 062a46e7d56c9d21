import Mathlib.Data.List.Pairwise
import Irip.Parameters.Service

/-!
# `Parameters.Approval` — concurrent reviews of the candidates of a parameter

Any number of calls of the service run at once, statement by statement, each in its transaction.
-/

namespace Irip.Parameters

open Runs (play play_run Run)

/-! ## The system -/

/-- The sessions and the tables. -/
abbrev System := Server Call Write Op Res Exn Reply Database

/-- What happens next. -/
abbrev Action := Server.Action Call Answer

/-- The step function. -/
def step : System → Action → Option System := Server.step engine Call.prog

/-- No parameter and no session. -/
def start : System := { committed := {}, sessions := [] }

/-! ## What nobody changes -/

/-- The columns of a candidate no statement updates: its keys and its submitter. -/
def ParameterCandidate.key (c : ParameterCandidate) : Uuid × Uuid × Uuid × Option Uuid :=
  (c.id, c.parameterId, c.derivationRunId, c.submittedBy)

/-- The columns of a version no statement updates: its keys, its derivation run and its reviewer. -/
def ParameterVersion.key (v : ParameterVersion) : Uuid × Uuid × Nat × Uuid × Uuid :=
  (v.id, v.parameterId, v.version, v.derivationRunId, v.publishedBy)

theorem ParameterCandidate.key_inj {c e : ParameterCandidate} (h : c.key = e.key) :
    c.id = e.id ∧ c.parameterId = e.parameterId ∧ c.derivationRunId = e.derivationRunId ∧
      c.submittedBy = e.submittedBy := by
  simpa only [key, Prod.mk.injEq] using h

theorem ParameterVersion.key_inj {v w : ParameterVersion} (h : v.key = w.key) :
    v.id = w.id ∧ v.parameterId = w.parameterId ∧ v.version = w.version ∧
      v.derivationRunId = w.derivationRunId ∧ v.publishedBy = w.publishedBy := by
  simpa only [key, Prod.mk.injEq] using h

theorem ParameterCandidate.clashes_congr {c e : ParameterCandidate} (h : c.key = e.key)
    (row : ParameterCandidate) : row.clashes c = row.clashes e := by
  obtain ⟨hid, hparam, hrun, _⟩ := key_inj h
  unfold clashes
  rw [hid, hparam, hrun]

theorem ParameterVersion.clashes_congr {v w : ParameterVersion} (h : v.key = w.key)
    (row : ParameterVersion) : row.clashes v = row.clashes w := by
  obtain ⟨hid, hparam, hversion, _⟩ := key_inj h
  unfold clashes
  rw [hid, hparam, hversion]

theorem map_key_map {ρ κ : Type} {key : ρ → κ} {f : ρ → ρ} (hf : ∀ r, key (f r) = key r) (l : List ρ) :
    (l.map f).map key = l.map key := by
  rw [List.map_map]
  exact List.map_congr_left (fun r _ => hf r)

/-- What a transaction that has written `ws` can rely on from one moment to the next: rows stay, with their keys,
and no one else takes a key it has claimed. -/
structure Grows (ws : List Write) (d d' : Database) : Prop where
  candidates : d.candidates.map ParameterCandidate.key <+: d'.candidates.map ParameterCandidate.key
  versions : d.versions.map ParameterVersion.key <+: d'.versions.map ParameterVersion.key
  freshVersion : ∀ v, Write.insertVersion v ∈ ws → d.versions.any v.clashes = false →
    d'.versions.any v.clashes = false
  freshCandidate : ∀ c, Write.insertCandidate c ∈ ws → d.candidates.any c.clashes = false →
    d'.candidates.any c.clashes = false

theorem Grows.refl (ws : List Write) (d : Database) : Grows ws d d :=
  ⟨List.prefix_refl _, List.prefix_refl _, fun _ _ h => h, fun _ _ h => h⟩

theorem Grows.trans (ws : List Write) {a b c : Database} (h : Grows ws a b) (h' : Grows ws b c) :
    Grows ws a c where
  candidates := h.candidates.trans h'.candidates
  versions := h.versions.trans h'.versions
  freshVersion v hv hfree := h'.freshVersion v hv (h.freshVersion v hv hfree)
  freshCandidate c hc hfree := h'.freshCandidate c hc (h.freshCandidate c hc hfree)

theorem Grows.of_keys {ws : List Write} {d d' : Database}
    (hc : d'.candidates.map ParameterCandidate.key = d.candidates.map ParameterCandidate.key)
    (hv : d'.versions.map ParameterVersion.key = d.versions.map ParameterVersion.key) : Grows ws d d' where
  candidates := hc ▸ List.prefix_refl _
  versions := hv ▸ List.prefix_refl _
  freshVersion v _ hfree := by
    rw [List.any_eq_false] at hfree ⊢
    intro w hw
    have hkey : w.key ∈ d.versions.map ParameterVersion.key := hv ▸ List.mem_map_of_mem hw
    obtain ⟨u, hu, huw⟩ := List.mem_map.mp hkey
    rw [← ParameterVersion.clashes_congr huw]
    exact hfree u hu
  freshCandidate c _ hfree := by
    rw [List.any_eq_false] at hfree ⊢
    intro e he
    have hkey : e.key ∈ d.candidates.map ParameterCandidate.key := hc ▸ List.mem_map_of_mem he
    obtain ⟨u, hu, hue⟩ := List.mem_map.mp hkey
    rw [← ParameterCandidate.clashes_congr hue]
    exact hfree u hu

/-- **What others commit.** A write that excludes none of `ws` is within what a transaction with `ws` relies
on. -/
theorem grows_apply (w : Write) (ws : List Write) (d : Database) (h : ∀ w' ∈ ws, w.conflict w' = false) :
    Grows ws d (w.apply d) := by
  cases w with
  | insertCandidate row =>
    refine ⟨?_, List.prefix_refl _, fun _ _ hfree => hfree, fun c hc hfree => ?_⟩
    · show _ <+: (d.candidates ++ [row]).map ParameterCandidate.key
      rw [List.map_append]
      exact List.prefix_append _ _
    · have hrow : c.clashes row = false := by
        rw [ParameterCandidate.clashes_comm]
        exact h _ hc
      show (d.candidates ++ [row]).any c.clashes = false
      simp [List.any_append, hfree, hrow]
  | insertVersion row =>
    refine ⟨List.prefix_refl _, ?_, fun v hv hfree => ?_, fun _ _ hfree => hfree⟩
    · show _ <+: (d.versions ++ [row]).map ParameterVersion.key
      rw [List.map_append]
      exact List.prefix_append _ _
    · have hrow : v.clashes row = false := by
        rw [ParameterVersion.clashes_comm]
        exact h _ hv
      show (d.versions ++ [row]).any v.clashes = false
      simp [List.any_append, hfree, hrow]
  | reviewCandidate id r =>
    refine Grows.of_keys (map_key_map (fun c => ?_) _) rfl
    split <;> rfl
  | deprecateVersions ids =>
    refine Grows.of_keys rfl (map_key_map (fun v => ?_) _)
    split <;> rfl
  | insertParameter row | insertEdge row | setParameter id status => exact Grows.of_keys rfl rfl

/-! ## What a commit brings -/

/-- A version number that continues those of a parameter. -/
def Database.Continues (d : Database) (parameterId : Uuid) (n : Nat) : Prop :=
  n = 1 ∨ ∃ v ∈ d.versions, v.parameterId = parameterId ∧ v.version + 1 = n

/-- The candidate is a row of the table, up to what reviews write. -/
def Database.HasCandidate (d : Database) (c : ParameterCandidate) : Prop :=
  c.key ∈ d.candidates.map ParameterCandidate.key

/-- What an approval commits: the next version of a candidate's parameter, by someone who did not submit it. -/
def Approval (d : Database) (reviewer : Uuid) (ws : List Write) : Prop :=
  ∃ (c : ParameterCandidate) (id : Uuid) (n : Nat) (now : Time) (edge : ProvenanceEdge) (r : Review),
    ws = [.insertVersion (c.toVersion id n now reviewer), .setParameter c.parameterId .published,
      .reviewCandidate c.id r, .insertEdge edge] ∧
    r.status = .approved ∧ d.HasCandidate c ∧ c.submittedBy ≠ some reviewer ∧
    d.versions.any (c.toVersion id n now reviewer).clashes = false ∧ d.Continues c.parameterId n

/-- The writes of a call that has come to its end. -/
def Ready : Call → Except Exn Reply → Database × List Write → Prop
  | _, .error _, _ => True
  | .createParameter _ _ _, .ok _, x => ∃ row, x.2 = [.insertParameter row]
  | .createCandidate _ _ _ _ _ _ _, .ok _, x =>
    ∃ c, x.2 = [.insertCandidate c, .setParameter c.parameterId .pendingReview] ∧ c.status = .pendingReview ∧
      x.1.candidates.any c.clashes = false
  | .submitForReview _, .ok _, x => x.2 = []
  | .approve _ _ reviewer, .ok _, x => Approval x.1 reviewer x.2
  | .reject _ _ _, .ok _, x =>
    ∃ c r, x.2 = [.reviewCandidate c.id r, .setParameter c.parameterId .rejected] ∧ r.status = .rejected ∧
      x.1.HasCandidate c
  | .deprecateParameter _, .ok _, x =>
    ∃ param ids, x.2 = [.setParameter param .deprecated, .deprecateVersions ids]

section Ready

variable {c : Call} {d : Database} {ws : List Write}

/-- The programs of the service, under what a transaction relies on. -/
abbrev Keeps (c : Call) (q : M Reply) (d : Database) (ws : List Write) : Prop :=
  Server.InOrder engine Grows Ready c q d ws

theorem Database.HasCandidate.grows {c : ParameterCandidate} {d' : Database} (h : d.HasCandidate c)
    (hgrow : Grows ws d d') : d'.HasCandidate c :=
  hgrow.candidates.subset h

theorem Database.Continues.grows {param : Uuid} {n : Nat} {d' : Database} (h : d.Continues param n)
    (hgrow : Grows ws d d') : d'.Continues param n := by
  rcases h with rfl | ⟨v, hv, hparam, hn⟩
  · exact .inl rfl
  · have hkey : v.key ∈ d'.versions.map ParameterVersion.key := hgrow.versions.subset (List.mem_map_of_mem hv)
    obtain ⟨w, hw, hwv⟩ := List.mem_map.mp hkey
    obtain ⟨_, hparam', hversion, _⟩ := ParameterVersion.key_inj hwv
    exact .inr ⟨w, hw, hparam'.trans hparam, by omega⟩

theorem Keeps.ask {o : Op} {k : Res o → M Reply}
    (h : ∀ d', Grows ws d d' → ∀ a r new, handle o a (engine.view ws d') = some (r, new) →
      Keeps c (k r) d' (ws ++ new)) : Keeps c (.op o k) d ws :=
  Server.InOrder.op h

theorem Keeps.raise {e : Exn} : Keeps c (.raise e) d ws := fun _ _ => trivial

theorem Keeps.lift {α : Type} {x : Except Exn α} {f : α → M Reply} (h : ∀ a, x = .ok a → Keeps c (f a) d ws) :
    Keeps c (Prog.lift x >>= f) d ws :=
  .lift_bind h (fun _ _ _ _ => trivial)

theorem insert_ok {allowed : Bool} {w : Write} {new : List Write} {u : Unit}
    (h : insert allowed w = (.ok u, new)) : allowed = true ∧ new = [w] := by
  rcases insert_cases h with ⟨hallowed, _, hnew⟩ | ⟨_, hok, _⟩
  · exact ⟨hallowed, hnew⟩
  · cases hok

theorem continues_maxVersion (d : Database) (param : Uuid) :
    d.Continues param ((d.maxVersion param).getD 0 + 1) := by
  unfold Database.maxVersion
  cases hmax : ((d.versions.filter (fun v => v.parameterId = param)).map ParameterVersion.version).max? with
  | none => exact .inl rfl
  | some n =>
    obtain ⟨v, hv, hn⟩ := List.mem_map.mp (List.max?_mem hmax)
    obtain ⟨hv, hparam⟩ := List.mem_filter.mp hv
    exact .inr ⟨v, hv, by simpa using hparam, by rw [hn]; rfl⟩

theorem hasCandidate_of_find? {P : ParameterCandidate → Bool} {e : ParameterCandidate}
    (h : d.candidates.find? P = some e) : d.HasCandidate e :=
  List.mem_map_of_mem (List.mem_of_find?_eq_some h)

theorem keeps_approve (service : Service) (id reviewer : Uuid) (d : Database) :
    Keeps (.approve service id reviewer) (approve service id reviewer) d [] := by
  refine Keeps.ask fun d₁ _ _ found _ h => ?_
  obtain ⟨hfound, rfl⟩ := answer_inj h
  cases found with
  | none => exact Keeps.raise
  | some e =>
    have hhas : d₁.HasCandidate e := hasCandidate_of_find? hfound
    refine Keeps.lift fun _ hcheck => ?_
    have hother := (checkPending_ok.mp hcheck).2
    refine Keeps.ask fun d₂ h₂ _ run _ h => ?_
    obtain ⟨_, rfl⟩ := answer_inj h
    refine Keeps.lift fun _ _ => ?_
    refine Keeps.ask fun d₃ h₃ _ maxVersion _ h => ?_
    obtain ⟨hmax, rfl⟩ := answer_inj h
    have hnext : d₃.Continues e.parameterId (maxVersion.getD 0 + 1) := hmax ▸ continues_maxVersion d₃ e.parameterId
    refine Keeps.ask fun d₄ h₄ _ versionId _ h => ?_
    obtain ⟨_, rfl⟩ := answer_inj h
    refine Keeps.ask fun d₅ h₅ _ now _ h => ?_
    obtain ⟨_, rfl⟩ := answer_inj h
    refine Keeps.ask fun d₆ h₆ _ inserted _ h => ?_
    refine Keeps.lift fun _ hok => ?_
    subst hok
    -- the version is written: from here on nobody else can take its number
    obtain ⟨hallowed, rfl⟩ := insert_ok (Option.some.inj h)
    have hfree : d₆.versions.any (e.toVersion versionId (maxVersion.getD 0 + 1) now reviewer).clashes = false := by
      have hnot := (Bool.and_eq_true_iff.mp hallowed).2
      rw [Bool.not_eq_true'] at hnot
      exact hnot
    have hhas := ((((hhas.grows h₂).grows h₃).grows h₄).grows h₅).grows h₆
    have hnext := ((hnext.grows h₄).grows h₅).grows h₆
    refine Keeps.ask fun d₇ h₇ _ _ _ h => ?_
    obtain ⟨_, rfl⟩ := answer_inj h
    refine Keeps.ask fun d₈ h₈ _ edgeId _ h => ?_
    obtain ⟨_, rfl⟩ := answer_inj h
    refine Keeps.ask fun d₉ h₉ _ _ _ h => ?_
    obtain ⟨_, rfl⟩ := answer_inj h
    refine Keeps.ask fun d₁₀ h₁₀ _ linked _ h => ?_
    refine Keeps.lift fun _ hok => ?_
    subst hok
    obtain ⟨_, rfl⟩ := insert_ok (Option.some.inj h)
    refine Keeps.ask fun d₁₁ h₁₁ _ param _ h => ?_
    obtain ⟨_, rfl⟩ := answer_inj h
    rintro ⟨d₁₂, ws⟩ ⟨rfl, h₁₂⟩
    refine ⟨e, versionId, _, now, _, _, rfl, rfl, ?_, hother, ?_, ?_⟩
    · exact (((((hhas.grows h₇).grows h₈).grows h₉).grows h₁₀).grows h₁₁).grows h₁₂
    · have hfree := h₈.freshVersion _ List.mem_cons_self (h₇.freshVersion _ List.mem_cons_self hfree)
      have hfree := h₁₀.freshVersion _ List.mem_cons_self (h₉.freshVersion _ List.mem_cons_self hfree)
      exact h₁₂.freshVersion _ List.mem_cons_self (h₁₁.freshVersion _ List.mem_cons_self hfree)
    · exact (((((hnext.grows h₇).grows h₈).grows h₉).grows h₁₀).grows h₁₁).grows h₁₂

theorem keeps_createParameter (service : Service) (code : String) (obj : Uuid) (d : Database) :
    Keeps (.createParameter service code obj) (createParameter service code obj) d [] := by
  unfold createParameter
  split
  · exact Keeps.raise
  · refine Keeps.ask fun d₁ _ _ existing _ h => ?_
    obtain ⟨_, rfl⟩ := answer_inj h
    cases existing with
    | some p => exact Keeps.raise
    | none =>
      refine Keeps.ask fun d₂ _ _ id _ h => ?_
      obtain ⟨_, rfl⟩ := answer_inj h
      refine Keeps.ask fun d₃ _ _ inserted _ h => ?_
      refine Keeps.lift fun _ hok => ?_
      subst hok
      obtain ⟨_, rfl⟩ := insert_ok (Option.some.inj h)
      rintro ⟨d₄, ws⟩ ⟨rfl, _⟩
      exact ⟨_, rfl⟩

theorem keeps_createCandidate (service : Service) (param run : Uuid) (value : String)
    (unit confidence : Option String) (conditions : Option Json) (d : Database) :
    Keeps (.createCandidate service param run value unit confidence conditions)
      (createCandidate service param run value unit confidence conditions) d [] := by
  refine Keeps.ask fun d₁ _ _ found _ h => ?_
  obtain ⟨_, rfl⟩ := answer_inj h
  refine Keeps.lift fun _ _ => ?_
  refine Keeps.ask fun d₂ _ _ row _ h => ?_
  obtain ⟨_, rfl⟩ := answer_inj h
  cases row with
  | none => exact Keeps.raise
  | some p =>
    refine Keeps.ask fun d₃ _ _ existing _ h => ?_
    obtain ⟨_, rfl⟩ := answer_inj h
    cases existing with
    | some e => exact Keeps.raise
    | none =>
      refine Keeps.ask fun d₄ _ _ id _ h => ?_
      obtain ⟨_, rfl⟩ := answer_inj h
      refine Keeps.ask fun d₅ _ _ now _ h => ?_
      obtain ⟨_, rfl⟩ := answer_inj h
      refine Keeps.ask fun d₆ _ _ inserted _ h => ?_
      refine Keeps.lift fun _ hok => ?_
      subst hok
      obtain ⟨hallowed, rfl⟩ := insert_ok (Option.some.inj h)
      have hnot := (Bool.and_eq_true_iff.mp hallowed).2
      rw [Bool.not_eq_true'] at hnot
      refine Keeps.ask fun d₇ h₇ _ _ _ h => ?_
      obtain ⟨_, rfl⟩ := answer_inj h
      rintro ⟨d₈, ws⟩ ⟨rfl, h₈⟩
      refine ⟨_, rfl, rfl, ?_⟩
      exact h₈.freshCandidate _ List.mem_cons_self (h₇.freshCandidate _ List.mem_cons_self hnot)

theorem keeps_submitForReview (id : Uuid) (d : Database) :
    Keeps (.submitForReview id) (submitForReview id) d [] := by
  refine Keeps.ask fun d₁ _ _ found _ h => ?_
  obtain ⟨_, rfl⟩ := answer_inj h
  cases found with
  | none => exact Keeps.raise
  | some e =>
    rintro ⟨d₂, ws⟩ ⟨rfl, _⟩
    rfl

theorem keeps_reject (id reviewer : Uuid) (comment : String) (d : Database) :
    Keeps (.reject id reviewer comment) (reject id reviewer comment) d [] := by
  refine Keeps.ask fun d₁ _ _ found _ h => ?_
  obtain ⟨hfound, rfl⟩ := answer_inj h
  cases found with
  | none => exact Keeps.raise
  | some e =>
    have hhas : d₁.HasCandidate e := hasCandidate_of_find? hfound
    refine Keeps.lift fun _ _ => ?_
    refine Keeps.ask fun d₂ h₂ _ now _ h => ?_
    obtain ⟨_, rfl⟩ := answer_inj h
    refine Keeps.ask fun d₃ h₃ _ _ _ h => ?_
    obtain ⟨_, rfl⟩ := answer_inj h
    refine Keeps.ask fun d₄ h₄ _ _ _ h => ?_
    obtain ⟨_, rfl⟩ := answer_inj h
    rintro ⟨d₅, ws⟩ ⟨rfl, h₅⟩
    exact ⟨e, _, rfl, rfl, (((hhas.grows h₂).grows h₃).grows h₄).grows h₅⟩

theorem keeps_deprecateParameter (param : Uuid) (d : Database) :
    Keeps (.deprecateParameter param) (deprecateParameter param) d [] := by
  refine Keeps.ask fun d₁ _ _ found _ h => ?_
  obtain ⟨_, rfl⟩ := answer_inj h
  cases found with
  | none => exact Keeps.raise
  | some p =>
    show Keeps _ (ite (p.status ≠ .published) _ _) d₁ []
    split
    · exact Keeps.raise
    · refine Keeps.ask fun d₂ _ _ _ _ h => ?_
      obtain ⟨_, rfl⟩ := answer_inj h
      refine Keeps.ask fun d₃ _ _ _ _ h => ?_
      obtain ⟨_, rfl⟩ := answer_inj h
      rintro ⟨d₄, ws⟩ ⟨rfl, _⟩
      exact ⟨_, _, rfl⟩

/-- **What a call commits.** Whatever the others commit meanwhile, the writes of a call that returns are those of
`Ready`. -/
theorem keeps_prog (c : Call) (d : Database) : Keeps c c.prog d [] := by
  cases c with
  | createParameter service code obj => exact keeps_createParameter service code obj d
  | createCandidate service param run value unit confidence conditions =>
    exact keeps_createCandidate service param run value unit confidence conditions d
  | submitForReview id => exact keeps_submitForReview id d
  | approve service id reviewer => exact keeps_approve service id reviewer d
  | reject id reviewer comment => exact keeps_reject id reviewer comment d
  | deprecateParameter param => exact keeps_deprecateParameter param d

end Ready

/-! ## The invariant -/

/-- The version was published from the candidate: a parameter has one candidate for each derivation run. -/
def ParameterVersion.Of (v : ParameterVersion) (c : ParameterCandidate) : Prop :=
  v.parameterId = c.parameterId ∧ v.derivationRunId = c.derivationRunId

instance (v : ParameterVersion) (c : ParameterCandidate) : Decidable (v.Of c) :=
  inferInstanceAs (Decidable (_ ∧ _))

/-- The versions a candidate has produced. -/
def Database.versionsOf (d : Database) (c : ParameterCandidate) : List ParameterVersion :=
  d.versions.filter (fun v => v.Of c)

/-- The version numbers of a parameter. -/
def Database.numbers (d : Database) (parameterId : Uuid) : List Nat :=
  (d.versions.filter (fun v => v.parameterId = parameterId)).map ParameterVersion.version

/-- Approvals are consistent: a candidate has produced at most one version, and one exactly when it is approved;
its submitter did not publish it; and a parameter's versions are numbered 1, 2, … -/
structure Consistent (d : Database) : Prop where
  once : ∀ c ∈ d.candidates, (d.versionsOf c).length ≤ 1
  approved : ∀ c ∈ d.candidates, d.versionsOf c ≠ [] ↔ c.status = .approved
  separated : ∀ c ∈ d.candidates, ∀ v ∈ d.versionsOf c, c.submittedBy ≠ some v.publishedBy
  numbered : ∀ parameterId, d.numbers parameterId = List.range' 1 (d.numbers parameterId).length

/-- Candidates have distinct keys, and every version is the only one of an approved candidate. -/
structure Inv (d : Database) : Prop where
  distinct : d.candidates.Pairwise (fun c e => c.clashes e = false)
  justified : ∀ v ∈ d.versions, ∃ c ∈ d.candidates, v.Of c ∧ c.status = .approved ∧
    c.submittedBy ≠ some v.publishedBy
  single : ∀ c ∈ d.candidates, c.status = .approved → (d.versionsOf c).length = 1
  numbered : ∀ parameterId, d.numbers parameterId = List.range' 1 (d.numbers parameterId).length

section Inv

variable {d d' : Database}

variable {c e : ParameterCandidate} {v : ParameterVersion} {r : Review}

theorem Inv.eq_of_clashes (hd : Inv d) (hc : c ∈ d.candidates)
    (he : e ∈ d.candidates) (h : c.clashes e = true) : c = e := by
  by_contra hne
  have hsymm : Std.Symm (fun c e : ParameterCandidate => c.clashes e = false) :=
    ⟨fun c e hce => (e.clashes_comm c).trans hce⟩
  have hfalse := hd.distinct.forall hc he hne
  rw [h] at hfalse
  cases hfalse

theorem Inv.eq_of_id (hd : Inv d) (hc : c ∈ d.candidates) (he : e ∈ d.candidates) (h : c.id = e.id) : c = e :=
  hd.eq_of_clashes hc he (by simp [ParameterCandidate.clashes, h])

theorem Inv.eq_of_of (hd : Inv d) (hc : c ∈ d.candidates)
    (he : e ∈ d.candidates) (hvc : v.Of c) (hve : v.Of e) : c = e := by
  refine hd.eq_of_clashes hc he ?_
  simp [ParameterCandidate.clashes, ← hvc.1, ← hvc.2, ← hve.1, ← hve.2]

theorem Inv.versionsOf_nil (hd : Inv d) (hc : c ∈ d.candidates) (h : c.status ≠ .approved) : d.versionsOf c = [] := by
  refine List.filter_eq_nil_iff.mpr fun v hv hof => ?_
  obtain ⟨e, he, hve, happroved, _⟩ := hd.justified v hv
  obtain rfl := hd.eq_of_of hc he (of_decide_eq_true hof) hve
  exact h happroved

theorem Inv.consistent (hd : Inv d) : Consistent d where
  once c hc := by
    by_cases h : c.status = .approved
    · exact Nat.le_of_eq (hd.single c hc h)
    · simp [hd.versionsOf_nil hc h]
  approved c hc := by
    constructor
    · intro hne
      by_contra h
      exact hne (hd.versionsOf_nil hc h)
    · intro h hnil
      have hone := hd.single c hc h
      rw [hnil] at hone
      cases hone
  separated c hc v hv := by
    obtain ⟨hv, hof⟩ := List.mem_filter.mp hv
    obtain ⟨e, he, hve, _, hother⟩ := hd.justified v hv
    obtain rfl := hd.eq_of_of hc he (of_decide_eq_true hof) hve
    exact hother
  numbered := hd.numbered

/-- The versions of every parameter are numbered 1, 2, … -/
def Database.Numbered (d : Database) : Prop :=
  ∀ parameterId, d.numbers parameterId = List.range' 1 (d.numbers parameterId).length

theorem next_number (hd : d.Numbered) {param : Uuid} {n : Nat} (hnext : d.Continues param n)
    (hnew : n ∉ d.numbers param) : n = (d.numbers param).length + 1 := by
  have hrange : ∀ k, k ∈ d.numbers param ↔ 1 ≤ k ∧ k < 1 + (d.numbers param).length := by
    intro k
    rw [hd param, List.length_range']
    exact List.mem_range'_1
  rw [hrange] at hnew
  rcases hnext with rfl | ⟨v, hv, hparam, hn⟩
  · omega
  · have hmem : v.version ∈ d.numbers param :=
      List.mem_map_of_mem (List.mem_filter.mpr ⟨hv, by simpa using hparam⟩)
    rw [hrange] at hmem
    omega

theorem numbered_append (hd : d.Numbered) (hfree : d.versions.any v.clashes = false)
    (hnext : d.Continues v.parameterId v.version) (hversions : d'.versions = d.versions ++ [v]) : d'.Numbered := by
  intro param
  unfold Database.numbers
  rw [hversions, List.filter_append, List.map_append]
  by_cases hparam : v.parameterId = param
  · subst hparam
    have hnew : v.version ∉ d.numbers v.parameterId := by
      intro h
      obtain ⟨w, hw, hversion⟩ := List.mem_map.mp h
      obtain ⟨hw, hparam⟩ := List.mem_filter.mp hw
      rw [List.any_eq_false] at hfree
      refine hfree w hw ?_
      simp [ParameterVersion.clashes, hversion, of_decide_eq_true hparam]
    have hn := next_number hd hnext hnew
    have hold := hd v.parameterId
    unfold Database.numbers at hold hn
    rw [List.filter_cons_of_pos (by simp), List.filter_nil, List.map_singleton, List.length_append, hn]
    show _ ++ [_] = List.range' 1 (_ + 1)
    rw [List.range'_1_concat, ← hold, Nat.add_comm]
  · rw [List.filter_cons_of_neg (by simpa using hparam), List.filter_nil, List.map_nil, List.append_nil]
    exact hd param

theorem numbered_of_keys (hd : d.Numbered)
    (hkeys : d'.versions.map ParameterVersion.key = d.versions.map ParameterVersion.key) : d'.Numbered := by
  have hread : ∀ (d : Database) (param : Uuid), d.numbers param =
      ((d.versions.map ParameterVersion.key).filter (fun k => k.2.1 = param)).map (fun k => k.2.2.1) := by
    intro d param
    unfold Database.numbers
    rw [List.filter_map, List.map_map]
    rfl
  intro param
  rw [hread d' param, hkeys, ← hread]
  exact hd param

theorem inv_empty : Inv {} where
  distinct := .nil
  justified _ hv := absurd hv List.not_mem_nil
  single _ hc := absurd hc List.not_mem_nil
  numbered _ := rfl

theorem pairwise_of_key {f : ParameterCandidate → ParameterCandidate} (hf : ∀ c, (f c).key = c.key)
    {l : List ParameterCandidate} (h : l.Pairwise (fun c e => c.clashes e = false)) :
    (l.map f).Pairwise (fun c e => c.clashes e = false) := by
  refine List.pairwise_map.mpr (h.imp fun {c e} hce => ?_)
  rw [ParameterCandidate.clashes_congr (hf e), ParameterCandidate.clashes_comm,
    ParameterCandidate.clashes_congr (hf c), ParameterCandidate.clashes_comm]
  exact hce

/-- The candidates after a review of one of them. -/
abbrev reviewRows (id : Uuid) (r : Review) (l : List ParameterCandidate) : List ParameterCandidate :=
  l.map (fun c => if c.id = id then c.reviewed r else c)

theorem Inv.mem_reviewRows (hd : Inv d) (hc : c ∈ d.candidates) :
    e ∈ reviewRows c.id r d.candidates ↔ e = c.reviewed r ∨ (e ∈ d.candidates ∧ e ≠ c) := by
  rw [List.mem_map]
  constructor
  · rintro ⟨e', he', rfl⟩
    by_cases hid : e'.id = c.id
    · obtain rfl := hd.eq_of_id he' hc hid
      exact .inl (if_pos rfl)
    · rw [if_neg hid]
      exact .inr ⟨he', fun h => hid (congrArg _ h)⟩
  · rintro (rfl | ⟨he, hne⟩)
    · exact ⟨c, hc, if_pos rfl⟩
    · exact ⟨e, he, if_neg (fun hid => hne (hd.eq_of_id he hc hid))⟩

theorem pairwise_reviewRows (hd : d.candidates.Pairwise (fun c e => c.clashes e = false)) (id : Uuid) (r : Review) :
    (reviewRows id r d.candidates).Pairwise (fun c e => c.clashes e = false) := by
  refine pairwise_of_key (fun c => ?_) hd
  split <;> rfl

/-- **An approval of a candidate that is not approved yet** keeps the invariant. -/
theorem inv_approve (hd : Inv d) (hc : c ∈ d.candidates) (hnot : c.status ≠ .approved)
    (hof : v.Of c) (hother : c.submittedBy ≠ some v.publishedBy)
    (hfree : d.versions.any v.clashes = false) (hnext : d.Continues v.parameterId v.version)
    (hr : r.status = .approved) (hcandidates : d'.candidates = reviewRows c.id r d.candidates)
    (hversions : d'.versions = d.versions ++ [v]) : Inv d' := by
  have hmem := fun e => hd.mem_reviewRows hc (r := r) (e := e)
  refine ⟨hcandidates ▸ pairwise_reviewRows hd.distinct c.id r, ?_, ?_, numbered_append hd.numbered hfree hnext hversions⟩
  · intro w hw
    rw [hversions] at hw
    rw [hcandidates]
    rcases List.mem_append.mp hw with hw | hw
    · -- an old version: its candidate is not the one that was approved just now
      obtain ⟨e, he, hwe, happroved, hsep⟩ := hd.justified w hw
      have hne : e ≠ c := fun h => hnot (h ▸ happroved)
      exact ⟨e, (hmem e).mpr (.inr ⟨he, hne⟩), hwe, happroved, hsep⟩
    · obtain rfl := List.mem_singleton.mp hw
      exact ⟨c.reviewed r, (hmem _).mpr (.inl rfl), hof, hr, hother⟩
  · intro e he happroved
    rw [hcandidates] at he
    unfold Database.versionsOf
    rw [hversions, List.filter_append]
    rcases (hmem e).mp he with rfl | ⟨he, hne⟩
    · show (d.versionsOf c ++ [v].filter (fun w => w.Of c)).length = 1
      rw [hd.versionsOf_nil hc hnot, List.filter_cons_of_pos (by simpa using hof)]
      rfl
    · have hnew : ¬ v.Of e := by
        intro h
        refine hne (hd.eq_of_clashes he hc ?_)
        simp [ParameterCandidate.clashes, ← h.1, ← h.2, ← hof.1, ← hof.2]
      rw [List.filter_cons_of_neg (by simpa using hnew), List.filter_nil, List.append_nil]
      exact hd.single e he happroved

/-- **A rejection of a candidate that is not approved** keeps the invariant. -/
theorem inv_reject (hd : Inv d) (hc : c ∈ d.candidates) (hnot : c.status ≠ .approved)
    (hr : r.status = .rejected) (hcandidates : d'.candidates = reviewRows c.id r d.candidates)
    (hversions : d'.versions = d.versions) : Inv d' := by
  have hmem := fun e => hd.mem_reviewRows hc (r := r) (e := e)
  refine ⟨hcandidates ▸ pairwise_reviewRows hd.distinct c.id r, ?_, ?_, ?_⟩
  · intro w hw
    rw [hversions] at hw
    obtain ⟨e, he, hwe, happroved, hsep⟩ := hd.justified w hw
    have hne : e ≠ c := fun h => hnot (h ▸ happroved)
    exact ⟨e, hcandidates ▸ (hmem e).mpr (.inr ⟨he, hne⟩), hwe, happroved, hsep⟩
  · intro e he happroved
    rw [hcandidates] at he
    unfold Database.versionsOf
    rw [hversions]
    rcases (hmem e).mp he with rfl | ⟨he, _⟩
    · have hstatus : (c.reviewed r).status = .rejected := hr
      rw [hstatus] at happroved
      cases happroved
    · exact hd.single e he happroved
  · intro param
    unfold Database.numbers
    rw [hversions]
    exact hd.numbered param

theorem pairwise_insert (hd : d.candidates.Pairwise (fun c e => c.clashes e = false))
    (hfree : d.candidates.any c.clashes = false) :
    (d.candidates ++ [c]).Pairwise (fun c e => c.clashes e = false) := by
  refine List.pairwise_append.mpr ⟨hd, List.pairwise_singleton _ _, ?_⟩
  intro e he c' hc'
  obtain rfl := List.mem_singleton.mp hc'
  rw [ParameterCandidate.clashes_comm]
  exact eq_false_of_ne_true (List.any_eq_false.mp hfree e he)

theorem inv_createCandidate (hd : Inv d) (hpending : c.status = .pendingReview)
    (hfree : d.candidates.any c.clashes = false) (hcandidates : d'.candidates = d.candidates ++ [c])
    (hversions : d'.versions = d.versions) : Inv d' := by
  refine ⟨hcandidates ▸ pairwise_insert hd.distinct hfree, ?_, ?_, ?_⟩
  · intro v hv
    rw [hversions] at hv
    obtain ⟨e, he, hve, happroved, hsep⟩ := hd.justified v hv
    exact ⟨e, hcandidates ▸ List.mem_append_left _ he, hve, happroved, hsep⟩
  · intro e he happroved
    rw [hcandidates] at he
    unfold Database.versionsOf
    rw [hversions]
    rcases List.mem_append.mp he with he | he
    · exact hd.single e he happroved
    · obtain rfl := List.mem_singleton.mp he
      rw [hpending] at happroved
      cases happroved
  · intro param
    unfold Database.numbers
    rw [hversions]
    exact hd.numbered param

theorem inv_deprecate (hd : Inv d) {f : ParameterVersion → ParameterVersion} (hf : ∀ v, (f v).key = v.key)
    (hcandidates : d'.candidates = d.candidates) (hversions : d'.versions = d.versions.map f) : Inv d' := by
  have hof : ∀ v c, (f v).Of c ↔ v.Of c := by
    intro v c
    obtain ⟨_, hparam, _, hrun, _⟩ := ParameterVersion.key_inj (hf v)
    unfold ParameterVersion.Of
    rw [hparam, hrun]
  refine ⟨hcandidates ▸ hd.distinct, ?_, ?_, ?_⟩
  · intro w hw
    rw [hversions] at hw
    obtain ⟨v, hv, rfl⟩ := List.mem_map.mp hw
    obtain ⟨e, he, hve, happroved, hsep⟩ := hd.justified v hv
    obtain ⟨_, _, _, _, hby⟩ := ParameterVersion.key_inj (hf v)
    exact ⟨e, hcandidates ▸ he, (hof v e).mpr hve, happroved, by rw [hby]; exact hsep⟩
  · intro e he happroved
    rw [hcandidates] at he
    have hsame : (fun v => decide (v.Of e)) ∘ f = fun v => decide (v.Of e) := by
      funext v
      exact decide_eq_decide.mpr (hof v e)
    unfold Database.versionsOf
    rw [hversions, List.filter_map, hsame, List.length_map]
    exact hd.single e he happroved
  · exact numbered_of_keys hd.numbered (by rw [hversions]; exact map_key_map hf _)

/-- **An approval of a candidate that is approved already** gives it a second version. -/
theorem not_consistent_approve (hd : Inv d) (hc : c ∈ d.candidates) (happroved : c.status = .approved) (hof : v.Of c)
    (hcandidates : d'.candidates = reviewRows c.id r d.candidates) (hversions : d'.versions = d.versions ++ [v]) :
    ¬ Consistent d' := by
  intro h
  have hmem : c.reviewed r ∈ d'.candidates := hcandidates ▸ (hd.mem_reviewRows hc).mpr (.inl rfl)
  have honce := h.once _ hmem
  have htwo : (d'.versionsOf (c.reviewed r)).length = (d.versionsOf c).length + 1 := by
    unfold Database.versionsOf
    rw [hversions, List.filter_append, List.length_append]
    show _ + ([v].filter (fun w => w.Of c)).length = _
    rw [List.filter_cons_of_pos (by simpa using hof)]
    rfl
  rw [hd.single c hc happroved] at htwo
  omega

/-- **A rejection of a candidate that is approved already** leaves its version. -/
theorem not_consistent_reject (hd : Inv d) (hc : c ∈ d.candidates)
    (happroved : c.status = .approved) (hr : r.status = .rejected)
    (hcandidates : d'.candidates = reviewRows c.id r d.candidates) (hversions : d'.versions = d.versions) :
    ¬ Consistent d' := by
  intro h
  have hmem : c.reviewed r ∈ d'.candidates := hcandidates ▸ (hd.mem_reviewRows hc).mpr (.inl rfl)
  have hone : (d'.versionsOf (c.reviewed r)).length = 1 := by
    unfold Database.versionsOf
    rw [hversions]
    exact hd.single c hc happroved
  have hne : d'.versionsOf (c.reviewed r) ≠ [] := by
    intro hnil
    rw [hnil] at hone
    cases hone
  have hstatus : r.status = .approved := (h.approved _ hmem).mp hne
  rw [hr] at hstatus
  cases hstatus

end Inv

/-! ## Runs -/

/-- The sessions are in order and the committed tables meet the invariant. -/
structure SysInv (p : System) : Prop where
  sound : Server.Sound engine Grows Ready p
  inv : Inv p.committed

/-- No review is committed for a candidate that is approved at that moment. -/
def Timely (p : System) (act : Action) : Prop :=
  ∀ i s, act = .commit i → p.sessions[i]? = some s → ∀ id r, Write.reviewCandidate id r ∈ s.writes →
    ∀ c ∈ p.committed.candidates, c.id = id → c.status ≠ .approved

section Step

variable {p p' : System} {act : Action}

theorem sound_step (hp : Server.Sound engine Grows Ready p) (h : step p act = some p') :
    Server.Sound engine Grows Ready p' :=
  hp.step Write.conflict_comm Grows.refl Grows.trans grows_apply keeps_prog h

theorem timely_of_no_review {i : Nat} {c : Call} {ws : List Write} {q : Option (M Reply)}
    (hi : p.sessions[i]? = some ⟨c, ws, q⟩) (hno : ∀ id r, Write.reviewCandidate id r ∉ ws) :
    Timely p (.commit i) := by
  rintro j s hact hj id r hw
  obtain rfl := Server.Action.commit.inj hact
  rw [hi] at hj
  obtain rfl := Option.some.inj hj
  exact absurd hw (hno id r)

/-- A session that reviews one candidate commits in time if the candidate is not approved. -/
theorem timely_iff {i : Nat} {call : Call} {ws : List Write} {q : Option (M Reply)}
    (hi : p.sessions[i]? = some ⟨call, ws, q⟩) (hinv : Inv p.committed) {c : ParameterCandidate}
    (hc : c ∈ p.committed.candidates) {r : Review} (hw : Write.reviewCandidate c.id r ∈ ws)
    (honly : ∀ id r', Write.reviewCandidate id r' ∈ ws → id = c.id) :
    Timely p (.commit i) ↔ c.status ≠ .approved := by
  constructor
  · intro h
    exact h i _ rfl hi c.id r hw c hc rfl
  · rintro hnot j s hact hj id r' hw' e he hid
    obtain rfl := Server.Action.commit.inj hact
    rw [hi] at hj
    obtain rfl := Option.some.inj hj
    obtain rfl := honly id r' hw'
    obtain rfl := hinv.eq_of_id he hc hid
    exact hnot

theorem Database.HasCandidate.row {d : Database} {e : ParameterCandidate} (h : d.HasCandidate e) :
    ∃ c ∈ d.candidates, c.id = e.id ∧ c.parameterId = e.parameterId ∧ c.derivationRunId = e.derivationRunId ∧
      c.submittedBy = e.submittedBy := by
  obtain ⟨c, hc, hkey⟩ := List.mem_map.mp h
  exact ⟨c, hc, ParameterCandidate.key_inj hkey⟩

/-- **One step.** Approvals are consistent after a step exactly when it is timely, and a timely step keeps the
invariant. -/
theorem sysInv_step (hp : SysInv p) (h : step p act = some p') :
    (Consistent p'.committed ↔ Timely p act) ∧ (Timely p act → SysInv p') := by
  have hsound := sound_step hp.sound h
  -- a step after which the invariant holds, and that is timely
  have hkeep : Inv p'.committed → Timely p act →
      (Consistent p'.committed ↔ Timely p act) ∧ (Timely p act → SysInv p') :=
    fun hinv htimely => ⟨⟨fun _ => htimely, fun _ => hinv.consistent⟩, fun _ => ⟨hsound, hinv⟩⟩
  by_cases hact : ∃ i, act = .commit i
  · obtain ⟨i, rfl⟩ := hact
    obtain ⟨c, ws, v, hi, hready, hcommitted⟩ := hp.sound.commit Grows.refl h
    cases c with
    | createParameter service code obj =>
      obtain ⟨row, rfl⟩ := hready
      refine hkeep ?_ (timely_of_no_review hi (by simp))
      rw [hcommitted]
      exact ⟨hp.inv.distinct, hp.inv.justified, hp.inv.single, hp.inv.numbered⟩
    | createCandidate service param run value unit confidence conditions =>
      obtain ⟨c, rfl, hpending, hfree⟩ := hready
      refine hkeep ?_ (timely_of_no_review hi (by simp))
      rw [hcommitted]
      exact inv_createCandidate hp.inv hpending hfree rfl rfl
    | submitForReview id =>
      obtain rfl := hready
      refine hkeep ?_ (timely_of_no_review hi (by simp))
      rw [hcommitted]
      exact hp.inv
    | deprecateParameter param =>
      obtain ⟨param, ids, rfl⟩ := hready
      refine hkeep ?_ (timely_of_no_review hi (by simp))
      rw [hcommitted]
      refine inv_deprecate (f := fun v => if v.id ∈ ids then { v with status := .deprecated } else v) hp.inv
        (fun v => ?_) rfl rfl
      split <;> rfl
    | approve service id reviewer =>
      obtain ⟨e, versionId, n, now, edge, r, rfl, hr, hhas, hother, hfree, hnext⟩ := hready
      obtain ⟨c, hc, hid, hparam, hrun, hby⟩ := hhas.row
      have hof : (e.toVersion versionId n now reviewer).Of c := ⟨hparam.symm, hrun.symm⟩
      have hcandidates : p'.committed.candidates = reviewRows c.id r p.committed.candidates := by
        rw [hcommitted, hid]
        rfl
      have hversions : p'.committed.versions
          = p.committed.versions ++ [e.toVersion versionId n now reviewer] := by
        rw [hcommitted]
        rfl
      have htimely := timely_iff hi hp.inv hc (r := r) (by simp [hid]) (by simp [hid])
      by_cases hstatus : c.status = .approved
      · have hnot : ¬ Timely p (.commit i) := fun h => htimely.mp h hstatus
        have hbad := not_consistent_approve hp.inv hc hstatus hof hcandidates hversions
        exact ⟨⟨fun h => absurd h hbad, fun h => absurd h hnot⟩, fun h => absurd h hnot⟩
      · exact hkeep (inv_approve hp.inv hc hstatus hof (by rw [hby]; exact hother) hfree hnext hr hcandidates
          hversions) (htimely.mpr hstatus)
    | reject id reviewer comment =>
      obtain ⟨e, r, rfl, hr, hhas⟩ := hready
      obtain ⟨c, hc, hid, _⟩ := hhas.row
      have hcandidates : p'.committed.candidates = reviewRows c.id r p.committed.candidates := by
        rw [hcommitted, hid]
        rfl
      have hversions : p'.committed.versions = p.committed.versions := by
        rw [hcommitted]
        rfl
      have htimely := timely_iff hi hp.inv hc (r := r) (by simp [hid]) (by simp [hid])
      by_cases hstatus : c.status = .approved
      · have hnot : ¬ Timely p (.commit i) := fun h => htimely.mp h hstatus
        have hbad := not_consistent_reject hp.inv hc hstatus hr hcandidates hversions
        exact ⟨⟨fun h => absurd h hbad, fun h => absurd h hnot⟩, fun h => absurd h hnot⟩
      · exact hkeep (inv_reject hp.inv hc hstatus hr hcandidates hversions) (htimely.mpr hstatus)
  · -- only a commit changes the committed tables
    have hsame : p'.committed = p.committed := Server.committed_step h (fun i hi => hact ⟨i, hi⟩)
    exact hkeep (hsame ▸ hp.inv) (fun i _ hi => absurd ⟨i, hi⟩ hact)

/-- What no race can break: candidates have distinct keys, every version comes from a candidate that somebody else has
submitted, and the versions of a parameter are numbered 1, 2, … -/
structure Separated (d : Database) : Prop where
  distinct : d.candidates.Pairwise (fun c e => c.clashes e = false)
  justified : ∀ v ∈ d.versions, ∃ c ∈ d.candidates, v.Of c ∧ c.submittedBy ≠ some v.publishedBy
  numbered : d.Numbered

theorem Separated.of_keys {d d' : Database} (hd : Separated d)
    (hdistinct : d'.candidates.Pairwise (fun c e => c.clashes e = false))
    (hcandidates : ∀ c ∈ d.candidates, ∃ c' ∈ d'.candidates, c'.key = c.key)
    (hversions : d'.versions.map ParameterVersion.key = d.versions.map ParameterVersion.key) : Separated d' where
  distinct := hdistinct
  justified v' hv' := by
    obtain ⟨v, hv, hkey⟩ := List.mem_map.mp (hversions ▸ List.mem_map_of_mem hv')
    obtain ⟨c, hc, ⟨hparam, hrun⟩, hother⟩ := hd.justified v hv
    obtain ⟨c', hc', hckey⟩ := hcandidates c hc
    obtain ⟨-, hcparam, hcrun, hcby⟩ := ParameterCandidate.key_inj hckey
    obtain ⟨-, hvparam, -, hvrun, hvby⟩ := ParameterVersion.key_inj hkey
    refine ⟨c', hc', ⟨?_, ?_⟩, ?_⟩
    · rw [hcparam, ← hvparam, hparam]
    · rw [hcrun, ← hvrun, hrun]
    · rw [hcby, ← hvby]
      exact hother
  numbered := numbered_of_keys hd.numbered hversions

/-- **Every step keeps the separation**, in time or not. -/
theorem separated_step (hsound : Server.Sound engine Grows Ready p) (hp : Separated p.committed)
    (h : step p act = some p') : Separated p'.committed := by
  -- a review changes no key
  have hreview : ∀ (id : Uuid) (r : Review), ∀ c ∈ p.committed.candidates,
      ∃ c' ∈ reviewRows id r p.committed.candidates, c'.key = c.key := by
    intro id r c hc
    refine ⟨_, List.mem_map_of_mem hc, ?_⟩
    split <;> rfl
  by_cases hact : ∃ i, act = .commit i
  · obtain ⟨i, rfl⟩ := hact
    obtain ⟨c, ws, v, hi, hready, hcommitted⟩ := hsound.commit Grows.refl h
    rw [hcommitted]
    cases c with
    | createParameter service code obj =>
      obtain ⟨row, rfl⟩ := hready
      exact hp.of_keys hp.distinct (fun c hc => ⟨c, hc, rfl⟩) rfl
    | createCandidate service param run value unit confidence conditions =>
      obtain ⟨c, rfl, -, hfree⟩ := hready
      exact hp.of_keys (pairwise_insert hp.distinct hfree) (fun c hc => ⟨c, List.mem_append_left _ hc, rfl⟩) rfl
    | submitForReview id =>
      obtain rfl := hready
      exact hp
    | deprecateParameter param =>
      obtain ⟨param, ids, rfl⟩ := hready
      refine hp.of_keys hp.distinct (fun c hc => ⟨c, hc, rfl⟩) (map_key_map (fun v => ?_) _)
      split <;> rfl
    | approve service id reviewer =>
      obtain ⟨e, versionId, n, now, edge, r, rfl, -, hhas, hother, hfree, hnext⟩ := hready
      obtain ⟨c, hc, hid, hparam, hrun, hby⟩ := hhas.row
      have hrows : Separated { p.committed with candidates := reviewRows e.id r p.committed.candidates } :=
        hp.of_keys (pairwise_reviewRows hp.distinct e.id r) (hreview e.id r) rfl
      refine ⟨hrows.distinct, fun v hv => ?_, numbered_append hp.numbered hfree hnext rfl⟩
      rcases List.mem_append.mp hv with hv | hv
      · exact hrows.justified v hv
      · obtain rfl := List.mem_singleton.mp hv
        obtain ⟨c', hc', hkey⟩ := hreview e.id r c hc
        obtain ⟨-, hcparam, hcrun, hcby⟩ := ParameterCandidate.key_inj hkey
        refine ⟨c', hc', ⟨(hcparam.trans hparam).symm, (hcrun.trans hrun).symm⟩, ?_⟩
        rw [hcby, hby]
        exact hother
    | reject id reviewer comment =>
      obtain ⟨e, r, rfl, -, -⟩ := hready
      exact hp.of_keys (pairwise_reviewRows hp.distinct e.id r) (hreview e.id r) rfl
  · have hsame : p'.committed = p.committed := Server.committed_step h (fun i hi => hact ⟨i, hi⟩)
    exact hsame ▸ hp

end Step

theorem sysInv_start : SysInv start where
  sound := by
    constructor
    · intro i s h
      cases h
    · intro i j s t _ h
      cases h
  inv := inv_empty

/-- **Approvals are consistent in every state of a run exactly when every review is committed in time.** Calls of
the service run concurrently, statement by statement. After every step, each candidate has produced at most
one version, and one exactly when it is approved, no version was published by the submitter of its candidate,
and the versions of a parameter are numbered 1 to n: this holds all along if and only if no transaction
commits its review of a candidate that another transaction has approved meanwhile. -/
theorem approval_consistent_iff (acts : List Action) :
    (∀ t ∈ play step start acts, Consistent t.post.committed) ↔
      ∀ t ∈ play step start acts, Timely t.pre t.act :=
  (play_run start acts).forall_congr (I := SysInv) (fun h hp => sysInv_step hp h) sysInv_start

/-- **Nobody publishes what he has submitted.** In every state that any interleaving reaches, two reviewers racing or
not, each version comes from the one candidate of its run, which somebody else than its publisher has submitted,
and the versions of a parameter are numbered without gaps. -/
theorem four_eyes (acts : List Action) : Separated (Runs.final start (play step start acts)).committed := by
  have hrun : Run step start _ _ := play_run start acts
  have hstart : Separated start.committed := ⟨inv_empty.distinct, fun v hv => absurd hv List.not_mem_nil, inv_empty.numbered⟩
  refine (hrun.last (I := fun p => Server.Sound engine Grows Ready p ∧ Separated p.committed)
    ⟨sysInv_start.sound, hstart⟩ fun t ht hp => ?_).2
  have h := hrun.step_of_mem ht
  exact ⟨sound_step hp.1 h, separated_step hp.1 hp.2 h⟩

/-- The statements of session `i`, one after the other. -/
def statements (i : Nat) (as : List Answer) : List Action := as.map (.step i)

/-- A parameter with one candidate, submitted by `u`. -/
def oneCandidate : List Action :=
  .call (.createParameter { departmentId := "d", actorId := some "u" } "x" "o") ::
  (statements 0 [{}, { id := "p" }, {}] ++ .commit 0 ::
  .call (.createCandidate { departmentId := "d", actorId := some "u" } "p" "run" "1" none none none) ::
  (statements 1 [{ runStatus := some .succeeded }, {}, {}, { id := "c" }, {}, {}, {}] ++ [.commit 1]))

/-- The rest of an approval, once the candidate has been read. -/
def approveStatements (i : Nat) (versionId edgeId : Uuid) : List Action :=
  statements i [{ runStatus := some .succeeded }, {}, { id := versionId }, {}, {}, {}, { id := edgeId }, {}, {}, {}]
    ++ [.commit i]

/-- Two reviewers read the same pending candidate before the first of them commits. -/
def twoReviewers : List Action :=
  oneCandidate ++
  [.call (.approve { departmentId := "d", actorId := some "r" } "c" "r"), .step 2 {},
   .call (.approve { departmentId := "d", actorId := some "q" } "c" "q"), .step 3 {}] ++
  approveStatements 2 "v" "e" ++ approveStatements 3 "w" "f"

/-- The second reviewer's approval makes a second version of the candidate. -/
theorem approved_twice : ¬ ∀ (acts : List Action), ∀ t ∈ play step start acts, Consistent t.post.committed := by
  intro h
  have htwo : ∃ t ∈ play step start twoReviewers, ∃ c ∈ t.post.committed.candidates,
      (t.post.committed.versionsOf c).length = 2 := by decide +kernel
  obtain ⟨t, ht, c, hc, hlen⟩ := htwo
  have honce := (h twoReviewers t ht).once c hc
  omega

end Irip.Parameters
