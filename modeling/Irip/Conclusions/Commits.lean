import Mathlib.Data.List.Induction
import Mathlib.Data.List.Nodup
import Irip.Conclusions.Sessions

/-!
# `Conclusions.Commits` — what the calls of the conclusion service commit

A call writes the first version of a conclusion, saves candidates, or has `Revised` a conclusion.
-/

namespace Irip.Conclusions

/-! ## Shapes -/

/-- A new conclusion, written down with its revision 1. -/
def firstWrites (conclusion : ResearchConclusion) (revision : ResearchConclusionRevision) : List Write :=
  [.insertConclusion conclusion, .insertRevision revision,
    .updateConclusion conclusion.id (.current revision.id)]

/-- The conclusion is new, and the revision is its first. -/
structure First (d : Database) (conclusion : ResearchConclusion) (revision : ResearchConclusionRevision) :
    Prop where
  fresh : d.conclusion? conclusion.id = none
  of : revision.conclusionId = conclusion.id
  number : revision.revisionNumber = 1

/-- A candidate that is being saved. -/
structure Saving where
  candidateId : Uuid
  conclusion : ResearchConclusion
  revision : ResearchConclusionRevision

/-- The writes that save a candidate. -/
def Saving.writes (s : Saving) : List Write :=
  firstWrites s.conclusion s.revision ++ [.updateCandidate s.candidateId .saved (some s.conclusion.id)]

/-- The writes of a call that saves candidates: each of them once, in the workspace the call names. -/
structure Saves (workspaceId : Uuid) (savings : List Saving) (d : Database) (ws : List Write) : Prop where
  writes : ws = savings.flatMap Saving.writes
  candidates : (savings.map Saving.candidateId).Nodup
  new : (savings.map (fun s => s.conclusion.id)).Nodup
  first : ∀ s ∈ savings, First d s.conclusion s.revision
  workspace : ∀ s ∈ savings, s.conclusion.workspaceId = workspaceId
  source : ∀ s ∈ savings, s.conclusion.sourceCandidateId = some s.candidateId
  row : ∀ s ∈ savings, ∃ c, d.candidate? s.candidateId = some c

/-- The rows a transaction has inserted as candidates: pending, and new to the table. -/
def Inserts (rows : List ResearchConclusionCandidate) (d : Database) (ws : List Write) : Prop :=
  ws = rows.map .insertCandidate ∧ ∀ row ∈ rows, row.status = .pending ∧ d.candidate? row.id = none

/-- The writes of a revision made against the lock version `expected`. -/
def Revised (conclusionId : Uuid) (expected : Int) (d : Database) (ws : List Write) : Prop :=
  ∃ (conclusion : ResearchConclusion) (revision : ResearchConclusionRevision),
    ws = [.updateConclusion conclusionId (.lock (expected + 1)), .insertRevision revision,
      .updateConclusion conclusionId (.current revision.id)] ∧
    d.conclusion? conclusionId = some conclusion ∧ conclusion.lockVersion = expected ∧
    revision.conclusionId = conclusionId ∧
    revision.revisionNumber
      = ((latest (d.revisionsOf conclusionId)).map ResearchConclusionRevision.revisionNumber).getD 0 + 1

/-- The writes of a call that has come to its end. -/
def Ready : Call → Except Exn Reply → Database × List Write → Prop
  | _, .error _, _ => True
  | .createTurn _, .ok _, x => ∃ row, x.2 = [.insertTurn row] ∧ x.1.turn? row.id = none
  | .insertCandidates _ _ _, .ok _, x => ∃ rows, Inserts rows x.1 x.2
  | .saveCandidates _ command, .ok _, x => ∃ savings, Saves command.workspaceId savings x.1 x.2
  | .rejectCandidate _ _ candidateId, .ok _, x =>
    x.2 = [.updateCandidate candidateId .rejected none] ∧ ∃ c, x.1.candidate? candidateId = some c
  | .createManual _ _, .ok _, x =>
    ∃ conclusion revision, x.2 = firstWrites conclusion revision ∧ First x.1 conclusion revision ∧
      conclusion.sourceCandidateId = none
  | .saveFromBlock _ _ _ _, .ok _, x =>
    ∃ conclusion revision, x.2 = firstWrites conclusion revision ∧ First x.1 conclusion revision ∧
      conclusion.sourceCandidateId = none
  | .revise _ command, .ok _, x => Revised command.conclusionId command.expectedLockVersion x.1 x.2
  | .archive _ _ conclusionId expected, .ok _, x =>
    x.2 = [.updateConclusion conclusionId (.archive (expected + 1))] ∧
      ∃ c, x.1.conclusion? conclusionId = some c ∧ c.lockVersion = expected
  | .deleteConclusion _ conclusionId, .ok _, x =>
    ∃ c, x.1.conclusion? conclusionId = some c ∧
      ((x.2 = [] ∧ c.status = .archived) ∨ x.2 = [.updateConclusion conclusionId .archived])

/-! ## Programs -/

section Programs

variable {c : Call} {d : Database} {ws : List Write}

/-- The programs of the service, under what a transaction relies on. -/
abbrev Keeps (c : Call) (q : M Reply) (d : Database) (ws : List Write) : Prop :=
  Server.InOrder engine Holds Ready c q d ws

theorem Keeps.ask {o : Op} {k : Res o → M Reply}
    (h : ∀ d', Holds ws d d' → ∀ a r new, handle o a (engine.view ws d') = some (r, new) →
      Keeps c (k r) d' (ws ++ new)) : Keeps c (.op o k) d ws :=
  Server.InOrder.op h

theorem Keeps.read {o : Op} {k : Res o → M Reply}
    (hread : ∀ a d r new, handle o a d = some (r, new) → new = [])
    (h : ∀ d', Holds ws d d' → ∀ a r, handle o a (engine.view ws d') = some (r, []) → Keeps c (k r) d' ws) :
    Keeps c (.op o k) d ws :=
  Server.InOrder.read hread h

theorem Keeps.raise {e : Exn} : Keeps c (.raise e) d ws := fun _ _ => trivial

theorem Keeps.lift {α : Type} {x : Except Exn α} {f : α → M Reply} (h : ∀ a, x = .ok a → Keeps c (f a) d ws) :
    Keeps c (Prog.lift x >>= f) d ws :=
  .lift_bind h (fun _ _ _ _ => trivial)

theorem Keeps.ret {v : Reply} (h : ∀ d', Holds ws d d' → Ready c (.ok v) (d', ws)) :
    Keeps c (.ret v) d ws :=
  Server.InOrder.ret h

theorem Keeps.newId {k : Uuid → M Reply} (h : ∀ d', Holds ws d d' → ∀ id, Keeps c (k id) d' ws) :
    Keeps c (.op .newId k) d ws :=
  Keeps.read (fun _ _ _ _ => written_eq) (fun d' hd _ id _ => h d' hd id)

variable {id workspaceId : Uuid} {savings : List Saving}

theorem fresh_of_view (h : (engine.view ws d).conclusion? id = none) :
    d.conclusion? id = none ∧ ∀ row, Write.insertConclusion row ∈ ws → row.id ≠ id := by
  rw [conclusion?_view] at h
  constructor
  · cases hd : d.conclusion? id with
    | none => rfl
    | some con =>
      obtain ⟨con', hcon', _⟩ := onConclusion_some ws id con
      rw [hd, hcon'] at h
      cases h
  · rintro row hrow rfl
    -- what is inserted stays
    obtain ⟨pre, post, rfl⟩ := List.append_of_mem hrow
    rw [List.foldl_append, List.foldl_cons] at h
    obtain ⟨con, hcon⟩ : ∃ con, (Write.insertConclusion row).onConclusion row.id
        (pre.foldl (fun c w => w.onConclusion row.id c) (d.conclusion? row.id)) = some con := by
      cases pre.foldl (fun c w => w.onConclusion row.id c) (d.conclusion? row.id) with
      | none => exact ⟨row, by simp [Write.onConclusion]⟩
      | some con => exact ⟨con, rfl⟩
    obtain ⟨con', hcon', _⟩ := onConclusion_some post row.id con
    rw [hcon, hcon'] at h
    cases h

/-- **A new conclusion.** What follows finds it written, and new to the table. -/
theorem keeps_insertFirst {conclusion : ResearchConclusion} {revision : ResearchConclusionRevision}
    {f : ResearchConclusion × ResearchConclusionRevision → M Reply} (hnumber : revision.revisionNumber = 1)
    (h : ∀ d' id revisionId, Holds ws d d' →
      First d' { conclusion with id := id } { revision with id := revisionId, conclusionId := id } →
      (∀ row, Write.insertConclusion row ∈ ws → row.id ≠ id) →
      Keeps c (f ({ conclusion with id := id }, { revision with id := revisionId, conclusionId := id })) d'
        (ws ++ firstWrites { conclusion with id := id } { revision with id := revisionId, conclusionId := id })) :
    Keeps c (insertFirst conclusion revision >>= f) d ws := by
  refine Keeps.newId fun d₁ h₁ id => ?_
  refine Keeps.ask fun d₂ h₂ a inserted new hinsert => ?_
  obtain e | u := inserted
  · exact Keeps.raise
  obtain ⟨hallowed, rfl⟩ := insert_ok (Option.some.inj hinsert)
  have hnone : (engine.view ws d₂).conclusion? id = none := by
    simpa using (Bool.and_eq_true_iff.mp hallowed).2
  obtain ⟨hfresh, hother⟩ := fresh_of_view hnone
  -- from here on the transaction holds the row
  have htaken : ∀ new', RowKey.conclusion id ∈ taken (ws ++ [.insertConclusion { conclusion with id := id }] ++ new') := by
    intro new'
    simp [taken, Write.keys]
  refine Keeps.newId fun d₃ h₃ revisionId => ?_
  refine Keeps.ask fun d₄ h₄ a written new hinsert => ?_
  obtain e | u := written
  · exact Keeps.raise
  obtain ⟨_, rfl⟩ := insert_ok (Option.some.inj hinsert)
  refine Keeps.ask fun d₅ h₅ a _ new hset => ?_
  obtain ⟨_, rfl⟩ := answer_inj hset
  have hheld : d₅.conclusion? id = d₂.conclusion? id := by
    have h₂₃ := (h₃.heldConclusion id (by simpa using htaken [])).1
    have h₃₄ := (h₄.heldConclusion id (by simpa using htaken [])).1
    have h₄₅ := (h₅.heldConclusion id (htaken _)).1
    rw [h₄₅, h₃₄, h₂₃]
  have hholds : Holds ws d d₅ :=
    (((h₁.trans _ h₂).trans _ h₃.of_append).trans _ h₄.of_append).trans _ h₅.of_append.of_append
  have hgoal := h d₅ id revisionId hholds ⟨hheld.trans hfresh, rfl, hnumber⟩ hother
  have happend : ∀ w₁ w₂ w₃ : Write, ws ++ [w₁, w₂, w₃] = ws ++ [w₁] ++ [w₂] ++ [w₃] := by
    intro w₁ w₂ w₃
    simp
  unfold firstWrites at hgoal
  rw [happend] at hgoal
  exact hgoal

theorem First.holds {conclusion : ResearchConclusion} {revision : ResearchConclusionRevision} {d' : Database}
    (h : First d conclusion revision) (hd : Holds (ws ++ firstWrites conclusion revision) d d') :
    First d' conclusion revision where
  fresh := by
    have htaken : RowKey.conclusion conclusion.id ∈ taken (ws ++ firstWrites conclusion revision) :=
      mem_taken_append.mpr (.inr (by simp [taken, firstWrites, Write.keys]))
    exact (hd.heldConclusion _ htaken).1.trans h.fresh
  of := h.of
  number := h.number

/-! ### Saving -/

theorem Saves.holds {d' : Database}
    (h : Saves workspaceId savings d ws) (hd : Holds ws d d') : Saves workspaceId savings d' ws where
  writes := h.writes
  candidates := h.candidates
  new := h.new
  first s hs := by
    have htaken : RowKey.conclusion s.conclusion.id ∈ taken ws := by
      rw [h.writes]
      have hmem : Write.insertConclusion s.conclusion ∈ s.writes := List.mem_append_left _ List.mem_cons_self
      exact List.mem_flatMap.mpr ⟨_, List.mem_flatMap.mpr ⟨s, hs, hmem⟩, List.mem_singleton.mpr rfl⟩
    have hfirst := h.first s hs
    exact ⟨(hd.heldConclusion _ htaken).1.trans hfirst.fresh, hfirst.of, hfirst.number⟩
  workspace := h.workspace
  source := h.source
  row s hs := by
    obtain ⟨c, hc⟩ := h.row s hs
    obtain ⟨c', hc', _⟩ := hd.candidate _ c hc
    exact ⟨c', hc'⟩

theorem Saving.mem_writes {s : Saving} {w : Write} :
    w ∈ s.writes ↔ w = .insertConclusion s.conclusion ∨ w = .insertRevision s.revision ∨
      w = .updateConclusion s.conclusion.id (.current s.revision.id) ∨
      w = .updateCandidate s.candidateId .saved (some s.conclusion.id) := by
  simp [Saving.writes, firstWrites]

theorem candidate_of_taken
    (h : RowKey.candidate id ∈ taken (savings.flatMap Saving.writes)) : ∃ s ∈ savings, s.candidateId = id := by
  obtain ⟨w, hw, hk⟩ := List.mem_flatMap.mp h
  obtain ⟨s, hs, hw⟩ := List.mem_flatMap.mp hw
  refine ⟨s, hs, ?_⟩
  rcases Saving.mem_writes.mp hw with rfl | rfl | rfl | rfl <;> simp [Write.keys] at hk
  exact hk.symm

theorem conclusion_of_taken
    (h : RowKey.conclusion id ∈ taken (savings.flatMap Saving.writes)) : ∃ s ∈ savings, s.conclusion.id = id := by
  obtain ⟨w, hw, hk⟩ := List.mem_flatMap.mp h
  obtain ⟨s, hs, hw⟩ := List.mem_flatMap.mp hw
  refine ⟨s, hs, ?_⟩
  rcases Saving.mem_writes.mp hw with rfl | rfl | rfl | rfl <;> simp [Write.keys] at hk <;> exact hk.symm

theorem status_of_writes {k : Uuid} {ws : List Write}
    (honly : ∀ w ∈ ws, RowKey.candidate id ∈ w.keys → w = .updateCandidate id .saved (some k))
    (hmem : RowKey.candidate id ∈ taken ws) {x : Option ResearchConclusionCandidate}
    {e : ResearchConclusionCandidate} (h : ws.foldl (fun c w => w.onCandidate id c) x = some e) :
    e.status = .saved ∧ e.savedConclusionId = some k := by
  induction ws using List.reverseRecOn generalizing e with
  | nil => cases hmem
  | append_singleton ws w ih =>
    rw [List.foldl_append, List.foldl_cons, List.foldl_nil] at h
    by_cases hw : RowKey.candidate id ∈ w.keys
    · obtain rfl := honly w (List.mem_append_right _ List.mem_cons_self) hw
      obtain ⟨e', _, rfl⟩ := Option.map_eq_some_iff.mp h
      rw [if_pos rfl]
      exact ⟨rfl, rfl⟩
    · have hmem' : RowKey.candidate id ∈ taken ws := by
        rcases mem_taken_append.mp hmem with hmem | hmem
        · exact hmem
        · exact absurd (by simpa [taken] using hmem) hw
      have hfree : RowKey.candidate id ∉ taken [w] := by simpa [taken] using hw
      have hsame := onCandidate_of_not_taken hfree
        (ws.foldl (fun c w => w.onCandidate id c) x)
      rw [List.foldl_cons, List.foldl_nil] at hsame
      rw [hsame] at h
      exact ih (fun u hu => honly u (List.mem_append_left _ hu)) hmem' h

theorem Saves.reread (h : Saves workspaceId savings d ws)
    {s : Saving} (hs : s ∈ savings) {e : ResearchConclusionCandidate}
    (he : (engine.view ws d).candidate? s.candidateId = some e) :
    e.status = .saved ∧ e.savedConclusionId = some s.conclusion.id := by
  rw [candidate?_view] at he
  refine status_of_writes ?_ ?_ he
  · intro w hw hk
    rw [h.writes] at hw
    obtain ⟨t, ht, hw⟩ := List.mem_flatMap.mp hw
    rcases Saving.mem_writes.mp hw with rfl | rfl | rfl | rfl <;> simp [Write.keys] at hk
    -- no other selection saves the candidate
    obtain rfl : s = t := List.inj_on_of_nodup_map h.candidates hs ht hk
    rfl
  · rw [h.writes]
    have hmem : Write.updateCandidate s.candidateId .saved (some s.conclusion.id) ∈ s.writes :=
      List.mem_append_right _ List.mem_cons_self
    exact List.mem_flatMap.mpr ⟨_, List.mem_flatMap.mpr ⟨s, hs, hmem⟩, List.mem_singleton.mpr rfl⟩

theorem Saves.conclusion_ne_none (h : Saves workspaceId savings d ws) {s : Saving} (hs : s ∈ savings) :
    (engine.view ws d).conclusion? s.conclusion.id ≠ none := by
  intro hnone
  have hmem : Write.insertConclusion s.conclusion ∈ ws := by
    rw [h.writes]
    exact List.mem_flatMap.mpr ⟨s, hs, List.mem_append_left _ List.mem_cons_self⟩
  exact (fresh_of_view hnone).2 _ hmem rfl

theorem latest_eq_none {rs : List ResearchConclusionRevision} : latest rs = none ↔ rs = [] := by
  cases rs with
  | nil => exact ⟨fun _ => rfl, fun _ => rfl⟩
  | cons r rs =>
    unfold latest
    constructor
    · intro h
      split at h
      · cases h
      · split at h <;> cases h
    · intro h
      cases h

theorem Saves.latest_ne_none (h : Saves workspaceId savings d ws) {s : Saving} (hs : s ∈ savings) :
    latest ((engine.view ws d).revisionsOf s.conclusion.id) ≠ none := by
  intro hnone
  rw [latest_eq_none, revisionsOf_view, List.append_eq_nil_iff] at hnone
  have hmem : Write.insertRevision s.revision ∈ ws := by
    rw [h.writes]
    exact List.mem_flatMap.mpr ⟨s, hs, List.mem_append_left _ (List.mem_cons_of_mem _ List.mem_cons_self)⟩
  have hnil := List.flatMap_eq_nil_iff.mp hnone.2 _ hmem
  simp [Write.revisionFor, (h.first s hs).of] at hnil

/-- **The idempotent path.** A candidate the transaction has saved already is found with its conclusion. -/
theorem keeps_existingRef {f : Option ConclusionRef → M Reply}
    {candidate : ResearchConclusionCandidate} (hsaves : Saves workspaceId savings d ws)
    (hfound : (engine.view ws d).candidate? candidate.id = some candidate)
    (hsome : ∀ d' ref, Holds ws d d' → Keeps c (f (some ref)) d' ws)
    (hnone : ∀ d', Holds ws d d' → RowKey.candidate candidate.id ∉ taken ws → Keeps c (f none) d' ws) :
    Keeps c (existingRef candidate >>= f) d ws := by
  unfold existingRef
  split
  · next k hstatus hsaved =>
      -- what the transaction would see if it had saved the candidate itself
      have hown : RowKey.candidate candidate.id ∈ taken ws → ∃ s ∈ savings, s.conclusion.id = k := by
        intro htaken
        obtain ⟨s, hs, hid⟩ := candidate_of_taken (hsaves.writes ▸ htaken)
        have hreread := (hsaves.reread hs (hid ▸ hfound)).2
        rw [hsaved] at hreread
        exact ⟨s, hs, (Option.some.inj hreread).symm⟩
      refine Keeps.read (fun _ _ _ _ => written_eq) fun d₁ h₁ _ found hread => ?_
      obtain ⟨hcon, _⟩ := answer_inj hread
      obtain _ | con := found
      · refine hnone d₁ h₁ fun htaken => ?_
        obtain ⟨s, hs, rfl⟩ := hown htaken
        exact (hsaves.holds h₁).conclusion_ne_none hs hcon
      · have hid : con.id = k := Database.conclusion?_id hcon
        refine Keeps.read (fun _ _ _ _ => written_eq)
          fun d₂ h₂ _ revision hread => ?_
        obtain ⟨hrev, _⟩ := answer_inj hread
        obtain _ | r := revision
        · refine hnone d₂ (h₁.trans _ h₂) fun htaken => ?_
          obtain ⟨s, hs, hk⟩ := hown htaken
          refine ((hsaves.holds h₁).holds h₂).latest_ne_none hs ?_
          rw [hk, ← hid]
          exact hrev
        · exact hsome d₂ _ (h₁.trans _ h₂)
  · next hother =>
      refine hnone d (Holds.refl ws d) fun htaken => ?_
      obtain ⟨s, hs, hid⟩ := candidate_of_taken (hsaves.writes ▸ htaken)
      obtain ⟨hstatus, hsaved⟩ := hsaves.reread hs (hid ▸ hfound)
      exact hother _ hstatus hsaved

theorem Saves.snoc {workspaceId : Uuid} {savings : List Saving} {s : Saving} {e : ResearchConclusionCandidate}
    (h : Saves workspaceId savings d ws) (hfirst : First d s.conclusion s.revision)
    (hnew : ∀ row, Write.insertConclusion row ∈ ws → row.id ≠ s.conclusion.id)
    (hworkspace : s.conclusion.workspaceId = workspaceId)
    (hsource : s.conclusion.sourceCandidateId = some s.candidateId)
    (hrow : d.candidate? s.candidateId = some e) (hfree : RowKey.candidate s.candidateId ∉ taken ws) :
    Saves workspaceId (savings ++ [s]) d (ws ++ s.writes) where
  writes := by
    rw [h.writes, List.flatMap_append, List.flatMap_singleton]
  candidates := by
    rw [List.map_append, List.map_singleton]
    refine List.nodup_append.mpr ⟨h.candidates, List.nodup_singleton _, ?_⟩
    rintro id hid id' hid' rfl
    obtain ⟨t, ht, rfl⟩ := List.mem_map.mp hid
    have hsame : t.candidateId = s.candidateId := List.mem_singleton.mp hid'
    have hmem : Write.updateCandidate t.candidateId .saved (some t.conclusion.id) ∈ t.writes :=
      List.mem_append_right _ List.mem_cons_self
    refine hfree ?_
    rw [h.writes, ← hsame]
    exact List.mem_flatMap.mpr ⟨_, List.mem_flatMap.mpr ⟨t, ht, hmem⟩, List.mem_singleton.mpr rfl⟩
  new := by
    rw [List.map_append, List.map_singleton]
    refine List.nodup_append.mpr ⟨h.new, List.nodup_singleton _, ?_⟩
    rintro id hid id' hid' rfl
    obtain ⟨t, ht, rfl⟩ := List.mem_map.mp hid
    refine hnew t.conclusion ?_ (List.mem_singleton.mp hid')
    rw [h.writes]
    exact List.mem_flatMap.mpr ⟨t, ht, List.mem_append_left _ List.mem_cons_self⟩
  first t ht := by
    rcases List.mem_append.mp ht with ht | ht
    · exact h.first t ht
    · exact List.mem_singleton.mp ht ▸ hfirst
  workspace t ht := by
    rcases List.mem_append.mp ht with ht | ht
    · exact h.workspace t ht
    · exact List.mem_singleton.mp ht ▸ hworkspace
  source t ht := by
    rcases List.mem_append.mp ht with ht | ht
    · exact h.source t ht
    · exact List.mem_singleton.mp ht ▸ hsource
  row t ht := by
    rcases List.mem_append.mp ht with ht | ht
    · exact h.row t ht
    · exact List.mem_singleton.mp ht ▸ ⟨e, hrow⟩

theorem keeps_saveSelections (service : Service) (command : SaveCandidatesCommand) (actorId : Uuid)
    (selections : List CandidateSelection) {results : List ConclusionRef}
    (h : Saves command.workspaceId savings d ws) :
    Keeps (.saveCandidates service command) (saveSelections command.workspaceId actorId selections results) d ws := by
  induction selections generalizing d ws savings results with
  | nil => exact Keeps.ret fun d' hd => ⟨savings, h.holds hd⟩
  | cons selection selections ih =>
    refine Keeps.read (fun _ _ _ _ => written_eq) fun d₁ h₁ _ found hread => ?_
    obtain ⟨hfound, _⟩ := answer_inj hread
    obtain _ | candidate := found
    · exact Keeps.raise
    have hid : candidate.id = selection.candidateId := Database.candidate?_id hfound
    have hsaves := h.holds h₁
    refine keeps_existingRef hsaves (hid ▸ hfound) (fun d₂ ref h₂ => ih (hsaves.holds h₂)) fun d₂ h₂ hfree => ?_
    show Keeps _ (ite (candidate.status = .rejected) _ _) d₂ ws
    split
    · exact Keeps.raise
    · -- the candidate is saved: it is a row of the table that the transaction has not written
      have hrow : d₁.candidate? candidate.id = some candidate := by
        rw [← onCandidate_of_not_taken hfree (d₁.candidate? candidate.id), ← candidate?_view]
        exact hid ▸ hfound
      unfold saveCandidate
      rw [Prog.bind_assoc]
      refine keeps_insertFirst rfl fun d₃ id revisionId h₃ hfirst hnew => ?_
      refine Keeps.ask fun d₄ h₄ _ _ new hupdate => ?_
      obtain ⟨_, rfl⟩ := answer_inj hupdate
      obtain ⟨e₂, he₂, _⟩ := h₂.candidate _ _ hrow
      obtain ⟨e₃, he₃, _⟩ := h₃.candidate _ _ he₂
      obtain ⟨e₄, he₄, _⟩ := h₄.candidate _ _ he₃
      have hsaves' := ((hsaves.holds h₂).holds h₃).holds h₄.of_append
      have hsnoc := hsaves'.snoc (s := ⟨candidate.id, _, _⟩) (hfirst.holds h₄) hnew rfl rfl he₄ hfree
      rw [List.append_assoc]
      exact ih hsnoc

theorem saves_nil (workspaceId : Uuid) (d : Database) : Saves workspaceId [] d [] where
  writes := rfl
  candidates := List.nodup_nil
  new := List.nodup_nil
  first _ hs := by cases hs
  workspace _ hs := by cases hs
  source _ hs := by cases hs
  row _ hs := by cases hs

theorem keeps_saveCandidates (service : Service) (command : SaveCandidatesCommand) (d : Database) :
    Keeps (.saveCandidates service command) (saveCandidates service command) d [] :=
  Keeps.lift fun actorId _ =>
    keeps_saveSelections service command actorId command.selections (saves_nil command.workspaceId d)

theorem keeps_rejectCandidate (service : Service) (workspaceId candidateId : Uuid) (d : Database) :
    Keeps (.rejectCandidate service workspaceId candidateId) (rejectCandidate service workspaceId candidateId)
      d [] := by
  refine Keeps.lift fun _ _ => ?_
  refine Keeps.read (fun _ _ _ _ => written_eq) fun d₁ _ _ found hread => ?_
  obtain ⟨hfound, _⟩ := answer_inj hread
  obtain _ | candidate := found
  · exact Keeps.raise
  show Keeps _ (ite (candidate.status ≠ .pending) _ _) d₁ []
  split
  · exact Keeps.raise
  · refine Keeps.ask fun d₂ h₂ _ _ new hupdate => ?_
    obtain ⟨_, rfl⟩ := answer_inj hupdate
    refine Keeps.ret fun d₃ h₃ => ?_
    obtain ⟨e₂, he₂, _⟩ := h₂.candidate _ _ hfound
    obtain ⟨e₃, he₃, _⟩ := h₃.candidate _ _ he₂
    exact ⟨rfl, e₃, he₃⟩

/-! ### Other conclusions -/

theorem keeps_createManual (service : Service) (command : CreateManualConclusionCommand) (d : Database) :
    Keeps (.createManual service command) (createManual service command) d [] := by
  refine Keeps.lift fun actorId _ => ?_
  refine keeps_insertFirst rfl fun d₁ id revisionId _ hfirst _ => ?_
  exact Keeps.ret fun d₂ h₂ => ⟨_, _, rfl, hfirst.holds h₂, rfl⟩

theorem keeps_saveFromBlock (service : Service) (workspaceId turnId : Uuid) (statement : String) (d : Database) :
    Keeps (.saveFromBlock service workspaceId turnId statement)
      (saveFromBlock service workspaceId turnId statement) d [] := by
  unfold saveFromBlock
  split
  · exact Keeps.raise
  refine Keeps.lift fun actorId _ => ?_
  refine Keeps.read (fun _ _ _ _ => written_eq) fun d₁ _ _ turn _ => ?_
  obtain _ | turn := turn
  · exact Keeps.raise
  show Keeps _ (ite (turn.workspaceId ≠ workspaceId) _ _) d₁ []
  split
  · exact Keeps.raise
  · refine keeps_insertFirst rfl fun d₂ id revisionId _ hfirst _ => ?_
    exact Keeps.ret fun d₃ h₃ => ⟨_, _, rfl, hfirst.holds h₃, rfl⟩

/-! ### Changes -/

theorem keeps_revise (service : Service) (command : ReviseConclusionCommand) (d : Database) :
    Keeps (.revise service command) (revise service command) d [] := by
  refine Keeps.lift fun actorId _ => ?_
  refine Keeps.read (fun _ _ _ _ => written_eq) fun d₁ _ _ found _ => ?_
  obtain _ | conclusion := found
  · exact Keeps.raise
  show Keeps _ (ite (conclusion.workspaceId ≠ command.workspaceId) _ _) d₁ []
  split
  · exact Keeps.raise
  refine Keeps.ask fun d₂ _ _ locked new hlock => ?_
  obtain _ | _ := locked
  · exact Keeps.raise
  -- the row is at the expected version, and the transaction holds it from here on
  obtain ⟨con, hcon, hversion, rfl⟩ := updateAt_true (Option.some.inj hlock)
  have hheld : ∀ new', RowKey.conclusion command.conclusionId ∈
      taken ([.updateConclusion command.conclusionId (.lock (command.expectedLockVersion + 1))] ++ new') := by
    intro new'
    simp [taken, Write.keys]
  refine Keeps.read (fun _ _ _ _ => written_eq) fun d₃ h₃ _ last hread => ?_
  obtain ⟨hlast, _⟩ := answer_inj hread
  refine Keeps.newId fun d₄ h₄ revisionId => ?_
  refine Keeps.ask fun d₅ h₅ _ written new hinsert => ?_
  refine Keeps.lift fun _ hok => ?_
  subst hok
  obtain ⟨_, rfl⟩ := insert_ok (Option.some.inj hinsert)
  refine Keeps.ask fun d₆ h₆ _ _ new hset => ?_
  obtain ⟨_, rfl⟩ := answer_inj hset
  refine Keeps.ret fun d₇ h₇ => ?_
  have h₃ := h₃.heldConclusion _ (by simpa using hheld [])
  have h₄ := h₄.heldConclusion _ (by simpa using hheld [])
  have h₅ := h₅.heldConclusion _ (by simpa using hheld [])
  have h₆ := h₆.heldConclusion _ (hheld _)
  have h₇ := h₇.heldConclusion command.conclusionId (by simp [taken, Write.keys])
  have hlast : last = latest (d₃.revisionsOf command.conclusionId) := by
    rw [← hlast, revisionsOf_view]
    simp [Write.revisionFor]
  refine ⟨con, _, rfl, ?_, hversion, rfl, ?_⟩
  · rw [h₇.1, h₆.1, h₅.1, h₄.1, h₃.1]
    exact hcon
  · rw [h₇.2, h₆.2, h₅.2, h₄.2, ← hlast]

theorem keeps_archive (service : Service) (workspaceId conclusionId : Uuid) (expected : Int) (d : Database) :
    Keeps (.archive service workspaceId conclusionId expected) (archive service workspaceId conclusionId expected)
      d [] := by
  refine Keeps.lift fun _ _ => ?_
  refine Keeps.read (fun _ _ _ _ => written_eq) fun d₁ _ _ found _ => ?_
  obtain _ | conclusion := found
  · exact Keeps.raise
  show Keeps _ (ite (conclusion.workspaceId ≠ workspaceId) _ _) d₁ []
  split
  · exact Keeps.raise
  refine Keeps.ask fun d₂ _ _ archived new harchive => ?_
  obtain _ | _ := archived
  · exact Keeps.raise
  obtain ⟨con, hcon, hversion, rfl⟩ := updateAt_true (Option.some.inj harchive)
  refine Keeps.ret fun d₃ h₃ => ⟨rfl, con, ?_, hversion⟩
  rw [(h₃.heldConclusion conclusionId (by simp [taken, Write.keys])).1]
  exact hcon

theorem keeps_deleteConclusion (workspaceId conclusionId : Uuid) (d : Database) :
    Keeps (.deleteConclusion workspaceId conclusionId) (deleteConclusion workspaceId conclusionId) d [] := by
  refine Keeps.read (fun _ _ _ _ => written_eq) fun d₁ _ _ found hread => ?_
  obtain ⟨hfound, _⟩ := answer_inj hread
  obtain _ | conclusion := found
  · exact Keeps.raise
  have hcon : d₁.conclusion? conclusionId = some conclusion := (Option.filter_eq_some_iff.mp hfound).1
  show Keeps _ (ite (conclusion.status = .archived) _ _) d₁ []
  split
  · next harchived =>
      -- nothing makes an archived conclusion active again
      refine Keeps.ret fun d₂ h₂ => ?_
      obtain ⟨con, hcon', hkeep⟩ := h₂.conclusion _ _ hcon
      exact ⟨con, hcon', .inl ⟨rfl, hkeep harchived⟩⟩
  · refine Keeps.ask fun d₂ h₂ _ _ new hflush => ?_
    obtain ⟨_, rfl⟩ := answer_inj hflush
    refine Keeps.ret fun d₃ h₃ => ?_
    obtain ⟨con₂, hcon₂, _⟩ := h₂.conclusion _ _ hcon
    obtain ⟨con₃, hcon₃, _⟩ := h₃.conclusion _ _ hcon₂
    exact ⟨con₃, hcon₃, .inr rfl⟩

/-! ### Turns and candidates -/

theorem keeps_createTurn (workspaceId : Uuid) (d : Database) :
    Keeps (.createTurn workspaceId) (createTurn workspaceId) d [] := by
  refine Keeps.newId fun d₁ _ id => ?_
  refine Keeps.ask fun d₂ _ _ inserted new hinsert => ?_
  refine Keeps.lift fun _ hok => ?_
  subst hok
  obtain ⟨hallowed, rfl⟩ := insert_ok (Option.some.inj hinsert)
  have hfresh : d₂.turn? id = none := by simpa using (Bool.and_eq_true_iff.mp hallowed).2
  refine Keeps.ret fun d₃ h₃ => ⟨_, rfl, ?_⟩
  exact (h₃.heldTurn id (by simp [taken, Write.keys])).trans hfresh

theorem Inserts.holds {rows : List ResearchConclusionCandidate} {d' : Database} (h : Inserts rows d ws)
    (hd : Holds ws d d') : Inserts rows d' ws := by
  refine ⟨h.1, fun row hrow => ⟨(h.2 row hrow).1, ?_⟩⟩
  have htaken : RowKey.candidate row.id ∈ taken ws := by
    rw [h.1]
    exact List.mem_flatMap.mpr ⟨_, List.mem_map_of_mem hrow, List.mem_cons_self⟩
  exact (hd.heldCandidate _ htaken).trans (h.2 row hrow).2

theorem Inserts.snoc {rows : List ResearchConclusionCandidate} {row : ResearchConclusionCandidate}
    (h : Inserts rows d ws) (hpending : row.status = .pending) (hfresh : d.candidate? row.id = none) :
    Inserts (rows ++ [row]) d (ws ++ [.insertCandidate row]) := by
  refine ⟨?_, fun r hr => ?_⟩
  · rw [h.1, List.map_append, List.map_singleton]
  · rcases List.mem_append.mp hr with hr | hr
    · exact h.2 r hr
    · obtain rfl := List.mem_singleton.mp hr
      exact ⟨hpending, hfresh⟩

theorem inserts_nil (d : Database) : Inserts [] d [] := by
  refine ⟨rfl, fun row hrow => ?_⟩
  cases hrow

theorem keeps_insertCandidates (extractionId turnId : Uuid) (all cs : List CandidateDict) (ordinal : Nat)
    {rows : List ResearchConclusionCandidate} (h : Inserts rows d ws) :
    Keeps (.insertCandidates extractionId turnId all) (insertCandidates extractionId turnId ordinal cs) d ws := by
  induction cs generalizing d ws rows ordinal with
  | nil => exact Keeps.ret fun d' hd => ⟨rows, h.holds hd⟩
  | cons c cs ih =>
    refine Keeps.newId fun d₁ h₁ id => ?_
    refine Keeps.ask fun d₂ h₂ _ inserted new hinsert => ?_
    refine Keeps.lift fun _ hok => ?_
    subst hok
    obtain ⟨hallowed, rfl⟩ := insert_ok (Option.some.inj hinsert)
    have hview : (engine.view ws d₂).candidate? id = none := by
      simpa using (Bool.and_eq_true_iff.mp (Bool.and_eq_true_iff.mp hallowed).1).2
    have hfresh : d₂.candidate? id = none := by
      rw [candidate?_view] at hview
      cases hd : d₂.candidate? id with
      | none => rfl
      | some e =>
        obtain ⟨e', he', _⟩ := onCandidate_some ws id e
        rw [hd, he'] at hview
        cases hview
    have hold := (h.holds h₁).holds h₂
    exact ih (ordinal + 1) (hold.snoc rfl hfresh)

/-- **What a call commits.** Whatever the others commit meanwhile, the writes of a call that returns are those of
`Ready`. -/
theorem keeps_prog (c : Call) (d : Database) : Keeps c c.prog d [] := by
  cases c with
  | createTurn workspaceId => exact keeps_createTurn workspaceId d
  | insertCandidates extractionId turnId cs =>
    exact keeps_insertCandidates extractionId turnId cs cs 0 (inserts_nil d)
  | saveCandidates service command => exact keeps_saveCandidates service command d
  | rejectCandidate service workspaceId id => exact keeps_rejectCandidate service workspaceId id d
  | createManual service command => exact keeps_createManual service command d
  | saveFromBlock service workspaceId turnId s => exact keeps_saveFromBlock service workspaceId turnId s d
  | revise service command => exact keeps_revise service command d
  | archive service workspaceId id expected => exact keeps_archive service workspaceId id expected d
  | deleteConclusion workspaceId id => exact keeps_deleteConclusion workspaceId id d

end Programs

/-! ## Systems -/

/-- Whoever adds a revision has taken its conclusion. -/
theorem Ready.guarded {c : Call} {v : Reply} {d : Database} {ws : List Write} (h : Ready c (.ok v) (d, ws)) :
    Guarded ws := by
  have hfirst : ∀ conclusion revision, First d conclusion revision → Guarded (firstWrites conclusion revision) := by
    intro conclusion revision hnew row hrow
    simp only [firstWrites, List.mem_cons, List.not_mem_nil, or_false, reduceCtorEq, false_or,
      Write.insertRevision.injEq] at hrow
    subst hrow
    rw [hnew.of]
    simp [taken, firstWrites, Write.keys]
  intro row hrow
  cases c with
  | createTurn _ | insertCandidates _ _ _ =>
    obtain ⟨_, rfl, _⟩ := h
    simp at hrow
  | saveCandidates _ _ =>
    obtain ⟨savings, hsaves⟩ := h
    have hwrites : ws = savings.flatMap Saving.writes := hsaves.writes
    have hmem : Write.insertRevision row ∈ savings.flatMap Saving.writes := hwrites ▸ hrow
    obtain ⟨s, hs, hrow⟩ := List.mem_flatMap.mp hmem
    have hrow : Write.insertRevision row ∈ firstWrites s.conclusion s.revision := by
      rcases List.mem_append.mp hrow with hrow | hrow
      · exact hrow
      · simp at hrow
    obtain ⟨w, hw, hk⟩ := List.mem_flatMap.mp (hfirst _ _ (hsaves.first s hs) row hrow)
    have hw : w ∈ ws := by
      rw [hwrites]
      exact List.mem_flatMap.mpr ⟨s, hs, List.mem_append_left _ hw⟩
    exact List.mem_flatMap.mpr ⟨w, hw, hk⟩
  | rejectCandidate _ _ _ =>
    obtain ⟨rfl, _⟩ := h
    simp at hrow
  | createManual _ _ | saveFromBlock _ _ _ _ =>
    obtain ⟨_, _, rfl, hnew, _⟩ := h
    exact hfirst _ _ hnew row hrow
  | revise _ _ =>
    obtain ⟨_, revision, rfl, _, _, hof, _⟩ := h
    obtain rfl : row = revision := by simpa using hrow
    simp [taken, Write.keys, hof]
  | archive _ _ _ _ =>
    obtain ⟨rfl, _⟩ := h
    simp at hrow
  | deleteConclusion _ _ =>
    obtain ⟨_, _, ⟨rfl, _⟩ | rfl⟩ := h
    · cases hrow
    · simp at hrow

/-- The sessions of a system are in order. -/
abbrev Sound (p : System) : Prop := Server.Sound engine Holds Ready p

theorem sound_step {p p' : System} {act : Action} (hp : Sound p) (h : step p act = some p') : Sound p' :=
  hp.step_of_commits conflict_comm Holds.refl Holds.trans
    (fun _ _ _ _ d hready hapart => holds_view hready.guarded hapart d) keeps_prog h

theorem sound_start : Sound start := by
  constructor
  · intro i s h
    cases h
  · intro i j s t _ h
    cases h

/-- **What a step does.** It leaves the committed tables alone, or it commits the writes of a call that has come
to its end. -/
theorem commit_cases {p p' : System} {act : Action} (hp : Sound p) (h : step p act = some p') :
    ((∀ i, act ≠ .commit i) ∧ p'.committed = p.committed) ∨
    ∃ i s v, act = .commit i ∧ p.sessions[i]? = some s ∧ Ready s.call (.ok v) (p.committed, s.writes) ∧
      p'.committed = engine.view s.writes p.committed := by
  by_cases hact : ∃ i, act = .commit i
  · obtain ⟨i, rfl⟩ := hact
    obtain ⟨c, ws, v, hi, hready, hcommitted⟩ := hp.commit Holds.refl h
    exact .inr ⟨i, _, v, rfl, hi, hready, hcommitted⟩
  · have hno : ∀ i, act ≠ .commit i := fun i hi => hact ⟨i, hi⟩
    exact .inl ⟨hno, Server.committed_step h hno⟩

end Irip.Conclusions
