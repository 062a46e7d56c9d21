import Irip.Conclusions.Commits

/-!
# `Conclusions.Candidates` — concurrent decisions about a candidate

Calls of the service save and reject candidates at once, statement by statement, each in its transaction.
-/

namespace Irip.Conclusions

open Runs (Transition play play_run)

/-! ## Accounts -/

/-- A saved candidate has one conclusion, in the workspace of its turn; another has none. -/
def Accounted (home : Uuid → Option Uuid) : Option ResearchConclusionCandidate → List Uuid → Prop
  | none, saved => saved = []
  | some c, saved =>
    (c.status = .saved → ∃ w, saved = [w] ∧ home c.turnId = some w) ∧ (c.status ≠ .saved → saved = [])

/-- Every candidate is accounted for. -/
def Database.Accounted (d : Database) : Prop :=
  ∀ id, Conclusions.Accounted d.workspaceOf (d.candidate? id) (d.savedFrom id)

/-! ## Decisions -/

/-- A candidate has at most one conclusion, none if it is rejected, and in the workspace of its turn. -/
def DecidedAt (d : Database) (id : Uuid) : Prop :=
  ∀ c, d.candidate? id = some c → (d.savedFrom id).length ≤ 1 ∧ (c.status = .rejected → d.savedFrom id = []) ∧
    ∀ w ∈ d.savedFrom id, d.workspaceOf c.turnId = some w

/-- A commit of a call that names `workspace` does not reject a candidate that is saved, gives none that is
rejected a conclusion, and changes none of another workspace. -/
def KeptAt (workspace : Option Uuid) (d d' : Database) (id : Uuid) : Prop :=
  ∀ c, d.candidate? id = some c → ∃ c', d'.candidate? id = some c' ∧
    (c.status = .saved → c'.status ≠ .rejected) ∧ (c.status = .rejected → d'.savedFrom id = []) ∧
    ∀ w, workspace = some w → d.workspaceOf c.turnId ≠ some w → c' = c ∧ d'.savedFrom id = d.savedFrom id

/-- The workspace the call that commits names. -/
def namedBy (p : System) : Action → Option Uuid
  | .commit i => (p.sessions[i]?).bind (fun s => s.call.workspaceId)
  | _ => none

/-- A transition after which candidates are decided once, each in its own workspace. -/
def DecidedOnce (t : Transition System Action) : Prop :=
  ∀ id, DecidedAt t.post.committed id ∧ KeptAt (namedBy t.pre t.act) t.pre.committed t.post.committed id

/-- The writes of a call decide a candidate that is pending and of the workspace the call names, or reject one
that is rejected already. -/
def TimelyAt (call : Call) (d : Database) (ws : List Write) (id : Uuid) : Prop :=
  ∀ status saved, Write.updateCandidate id status saved ∈ ws → ∀ c, d.candidate? id = some c →
    (c.status = .pending ∧ d.workspaceOf c.turnId = call.workspaceId) ∨
      (c.status = .rejected ∧ status = .rejected)

/-- A step that commits decisions about pending candidates of the named workspace only. -/
def Timely (t : Transition System Action) : Prop :=
  ∀ i s, t.act = .commit i → t.pre.sessions[i]? = some s → ∀ id, TimelyAt s.call t.pre.committed s.writes id

/-! ## One commit -/

section Commit

variable {d d' : Database} {ws : List Write} {id : Uuid} {call : Call}

theorem Accounted.decided (h : Accounted d.workspaceOf (d.candidate? id) (d.savedFrom id)) : DecidedAt d id := by
  intro c hc
  rw [hc] at h
  by_cases hsaved : c.status = .saved
  · obtain ⟨w, hw, hhome⟩ := h.1 hsaved
    rw [hw]
    refine ⟨Nat.le_refl 1, fun hrejected => ?_, fun w' hw' => ?_⟩
    · rw [hsaved] at hrejected
      cases hrejected
    · rw [List.mem_singleton.mp hw']
      exact hhome
  · rw [h.2 hsaved]
    exact ⟨Nat.zero_le 1, fun _ => rfl, fun w hw => by cases hw⟩

theorem workspaceOf_view {turnId w : Uuid} (h : d.workspaceOf turnId = some w) :
    (engine.view ws d).workspaceOf turnId = some w := by
  obtain ⟨t, ht, hw⟩ := Option.map_eq_some_iff.mp h
  have ht' : (engine.view ws d).turn? turnId = some t := by
    rw [turn?_view, ht]
    exact onTurn_some ws turnId t
  unfold Database.workspaceOf
  rw [ht', Option.map_some, hw]

theorem Accounted.mono {home home' : Uuid → Option Uuid} {c : Option ResearchConclusionCandidate}
    {saved : List Uuid} (h : Accounted home c saved) (hhome : ∀ t w, home t = some w → home' t = some w) :
    Accounted home' c saved := by
  cases c with
  | none => exact h
  | some c =>
    refine ⟨fun hsaved => ?_, h.2⟩
    obtain ⟨w, hw, ht⟩ := h.1 hsaved
    exact ⟨w, hw, hhome _ _ ht⟩

/-- **A candidate the writes do not concern.** -/
theorem commit_untouched (call : Call) (hd : d.Accounted) (hfree : RowKey.candidate id ∉ taken ws)
    (hnone : ws.flatMap (Write.savedFor id) = []) :
    Accounted (engine.view ws d).workspaceOf ((engine.view ws d).candidate? id) ((engine.view ws d).savedFrom id) ∧
      KeptAt call.workspaceId d (engine.view ws d) id ∧ TimelyAt call d ws id := by
  have hcandidate : (engine.view ws d).candidate? id = d.candidate? id := by
    rw [candidate?_view]
    exact onCandidate_of_not_taken hfree _
  have hsaved : (engine.view ws d).savedFrom id = d.savedFrom id := by
    rw [savedFrom_view, hnone, List.append_nil]
  refine ⟨?_, ?_, ?_⟩
  · rw [hcandidate, hsaved]
    exact (hd id).mono (fun t w ht => workspaceOf_view ht)
  · intro c hc
    refine ⟨c, hcandidate.trans hc, fun hs hr => ?_, fun hr => ?_, fun w _ _ => ⟨rfl, hsaved⟩⟩
    · rw [hs] at hr
      cases hr
    · have haccount := hd id
      rw [hc] at haccount
      rw [hsaved]
      refine haccount.2 fun hs => ?_
      rw [hr] at hs
      cases hs
  · intro status saved hmem
    exact absurd (List.mem_flatMap.mpr ⟨_, hmem, List.mem_cons_self⟩) hfree

variable {c : ResearchConclusionCandidate}

/-- **A candidate that is saved.** The commit decides it once exactly when it was pending, and of the named
workspace. -/
theorem commit_saved {conclusionId workspaceId : Uuid} (hd : d.Accounted)
    (hc : d.candidate? id = some c) (hname : call.workspaceId = some workspaceId)
    (hcandidate : (engine.view ws d).candidate? id = some (c.decided .saved (some conclusionId)))
    (hsaved : (engine.view ws d).savedFrom id = d.savedFrom id ++ [workspaceId])
    (honly : ∀ status saved, Write.updateCandidate id status saved ∈ ws → status = .saved)
    (hmem : Write.updateCandidate id .saved (some conclusionId) ∈ ws) :
    (DecidedAt (engine.view ws d) id ∧ KeptAt call.workspaceId d (engine.view ws d) id → TimelyAt call d ws id) ∧
      (TimelyAt call d ws id → KeptAt call.workspaceId d (engine.view ws d) id ∧
        Accounted (engine.view ws d).workspaceOf ((engine.view ws d).candidate? id)
          ((engine.view ws d).savedFrom id)) := by
  have haccount := hd id
  rw [hc] at haccount
  constructor
  · rintro ⟨hdecided, hkept⟩ status saved _ e he
    obtain rfl := Option.some.inj (hc.symm.trans he)
    obtain ⟨c', hc', _, hrejected, hforeign⟩ := hkept c hc
    obtain rfl := Option.some.inj (hcandidate.symm.trans hc')
    cases hstatus : c.status with
    | saved =>
      -- a second conclusion
      obtain ⟨w, hw, _⟩ := haccount.1 hstatus
      have hlength := (hdecided _ hcandidate).1
      rw [hsaved, hw] at hlength
      simp at hlength
    | rejected =>
      have hnil := hrejected hstatus
      rw [hsaved] at hnil
      simp at hnil
    | pending =>
      refine .inl ⟨rfl, ?_⟩
      rw [hname]
      by_contra hne
      have hsame := (hforeign workspaceId hname hne).1
      rw [← hsame] at hstatus
      cases hstatus
  · intro htimely
    rcases htimely _ _ hmem c hc with ⟨hpending, hhome⟩ | ⟨_, hstatus⟩
    · have hnil : d.savedFrom id = [] := haccount.2 (by rw [hpending]; decide)
      rw [hname] at hhome
      constructor
      · intro e he
        obtain rfl := Option.some.inj (hc.symm.trans he)
        refine ⟨_, hcandidate, ?_, ?_, ?_⟩
        · intro _ hstatus
          cases hstatus
        · intro hrejected
          rw [hpending] at hrejected
          cases hrejected
        · intro w hw hne
          rw [hname] at hw
          exact absurd (hhome.trans hw) hne
      · rw [hcandidate, hsaved, hnil]
        exact ⟨fun _ => ⟨workspaceId, rfl, workspaceOf_view hhome⟩, fun hne => absurd rfl hne⟩
    · cases hstatus

/-- **A candidate that is rejected.** The commit decides it once exactly when it was pending and of the named
workspace, or rejected already. -/
theorem commit_rejected {workspaceId : Uuid} (hd : d.Accounted)
    (hc : d.candidate? id = some c) (hname : call.workspaceId = some workspaceId)
    (hws : ws = [.updateCandidate id .rejected none]) :
    (DecidedAt (engine.view ws d) id ∧ KeptAt call.workspaceId d (engine.view ws d) id → TimelyAt call d ws id) ∧
      (TimelyAt call d ws id → KeptAt call.workspaceId d (engine.view ws d) id ∧
        Accounted (engine.view ws d).workspaceOf ((engine.view ws d).candidate? id)
          ((engine.view ws d).savedFrom id)) := by
  have haccount := hd id
  rw [hc] at haccount
  have hcandidate : (engine.view ws d).candidate? id = some (c.decided .rejected none) := by
    rw [candidate?_view, hc, hws]
    simp [Write.onCandidate]
  have hsaved : (engine.view ws d).savedFrom id = d.savedFrom id := by
    rw [savedFrom_view, hws]
    simp [Write.savedFor]
  constructor
  · rintro ⟨_, hkept⟩ status saved hw e he
    obtain rfl := Option.some.inj (hc.symm.trans he)
    obtain rfl : status = .rejected := by
      rw [hws] at hw
      simp at hw
      exact hw.1
    obtain ⟨c', hc', hstays, _, hforeign⟩ := hkept c hc
    obtain rfl := Option.some.inj (hcandidate.symm.trans hc')
    cases hstatus : c.status with
    | saved => exact absurd rfl (hstays hstatus)
    | rejected => exact .inr ⟨rfl, rfl⟩
    | pending =>
      refine .inl ⟨rfl, ?_⟩
      rw [hname]
      by_contra hne
      have hsame := (hforeign workspaceId hname hne).1
      rw [← hsame] at hstatus
      cases hstatus
  · intro htimely
    have hcases := htimely .rejected none (by rw [hws]; exact List.mem_cons_self) c hc
    have hnil : d.savedFrom id = [] := by
      refine haccount.2 fun hs => ?_
      rcases hcases with ⟨hpending, _⟩ | ⟨hrejected, _⟩
      · rw [hs] at hpending
        cases hpending
      · rw [hs] at hrejected
        cases hrejected
    constructor
    · intro e he
      obtain rfl := Option.some.inj (hc.symm.trans he)
      refine ⟨_, hcandidate, ?_, fun _ => hsaved.trans hnil, fun w hw hne => ?_⟩
      · intro hs
        rcases hcases with ⟨hpending, _⟩ | ⟨hrejected, _⟩
        · rw [hs] at hpending
          cases hpending
        · rw [hs] at hrejected
          cases hrejected
      · rcases hcases with ⟨_, hhome⟩ | ⟨hrejected, _⟩
        · exact absurd (hhome.trans hw) hne
        · -- rejecting a rejected candidate changes nothing
          refine ⟨?_, hsaved⟩
          show ({ c with status := .rejected } : ResearchConclusionCandidate) = c
          rw [← hrejected]
    · rw [hcandidate, hsaved, hnil]
      refine ⟨fun hs => ?_, fun _ => rfl⟩
      cases hs

theorem savedFor_nil {savings : List Saving} (hsource : ∀ s ∈ savings, s.conclusion.sourceCandidateId ≠ some id) :
    (savings.flatMap Saving.writes).flatMap (Write.savedFor id) = [] := by
  rw [List.flatMap_eq_nil_iff]
  intro w hw
  obtain ⟨s, hs, hw⟩ := List.mem_flatMap.mp hw
  rcases Saving.mem_writes.mp hw with rfl | rfl | rfl | rfl
  · exact if_neg (hsource s hs)
  · rfl
  · rfl
  · rfl

theorem saves_at {workspaceId : Uuid} {savings : List Saving} {s : Saving}
    (h : Saves workspaceId savings d ws) (hs : s ∈ savings) (hc : d.candidate? s.candidateId = some c) :
    (engine.view ws d).candidate? s.candidateId = some (c.decided .saved (some s.conclusion.id)) ∧
      (engine.view ws d).savedFrom s.candidateId = d.savedFrom s.candidateId ++ [workspaceId] := by
  obtain ⟨pre, post, rfl⟩ := List.append_of_mem hs
  -- the other selections are of other candidates
  have hnodup := h.candidates
  rw [List.map_append, List.map_cons, List.nodup_append, List.nodup_cons] at hnodup
  obtain ⟨_, ⟨hpost, _⟩, hpre⟩ := hnodup
  have hother : ∀ savings : List Saving, s.candidateId ∉ savings.map Saving.candidateId →
      (∀ t ∈ savings, t ∈ pre ++ s :: post) →
      RowKey.candidate s.candidateId ∉ taken (savings.flatMap Saving.writes) ∧
        (savings.flatMap Saving.writes).flatMap (Write.savedFor s.candidateId) = [] := by
    intro savings hne hsub
    constructor
    · intro hmem
      obtain ⟨t, ht, hid⟩ := candidate_of_taken hmem
      exact hne (List.mem_map.mpr ⟨t, ht, hid⟩)
    · refine savedFor_nil fun t ht hsource => hne ?_
      rw [h.source t (hsub t ht)] at hsource
      exact List.mem_map.mpr ⟨t, ht, Option.some.inj hsource⟩
  obtain ⟨hbefore, hbeforeSaved⟩ := hother pre (fun hmem => hpre _ hmem _ List.mem_cons_self rfl)
    (fun t ht => List.mem_append_left _ ht)
  obtain ⟨hafter, hafterSaved⟩ := hother post hpost (fun t ht => List.mem_append_right _ (List.mem_cons_of_mem _ ht))
  have hwrites : ws = pre.flatMap Saving.writes ++ s.writes ++ post.flatMap Saving.writes := by
    rw [h.writes, List.flatMap_append, List.flatMap_cons, List.append_assoc]
  constructor
  · rw [candidate?_view, hwrites, List.foldl_append, List.foldl_append, onCandidate_of_not_taken hbefore,
      onCandidate_of_not_taken hafter, hc]
    simp [Saving.writes, firstWrites, Write.onCandidate]
  · rw [savedFrom_view, hwrites, List.flatMap_append, List.flatMap_append, hbeforeSaved, hafterSaved]
    simp [Saving.writes, firstWrites, Write.savedFor, h.source s hs, h.workspace s hs]

theorem onCandidate_inserts (id : Uuid) {rows : List ResearchConclusionCandidate} (hrows : ∀ row ∈ rows, row.status = .pending)
    (x : Option ResearchConclusionCandidate) :
    (∃ c, x = some c ∧ (rows.map Write.insertCandidate).foldl (fun c w => w.onCandidate id c) x = some c) ∨
      (x = none ∧ ∀ c, (rows.map Write.insertCandidate).foldl (fun c w => w.onCandidate id c) x = some c →
        c.status = .pending) := by
  induction rows generalizing x with
  | nil =>
    cases x with
    | none => exact .inr ⟨rfl, fun c hc => by cases hc⟩
    | some c => exact .inl ⟨c, rfl, rfl⟩
  | cons row rows ih =>
    have hrest := ih (fun r hr => hrows r (List.mem_cons_of_mem _ hr))
    cases x with
    | some c => exact .inl ⟨c, rfl, ((hrest (some c)).resolve_right (by simp)).elim fun _ h =>
      Option.some.inj h.1 ▸ h.2⟩
    | none =>
      refine .inr ⟨rfl, fun c hc => ?_⟩
      rw [List.map_cons, List.foldl_cons] at hc
      by_cases hid : row.id = id
      · have hhead : (Write.insertCandidate row).onCandidate id none = some row := by
          simp [Write.onCandidate, hid]
        rw [hhead] at hc
        obtain ⟨e, he, hfold⟩ | ⟨habsurd, _⟩ := hrest (some row)
        · rw [hfold] at hc
          rw [← Option.some.inj hc, ← Option.some.inj he]
          exact hrows row List.mem_cons_self
        · cases habsurd
      · have hhead : (Write.insertCandidate row).onCandidate id none = none := by
          simp [Write.onCandidate, hid]
        rw [hhead] at hc
        obtain ⟨e, he, _⟩ | ⟨_, hpending⟩ := hrest none
        · cases he
        · exact hpending c hc

/-- **New candidates** are pending, and have no conclusion. -/
theorem commit_inserted {rows : List ResearchConclusionCandidate} (hd : d.Accounted) (h : Inserts rows d ws) :
    Accounted (engine.view ws d).workspaceOf ((engine.view ws d).candidate? id) ((engine.view ws d).savedFrom id) ∧
      KeptAt call.workspaceId d (engine.view ws d) id ∧ TimelyAt call d ws id := by
  obtain ⟨hws, hrows⟩ := h
  have hsaved : (engine.view ws d).savedFrom id = d.savedFrom id := by
    rw [savedFrom_view, hws]
    simp [Write.savedFor]
  have haccount := hd id
  have hpending := onCandidate_inserts id (fun row hrow => (hrows row hrow).1) (d.candidate? id)
  rw [← hws, ← candidate?_view] at hpending
  refine ⟨?_, ?_, ?_⟩
  · rw [hsaved]
    rcases hpending with ⟨c, hc, hsame⟩ | ⟨hnone, hpending⟩
    · rw [hsame, ← hc]
      exact haccount.mono (fun t w ht => workspaceOf_view ht)
    · rw [hnone] at haccount
      cases hview : (engine.view ws d).candidate? id with
      | none => exact haccount
      | some c =>
        refine ⟨fun hs => ?_, fun _ => haccount⟩
        rw [hpending c hview] at hs
        cases hs
  · intro c hc
    rcases hpending with ⟨e, he, hsame⟩ | ⟨hnone, _⟩
    · obtain rfl := Option.some.inj (hc.symm.trans he)
      rw [hc] at haccount
      refine ⟨c, hsame, fun hs hr => ?_, fun hr => ?_, fun w _ _ => ⟨rfl, hsaved⟩⟩
      · rw [hs] at hr
        cases hr
      · rw [hsaved]
        exact haccount.2 (by rw [hr]; decide)
    · rw [hnone] at hc
      cases hc
  · intro status saved hmem
    rw [hws] at hmem
    simp at hmem

theorem decided_of_each
    (h : ∀ id, (DecidedAt d' id ∧ KeptAt call.workspaceId d d' id → TimelyAt call d ws id) ∧
      (TimelyAt call d ws id →
        KeptAt call.workspaceId d d' id ∧ Conclusions.Accounted d'.workspaceOf (d'.candidate? id) (d'.savedFrom id))) :
    ((∀ id, DecidedAt d' id ∧ KeptAt call.workspaceId d d' id) ↔ ∀ id, TimelyAt call d ws id) ∧
      ((∀ id, TimelyAt call d ws id) → d'.Accounted) := by
  refine ⟨⟨fun hall id => (h id).1 (hall id), fun htimely id => ?_⟩, fun htimely id => ((h id).2 (htimely id)).2⟩
  obtain ⟨hkept, haccount⟩ := (h id).2 (htimely id)
  exact ⟨haccount.decided, hkept⟩

/-- **One commit.** Every candidate is decided once exactly when each decision is timely, and then all stay
accounted for. -/
theorem commit_decided {v : Reply} (hd : d.Accounted) (h : Ready call (.ok v) (d, ws)) :
    ((∀ id, DecidedAt (engine.view ws d) id ∧ KeptAt call.workspaceId d (engine.view ws d) id) ↔
        ∀ id, TimelyAt call d ws id) ∧
      ((∀ id, TimelyAt call d ws id) → (engine.view ws d).Accounted) := by
  -- a candidate that no write concerns
  have huntouched : ∀ id, RowKey.candidate id ∉ taken ws → ws.flatMap (Write.savedFor id) = [] →
      (DecidedAt (engine.view ws d) id ∧ KeptAt call.workspaceId d (engine.view ws d) id → TimelyAt call d ws id) ∧
        (TimelyAt call d ws id → KeptAt call.workspaceId d (engine.view ws d) id ∧
          Accounted (engine.view ws d).workspaceOf ((engine.view ws d).candidate? id)
            ((engine.view ws d).savedFrom id)) := by
    intro id hfree hnone
    obtain ⟨haccount, hkept, htimely⟩ := commit_untouched call hd hfree hnone
    exact ⟨fun _ => htimely, fun _ => ⟨hkept, haccount⟩⟩
  have hfirst : ∀ {conclusion revision}, ws = firstWrites conclusion revision →
      conclusion.sourceCandidateId = none → ∀ id, RowKey.candidate id ∉ taken ws ∧
        ws.flatMap (Write.savedFor id) = [] := by
    rintro conclusion revision rfl hsource id
    simp [taken, firstWrites, Write.keys, Write.savedFor, hsource]
  refine decided_of_each fun id => ?_
  cases call with
  | createTurn _ =>
    obtain ⟨_, rfl, _⟩ := h
    exact huntouched id (by simp [taken, Write.keys]) (by simp [Write.savedFor])
  | insertCandidates _ _ _ =>
    obtain ⟨rows, hrows⟩ := h
    obtain ⟨haccount, hkept, htimely⟩ := commit_inserted hd hrows
    exact ⟨fun _ => htimely, fun _ => ⟨hkept, haccount⟩⟩
  | saveCandidates _ command =>
    obtain ⟨savings, hsaves⟩ := h
    have hwrites : ws = savings.flatMap Saving.writes := hsaves.writes
    by_cases hid : ∃ s ∈ savings, s.candidateId = id
    · obtain ⟨s, hs, rfl⟩ := hid
      obtain ⟨c, hc⟩ := hsaves.row s hs
      obtain ⟨hcandidate, hsaved⟩ := saves_at hsaves hs hc
      have hmem : Write.updateCandidate s.candidateId .saved (some s.conclusion.id) ∈ ws := by
        rw [hwrites]
        exact List.mem_flatMap.mpr ⟨s, hs, Saving.mem_writes.mpr (.inr (.inr (.inr rfl)))⟩
      refine commit_saved hd hc rfl hcandidate hsaved ?_ hmem
      intro status saved hw
      rw [hwrites] at hw
      obtain ⟨t, _, hw⟩ := List.mem_flatMap.mp hw
      rcases Saving.mem_writes.mp hw with h | h | h | h
      · cases h
      · cases h
      · cases h
      · exact (Write.updateCandidate.inj h).2.1
    · refine huntouched id (fun hmem => hid (candidate_of_taken (hwrites ▸ hmem))) ?_
      rw [hwrites]
      refine savedFor_nil fun s hs hsource => hid ⟨s, hs, ?_⟩
      rw [hsaves.source s hs] at hsource
      exact Option.some.inj hsource
  | rejectCandidate _ workspaceId candidateId =>
    obtain ⟨hws, c, hc⟩ := h
    have hws : ws = [.updateCandidate candidateId .rejected none] := hws
    by_cases hid : id = candidateId
    · subst hid
      exact commit_rejected hd hc rfl hws
    · refine huntouched id ?_ ?_
      · simp [hws, taken, Write.keys, hid]
      · simp [hws, Write.savedFor]
  | createManual _ _ | saveFromBlock _ _ _ _ =>
    obtain ⟨_, _, hws, _, hsource⟩ := h
    obtain ⟨hfree, hnone⟩ := hfirst hws hsource id
    exact huntouched id hfree hnone
  | revise _ _ =>
    obtain ⟨_, _, rfl, _⟩ := h
    exact huntouched id (by simp [taken, Write.keys]) (by simp [Write.savedFor])
  | archive _ _ _ _ =>
    obtain ⟨rfl, _⟩ := h
    exact huntouched id (by simp [taken, Write.keys]) (by simp [Write.savedFor])
  | deleteConclusion _ _ =>
    obtain ⟨_, _, ⟨rfl, _⟩ | rfl⟩ := h
    · exact huntouched id (by simp [taken]) rfl
    · exact huntouched id (by simp [taken, Write.keys]) (by simp [Write.savedFor])

end Commit

/-! ## Runs -/

/-- The sessions are in order, and every candidate is accounted for. -/
structure Deciding (p : System) : Prop where
  sound : Sound p
  accounted : p.committed.Accounted

theorem deciding_start : Deciding start where
  sound := sound_start
  accounted _ := rfl

/-- **One step.** Candidates are decided once exactly when the step is timely, and then all stay accounted for. -/
theorem deciding_step {p p' : System} {act : Action} (hp : Deciding p) (h : step p act = some p') :
    (DecidedOnce ⟨p, act, p'⟩ ↔ Timely ⟨p, act, p'⟩) ∧ (Timely ⟨p, act, p'⟩ → Deciding p') := by
  have hsound := sound_step hp.sound h
  rcases commit_cases hp.sound h with ⟨hno, hsame⟩ | ⟨i, s, v, rfl, hi, hready, hcommitted⟩
  · -- nothing is committed
    have haccounted : p'.committed.Accounted := hsame ▸ hp.accounted
    have htimely : Timely ⟨p, act, p'⟩ := fun i s hact _ => absurd hact (hno i)
    refine ⟨⟨fun _ => htimely, fun _ id => ⟨(haccounted id).decided, fun c hc => ?_⟩⟩, fun _ => ⟨hsound, haccounted⟩⟩
    have hcandidate : p'.committed.candidate? id = some c := (congrArg (fun d => d.candidate? id) hsame).trans hc
    have hsaved : p'.committed.savedFrom id = p.committed.savedFrom id := congrArg (fun d => d.savedFrom id) hsame
    refine ⟨c, hcandidate, fun hs hr => ?_, ((haccounted id).decided c hcandidate).2.1, fun w _ _ => ⟨rfl, hsaved⟩⟩
    rw [hs] at hr
    cases hr
  · obtain ⟨hiff, hkeep⟩ := commit_decided hp.accounted hready
    rw [← hcommitted] at hiff hkeep
    have hname : namedBy p (.commit i) = s.call.workspaceId := by
      show (p.sessions[i]?).bind _ = _
      rw [hi]
      rfl
    have htimely : Timely ⟨p, .commit i, p'⟩ ↔ ∀ id, TimelyAt s.call p.committed s.writes id := by
      constructor
      · intro htime
        exact htime i s rfl hi
      · rintro hall j t hact hj
        obtain rfl := Server.Action.commit.inj hact
        obtain rfl := Option.some.inj (hi.symm.trans hj)
        exact hall
    refine ⟨?_, fun htime => ⟨hsound, hkeep (htimely.mp htime)⟩⟩
    rw [htimely, ← hiff, ← hname]
    rfl

/-- **Candidates are decided once, in their own workspace, exactly when every decision is timely.** Calls of the
service run concurrently, statement by statement. After every step each candidate has at most one conclusion,
in the workspace of its turn, and none if it was rejected; no commit rejects a candidate that is saved or gives
one that is rejected a conclusion, and a call that names another workspace changes nothing of it: this holds
all along if and only if every transaction commits its decision about a candidate while the candidate is
pending and names its workspace, or rejects it once more. -/
theorem decided_once_iff (acts : List Action) :
    (∀ t ∈ play step start acts, DecidedOnce t) ↔ ∀ t ∈ play step start acts, Timely t :=
  (play_run start acts).forall_congr (I := Deciding) (fun h hp => deciding_step hp h) deciding_start

/-- A turn of workspace `w` with one candidate. -/
def oneCandidate : List Action :=
  .call (.createTurn "w") :: ([.step 0 { id := "t" }, .step 0 {}, .commit 0] ++
  .call (.insertCandidates "e" "t" [{ statement := "s" }]) :: [.step 1 { id := "c" }, .step 1 {}, .commit 1])

/-- A command that saves the candidate into a workspace. -/
def saveInto (workspaceId : Uuid) : Call :=
  .saveCandidates { actorId := some "u" }
    { workspaceId := workspaceId, turnId := "t", selections := [{ candidateId := "c" }], idempotencyKey := "k",
      nonempty := by decide, atMost := by decide, key := by decide }

/-- The rest of a command that saves, once the candidate has been read. -/
def saveStatements (i : Nat) (conclusionId revisionId : Uuid) : List Action :=
  [.step i { id := conclusionId }, .step i {}, .step i { id := revisionId }, .step i {}, .step i {}, .step i {},
    .commit i]

/-- Two commands read the same pending candidate before the first of them commits. -/
def twoSaves : List Action :=
  oneCandidate ++ [.call (saveInto "w"), .step 2 {}, .call (saveInto "w"), .step 3 {}] ++
    saveStatements 2 "k" "r" ++ saveStatements 3 "l" "q"

/-- A command saves the candidate into another workspace. -/
def savedElsewhere : List Action :=
  oneCandidate ++ [.call (saveInto "v"), .step 2 {}] ++ saveStatements 2 "k" "r"

/-- The second command makes a second conclusion of the candidate; the command that names another workspace puts
its conclusion there. -/
theorem not_decided_once :
    (∃ t ∈ play step start twoSaves, ¬ DecidedOnce t) ∧ ∃ t ∈ play step start savedElsewhere, ¬ DecidedOnce t := by
  constructor
  · have htwo : ∃ t ∈ play step start twoSaves,
        (t.post.committed.candidate? "c").isSome ∧ (t.post.committed.savedFrom "c").length = 2 := by
      decide +kernel
    obtain ⟨t, ht, hsome, hlength⟩ := htwo
    refine ⟨t, ht, fun h => ?_⟩
    obtain ⟨c, hc⟩ := Option.isSome_iff_exists.mp hsome
    have honce := ((h "c").1 c hc).1
    omega
  · have helse : ∃ t ∈ play step start savedElsewhere,
        (t.post.committed.candidate? "c").map (fun c => t.post.committed.workspaceOf c.turnId) = some (some "w") ∧
          t.post.committed.savedFrom "c" = ["v"] := by
      decide +kernel
    obtain ⟨t, ht, hhome, hsaved⟩ := helse
    refine ⟨t, ht, fun h => ?_⟩
    obtain ⟨c, hc, hw⟩ := Option.map_eq_some_iff.mp hhome
    have hv := ((h "c").1 c hc).2.2 "v" (by rw [hsaved]; exact List.mem_cons_self)
    rw [hw] at hv
    exact absurd (Option.some.inj hv) (by decide)

end Irip.Conclusions
