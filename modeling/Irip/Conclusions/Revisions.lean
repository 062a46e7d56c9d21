import Irip.Conclusions.Commits

/-!
# `Conclusions.Revisions` — concurrent revisions of a conclusion

Calls of the service revise, archive and delete conclusions at once, statement by statement, each in its
transaction.
-/

namespace Irip.Conclusions

open Runs (Transition play play_run Run)

/-! ## Revisions in order -/

/-- The revisions of a conclusion are numbered 1 to n, and its pointer is to the last of them. -/
def Ordered : Option ResearchConclusion → List ResearchConclusionRevision → Prop
  | none, rs => rs = []
  | some c, rs =>
    rs ≠ [] ∧ rs.map ResearchConclusionRevision.revisionNumber = List.range' 1 rs.length ∧
      c.currentRevisionId = rs.getLast?.map ResearchConclusionRevision.id

/-- Every conclusion has its revisions in order. -/
def Database.Ordered (d : Database) : Prop := ∀ id, Conclusions.Ordered (d.conclusion? id) (d.revisionsOf id)

theorem latest_of_range (rs : List ResearchConclusionRevision) (hne : rs ≠ []) (n : Nat)
    (h : rs.map ResearchConclusionRevision.revisionNumber = List.range' n rs.length) :
    (latest rs).map ResearchConclusionRevision.revisionNumber = some (n + rs.length - 1) := by
  induction rs generalizing n with
  | nil => exact absurd rfl hne
  | cons r rs ih =>
    rw [List.map_cons, List.length_cons, List.range'_succ] at h
    obtain ⟨hr, hrs⟩ := List.cons.inj h
    by_cases hnil : rs = []
    · subst hnil
      simp [latest, hr]
    · have hlast := ih hnil (n + 1) hrs
      obtain ⟨s, hs, hnumber⟩ := Option.map_eq_some_iff.mp hlast
      have hlt : r.revisionNumber < s.revisionNumber := by
        have hpos := List.length_pos_iff.mpr hnil
        omega
      have hlatest : latest (r :: rs) = some s := by
        unfold latest
        rw [hs]
        exact if_pos hlt
      rw [hlatest, Option.map_some, hnumber, List.length_cons]
      congr 1
      omega

theorem next_number {c : ResearchConclusion} {rs : List ResearchConclusionRevision} (h : Ordered (some c) rs) :
    ((latest rs).map ResearchConclusionRevision.revisionNumber).getD 0 + 1 = rs.length + 1 := by
  obtain ⟨hne, hnumbers, _⟩ := h
  have hpos := List.length_pos_iff.mpr hne
  rw [latest_of_range rs hne 1 hnumbers, Option.getD_some]
  omega

theorem Ordered.snoc {rs : List ResearchConclusionRevision} {r : ResearchConclusionRevision}
    {c : ResearchConclusion} (h : rs.map ResearchConclusionRevision.revisionNumber = List.range' 1 rs.length)
    (hr : r.revisionNumber = rs.length + 1) (hc : c.currentRevisionId = some r.id) :
    Ordered (some c) (rs ++ [r]) := by
  refine ⟨?_, ?_, ?_⟩
  · simp
  · rw [List.map_append, List.map_singleton, h, hr, List.length_append, List.length_singleton, List.range'_concat]
    congr 2
    omega
  · rw [List.getLast?_concat, hc]
    rfl

/-! ## Changes under the lock -/

/-- What optimistic locking allows: a change of the statement or of the status goes with the next lock version,
and was made against the current one; what is archived stays so and is not revised. -/
def Locked (expected : Option Int) (d d' : Database) (id : Uuid) : Prop :=
  ∀ c, d.conclusion? id = some c → ∃ c', d'.conclusion? id = some c' ∧
    (c'.status ≠ c.status ∨ d'.revisionsOf id ≠ d.revisionsOf id ∨ c'.currentRevisionId ≠ c.currentRevisionId →
      c'.lockVersion = c.lockVersion + 1 ∧ expected = some c.lockVersion) ∧
    (c.status = .archived → c'.status = .archived ∧ d'.revisionsOf id = d.revisionsOf id)

/-- The lock version the call that commits was made against. -/
def expectedBy (p : System) : Action → Option Int
  | .commit i => (p.sessions[i]?).bind (fun s => s.call.expectedLockVersion)
  | _ => none

/-- A transition after which the revisions are in order, and which changes conclusions under the lock only. -/
def UnderLock (t : Transition System Action) : Prop :=
  t.post.committed.Ordered ∧
    ∀ id, Locked (expectedBy t.pre t.act) t.pre.committed t.post.committed id

/-- A revision finds its conclusion active when it commits, and a deletion finds it archived. -/
def Call.InTime (d : Database) : Call → Prop
  | .revise _ command => ∀ c, d.conclusion? command.conclusionId = some c → c.status ≠ .archived
  | .deleteConclusion _ id => ∀ c, d.conclusion? id = some c → c.status = .archived
  | _ => True

/-- A step that commits no revision of an archived conclusion, and no deletion of an active one. -/
def InTime (t : Transition System Action) : Prop :=
  ∀ i s, t.act = .commit i → t.pre.sessions[i]? = some s → s.call.InTime t.pre.committed

/-! ## One commit -/

section Commit

variable {d : Database} {ws : List Write} {id : Uuid} {expected : Option Int}

theorem Locked.of_same {d' : Database} (hcon : d'.conclusion? id = d.conclusion? id)
    (hrev : d'.revisionsOf id = d.revisionsOf id) : Locked expected d d' id := by
  intro c hc
  refine ⟨c, hcon.trans hc, ?_, fun ha => ⟨ha, hrev⟩⟩
  rintro (h | h | h)
  · exact absurd rfl h
  · exact absurd hrev h
  · exact absurd rfl h

theorem Locked.of_new {d' : Database} (h : d.conclusion? id = none) : Locked expected d d' id := by
  intro c hc
  rw [h] at hc
  cases hc

theorem view_of_not_taken (hguard : Guarded ws) (hid : RowKey.conclusion id ∉ taken ws) :
    (engine.view ws d).conclusion? id = d.conclusion? id ∧
      (engine.view ws d).revisionsOf id = d.revisionsOf id := by
  rw [conclusion?_view, revisionsOf_view, hguard.revisionFor_nil hid, List.append_nil]
  exact ⟨onConclusion_of_not_taken hid _, rfl⟩

theorem ordered_view (hd : d.Ordered) (hguard : Guarded ws)
    (h : ∀ id, RowKey.conclusion id ∈ taken ws →
      Ordered ((engine.view ws d).conclusion? id) ((engine.view ws d).revisionsOf id)) :
    (engine.view ws d).Ordered := by
  intro id
  by_cases hid : RowKey.conclusion id ∈ taken ws
  · exact h id hid
  · obtain ⟨hcon, hrev⟩ := view_of_not_taken (d := d) hguard hid
    rw [hcon, hrev]
    exact hd id

theorem locked_view (hguard : Guarded ws)
    (h : ∀ id, RowKey.conclusion id ∈ taken ws → Locked expected d (engine.view ws d) id) (id : Uuid) :
    Locked expected d (engine.view ws d) id := by
  by_cases hid : RowKey.conclusion id ∈ taken ws
  · exact h id hid
  · obtain ⟨hcon, hrev⟩ := view_of_not_taken (d := d) hguard hid
    exact Locked.of_same hcon hrev

theorem ordered_first {before after : List Write} {conclusion : ResearchConclusion}
    {revision : ResearchConclusionRevision} (hd : d.Ordered) (hnew : First d conclusion revision)
    (hbefore : RowKey.conclusion conclusion.id ∉ taken before) (hbeforeRev : Guarded before)
    (hafter : RowKey.conclusion conclusion.id ∉ taken after) (hafterRev : Guarded after) :
    Ordered ((engine.view (before ++ firstWrites conclusion revision ++ after) d).conclusion? conclusion.id)
      ((engine.view (before ++ firstWrites conclusion revision ++ after) d).revisionsOf conclusion.id) := by
  have hnone : d.revisionsOf conclusion.id = [] := by
    have horder := hd conclusion.id
    rw [hnew.fresh] at horder
    exact horder
  have hcon : (engine.view (before ++ firstWrites conclusion revision ++ after) d).conclusion? conclusion.id
      = some { conclusion with currentRevisionId := some revision.id } := by
    rw [conclusion?_view, List.foldl_append, List.foldl_append, onConclusion_of_not_taken hbefore,
      onConclusion_of_not_taken hafter, hnew.fresh]
    simp [firstWrites, Write.onConclusion, ConclusionUpdate.apply]
  have hrev : (engine.view (before ++ firstWrites conclusion revision ++ after) d).revisionsOf conclusion.id
      = [] ++ [revision] := by
    rw [revisionsOf_view, List.flatMap_append, List.flatMap_append, hbeforeRev.revisionFor_nil hbefore,
      hafterRev.revisionFor_nil hafter, hnone]
    simp [firstWrites, Write.revisionFor, hnew.of]
  rw [hcon, hrev]
  exact Ordered.snoc rfl hnew.number rfl

theorem ordered_saves {workspaceId : Uuid} {savings : List Saving} (hd : d.Ordered)
    (h : Saves workspaceId savings d ws) (hid : RowKey.conclusion id ∈ taken ws) :
    d.conclusion? id = none ∧
      Ordered ((engine.view ws d).conclusion? id) ((engine.view ws d).revisionsOf id) := by
  obtain ⟨s, hs, rfl⟩ := conclusion_of_taken (h.writes ▸ hid)
  obtain ⟨pre, post, rfl⟩ := List.append_of_mem hs
  -- the other selections have other conclusions
  have hnodup := h.new
  rw [List.map_append, List.map_cons, List.nodup_append, List.nodup_cons] at hnodup
  obtain ⟨_, ⟨hpost, _⟩, hpre⟩ := hnodup
  have hother : ∀ savings : List Saving, s.conclusion.id ∉ savings.map (fun s => s.conclusion.id) →
      (∀ t ∈ savings, t ∈ pre ++ s :: post) →
      RowKey.conclusion s.conclusion.id ∉ taken (savings.flatMap Saving.writes) ∧
        Guarded (savings.flatMap Saving.writes) := by
    intro savings hne hsub
    constructor
    · intro hmem
      obtain ⟨t, ht, hid⟩ := conclusion_of_taken hmem
      exact hne (List.mem_map.mpr ⟨t, ht, hid⟩)
    · intro row hrow
      obtain ⟨t, ht, hrow⟩ := List.mem_flatMap.mp hrow
      obtain rfl : row = t.revision := by simpa [Saving.writes, firstWrites] using hrow
      rw [(h.first t (hsub t ht)).of]
      have hmem : Write.insertConclusion t.conclusion ∈ t.writes := List.mem_append_left _ List.mem_cons_self
      exact List.mem_flatMap.mpr ⟨_, List.mem_flatMap.mpr ⟨t, ht, hmem⟩, List.mem_singleton.mpr rfl⟩
  obtain ⟨hbefore, hbeforeRev⟩ := hother pre (fun hmem => hpre _ hmem _ List.mem_cons_self rfl)
    (fun t ht => List.mem_append_left _ ht)
  obtain ⟨hafter, hafterRev⟩ := hother post hpost (fun t ht => List.mem_append_right _ (List.mem_cons_of_mem _ ht))
  have hwrites : ws = pre.flatMap Saving.writes ++ firstWrites s.conclusion s.revision ++
      ([.updateCandidate s.candidateId .saved (some s.conclusion.id)] ++ post.flatMap Saving.writes) := by
    rw [h.writes, List.flatMap_append, List.flatMap_cons]
    simp [Saving.writes]
  rw [hwrites]
  refine ⟨(h.first s hs).fresh, ordered_first hd (h.first s hs) hbefore hbeforeRev ?_ ?_⟩
  · rw [mem_taken_append, not_or]
    exact ⟨by simp [taken, Write.keys], hafter⟩
  · intro row hrow
    rcases List.mem_append.mp hrow with hrow | hrow
    · simp at hrow
    · exact mem_taken_append.mpr (.inr (hafterRev row hrow))

variable {conclusionId : Uuid}

/-- **A revision** has the next number; it keeps to the lock exactly when its conclusion is active. -/
theorem revised_view {version : Int} (hd : d.Ordered)
    (h : Revised conclusionId version d ws) (hid : RowKey.conclusion id ∈ taken ws) :
    id = conclusionId ∧ Ordered ((engine.view ws d).conclusion? id) ((engine.view ws d).revisionsOf id) ∧
      (Locked (some version) d (engine.view ws d) id ↔ ∀ c, d.conclusion? id = some c → c.status ≠ .archived) := by
  obtain ⟨c, r, rfl, hc, hversion, hof, hnumber⟩ := h
  obtain rfl : id = conclusionId := by simpa [taken, Write.keys] using hid
  have horder := hd id
  rw [hc] at horder
  rw [next_number horder] at hnumber
  have hcon : (engine.view [.updateConclusion id (.lock (version + 1)), .insertRevision r,
      .updateConclusion id (.current r.id)] d).conclusion? id
        = some { c with lockVersion := version + 1, currentRevisionId := some r.id } := by
    rw [conclusion?_view, hc]
    simp [Write.onConclusion, ConclusionUpdate.apply]
  have hrev : (engine.view [.updateConclusion id (.lock (version + 1)), .insertRevision r,
      .updateConclusion id (.current r.id)] d).revisionsOf id = d.revisionsOf id ++ [r] := by
    rw [revisionsOf_view]
    simp [Write.revisionFor, hof]
  refine ⟨rfl, ?_, ?_⟩
  · rw [hcon, hrev]
    exact Ordered.snoc horder.2.1 hnumber rfl
  · constructor
    · intro hlocked c' hc' harchived
      obtain ⟨_, _, _, hkeep⟩ := hlocked c' hc'
      have hsame := (hkeep harchived).2
      rw [hrev] at hsame
      exact absurd hsame (by simp)
    · intro hactive c' hc'
      rw [hc] at hc'
      obtain rfl := Option.some.inj hc'
      refine ⟨_, hcon, fun _ => ⟨?_, ?_⟩, fun ha => absurd ha (hactive c hc)⟩
      · rw [hversion]
      · rw [hversion]

/-- **An UPDATE of a conclusion** that leaves its pointer alone keeps its revisions in order. -/
theorem ordered_update {u : ConclusionUpdate} (hd : d.Ordered)
    (hu : ∀ c, (u.apply c).currentRevisionId = c.currentRevisionId)
    (hid : RowKey.conclusion id ∈ taken [.updateConclusion conclusionId u]) :
    Ordered ((engine.view [.updateConclusion conclusionId u] d).conclusion? id)
      ((engine.view [.updateConclusion conclusionId u] d).revisionsOf id) := by
  obtain rfl : id = conclusionId := by simpa [taken, Write.keys] using hid
  have hrev : (engine.view [.updateConclusion id u] d).revisionsOf id = d.revisionsOf id := by
    rw [revisionsOf_view]
    simp [Write.revisionFor]
  have horder := hd id
  rw [conclusion?_view, hrev]
  cases hc : d.conclusion? id with
  | none =>
    rw [hc] at horder
    exact horder
  | some c =>
    rw [hc] at horder
    simp only [List.foldl_cons, List.foldl_nil, Write.onConclusion, Option.map_some, if_pos]
    exact ⟨horder.1, horder.2.1, (hu c).trans horder.2.2⟩

/-- **An archival** keeps to the lock. -/
theorem locked_archive {version : Int} {c : ResearchConclusion}
    (hc : d.conclusion? conclusionId = some c) (hversion : c.lockVersion = version)
    (hid : RowKey.conclusion id ∈ taken [.updateConclusion conclusionId (.archive (version + 1))]) :
    Locked (some version) d (engine.view [.updateConclusion conclusionId (.archive (version + 1))] d) id := by
  obtain rfl : id = conclusionId := by simpa [taken, Write.keys] using hid
  intro c' hc'
  rw [hc] at hc'
  obtain rfl := Option.some.inj hc'
  refine ⟨{ c with status := .archived, lockVersion := version + 1 }, ?_, fun _ => ⟨?_, ?_⟩, fun _ => ⟨rfl, ?_⟩⟩
  · rw [conclusion?_view, hc]
    simp [Write.onConclusion, ConclusionUpdate.apply]
  · rw [hversion]
  · rw [hversion]
  · rw [revisionsOf_view]
    simp [Write.revisionFor]

/-- **A deletion** keeps to the lock exactly when its conclusion is archived already. -/
theorem locked_delete (hid : RowKey.conclusion id ∈ taken [.updateConclusion conclusionId .archived]) :
    id = conclusionId ∧ (Locked none d (engine.view [.updateConclusion conclusionId .archived] d) id ↔
        ∀ c, d.conclusion? id = some c → c.status = .archived) := by
  obtain rfl : id = conclusionId := by simpa [taken, Write.keys] using hid
  have hcon : ∀ c, d.conclusion? id = some c →
      (engine.view [.updateConclusion id .archived] d).conclusion? id = some { c with status := .archived } := by
    intro c hc
    rw [conclusion?_view, hc]
    simp [Write.onConclusion, ConclusionUpdate.apply]
  have hrev : (engine.view [.updateConclusion id .archived] d).revisionsOf id = d.revisionsOf id := by
    rw [revisionsOf_view]
    simp [Write.revisionFor]
  refine ⟨rfl, fun hlocked c hc => ?_, fun harchived c hc => ?_⟩
  · by_contra hactive
    obtain ⟨c', hc', hchange, _⟩ := hlocked c hc
    rw [hcon c hc] at hc'
    obtain rfl := Option.some.inj hc'
    have hnone := (hchange (.inl (Ne.symm hactive))).2
    cases hnone
  · have hsame : ({ c with status := .archived } : ResearchConclusion) = c := by
      rw [← harchived c hc]
    refine ⟨_, hcon c hc, fun hchange => ?_, fun _ => ⟨rfl, hrev⟩⟩
    rw [hsame] at hchange
    rcases hchange with h | h | h
    · exact absurd rfl h
    · exact absurd hrev h
    · exact absurd rfl h

/-- **One commit.** It leaves the revisions in order; it keeps to the lock exactly when its call is in time. -/
theorem commit_under_lock {c : Call} {v : Reply} (hd : d.Ordered) (h : Ready c (.ok v) (d, ws)) :
    (engine.view ws d).Ordered ∧
      ((∀ id, Locked c.expectedLockVersion d (engine.view ws d) id) ↔ c.InTime d) := by
  have hguard := h.guarded
  -- a call whose commit keeps to the lock in any case
  have hfree : (∀ id, RowKey.conclusion id ∈ taken ws → Locked c.expectedLockVersion d (engine.view ws d) id ∧
      Ordered ((engine.view ws d).conclusion? id) ((engine.view ws d).revisionsOf id)) → c.InTime d →
      (engine.view ws d).Ordered ∧
        ((∀ id, Locked c.expectedLockVersion d (engine.view ws d) id) ↔ c.InTime d) := fun hall htime =>
    ⟨ordered_view hd hguard (fun id hid => (hall id hid).2),
      fun _ => htime, fun _ => locked_view hguard (fun id hid => (hall id hid).1)⟩
  have hfirst : ∀ {conclusion revision}, ws = firstWrites conclusion revision → First d conclusion revision →
      ∀ id, RowKey.conclusion id ∈ taken ws → d.conclusion? id = none ∧
        Ordered ((engine.view ws d).conclusion? id) ((engine.view ws d).revisionsOf id) := by
    rintro conclusion revision rfl hnew id hid
    obtain rfl : id = conclusion.id := by simpa [taken, firstWrites, Write.keys] using hid
    have hnil : Guarded [] := fun row hrow => by cases hrow
    have hfree : RowKey.conclusion conclusion.id ∉ taken [] := by simp [taken]
    have horder := ordered_first hd hnew hfree hnil hfree hnil
    rw [List.nil_append, List.append_nil] at horder
    exact ⟨hnew.fresh, horder⟩
  cases c with
  | createTurn _ =>
    obtain ⟨_, rfl, _⟩ := h
    exact hfree (fun id hid => absurd hid (by simp [taken, Write.keys])) trivial
  | insertCandidates _ _ _ =>
    obtain ⟨rows, rfl, _⟩ := h
    refine hfree (fun id hid => absurd hid ?_) trivial
    simp [taken, Write.keys]
  | saveCandidates _ command =>
    obtain ⟨savings, hsaves⟩ := h
    refine hfree (fun id hid => ?_) trivial
    obtain ⟨hnone, horder⟩ := ordered_saves hd hsaves hid
    exact ⟨Locked.of_new hnone, horder⟩
  | rejectCandidate _ _ _ =>
    obtain ⟨rfl, _⟩ := h
    exact hfree (fun id hid => absurd hid (by simp [taken, Write.keys])) trivial
  | createManual _ _ | saveFromBlock _ _ _ _ =>
    obtain ⟨_, _, hws, hnew, _⟩ := h
    refine hfree (fun id hid => ?_) trivial
    obtain ⟨hnone, horder⟩ := hfirst hws hnew id hid
    exact ⟨Locked.of_new hnone, horder⟩
  | revise _ command =>
    have hkey : RowKey.conclusion command.conclusionId ∈ taken ws := by
      obtain ⟨_, _, rfl, _⟩ := h
      simp [taken, Write.keys]
    refine ⟨ordered_view hd hguard (fun id hid => (revised_view hd h hid).2.1), ?_, ?_⟩
    · intro hall
      exact (revised_view hd h hkey).2.2.mp (hall _)
    · intro htime
      refine locked_view hguard (fun id hid => ?_)
      obtain ⟨rfl, _, hiff⟩ := revised_view hd h hid
      exact hiff.mpr htime
  | archive _ _ _ expected =>
    obtain ⟨rfl, c, hc, hversion⟩ := h
    exact hfree (fun id hid => ⟨locked_archive hc hversion hid, ordered_update hd (fun _ => rfl) hid⟩) trivial
  | deleteConclusion _ conclusionId =>
    obtain ⟨c, hc, ⟨rfl, harchived⟩ | rfl⟩ := h
    · refine hfree (fun id hid => absurd hid (by simp [taken])) ?_
      intro c' hc'
      rw [hc] at hc'
      exact Option.some.inj hc' ▸ harchived
    · have hkey : RowKey.conclusion conclusionId ∈ taken [.updateConclusion conclusionId .archived] := by
        simp [taken, Write.keys]
      refine ⟨ordered_view hd hguard (fun id hid => ordered_update hd (fun _ => rfl) hid), ?_, ?_⟩
      · intro hall
        exact (locked_delete hkey).2.mp (hall _)
      · intro htime
        refine locked_view hguard (fun id hid => ?_)
        obtain ⟨rfl, hiff⟩ := locked_delete (d := d) hid
        exact hiff.mpr htime

end Commit

/-! ## Runs -/

/-- The sessions are in order, and so are the revisions. -/
structure Revising (p : System) : Prop where
  sound : Sound p
  ordered : p.committed.Ordered

theorem revising_start : Revising start where
  sound := sound_start
  ordered _ := rfl

/-- **One step.** It keeps the revisions in order, and keeps to the lock exactly when it is in time. -/
theorem revising_step {p p' : System} {act : Action} (hp : Revising p) (h : step p act = some p') :
    (UnderLock ⟨p, act, p'⟩ ↔ InTime ⟨p, act, p'⟩) ∧ Revising p' := by
  have hsound := sound_step hp.sound h
  rcases commit_cases hp.sound h with ⟨hno, hsame⟩ | ⟨i, s, v, rfl, hi, hready, hcommitted⟩
  · -- nothing is committed
    have hordered : p'.committed.Ordered := hsame ▸ hp.ordered
    have htime : InTime ⟨p, act, p'⟩ := fun i s hact _ => absurd hact (hno i)
    refine ⟨⟨fun _ => htime, fun _ => ⟨hordered, fun id => ?_⟩⟩, hsound, hordered⟩
    exact Locked.of_same (congrArg (fun d => d.conclusion? id) hsame) (congrArg (fun d => d.revisionsOf id) hsame)
  · obtain ⟨hordered, hiff⟩ := commit_under_lock hp.ordered hready
    rw [← hcommitted] at hordered hiff
    have hexpected : expectedBy p (.commit i) = s.call.expectedLockVersion := by
      show (p.sessions[i]?).bind _ = _
      rw [hi]
      rfl
    refine ⟨⟨fun hlock => ?_, fun htime => ⟨hordered, ?_⟩⟩, hsound, hordered⟩
    · rintro j t hact hj
      obtain rfl := Server.Action.commit.inj hact
      obtain rfl := Option.some.inj (hi.symm.trans hj)
      exact hiff.mp (hexpected ▸ hlock.2)
    · show ∀ id, Locked (expectedBy p (.commit i)) _ _ id
      rw [hexpected]
      exact hiff.mpr (htime i s rfl hi)

/-- **Revisions follow optimistic locking exactly when every revision and every deletion is in time.** Calls of the
service run concurrently, statement by statement. After every step the revisions of each conclusion are
numbered 1 to n with its pointer on the last of them, every change of its statement or of its status has
raised its lock version by one and was made against the version before, and an archived conclusion has stayed
archived and unrevised: this holds all along if and only if no revision is committed for a conclusion that is
archived, and no deletion for one that is active. -/
theorem locking_iff (acts : List Action) :
    (∀ t ∈ play step start acts, UnderLock t) ↔ ∀ t ∈ play step start acts, InTime t :=
  (play_run start acts).forall_congr (I := Revising)
    (fun h hp => ⟨(revising_step hp h).1, fun _ => (revising_step hp h).2⟩) revising_start

/-- Every conclusion has its revisions in order, and they are only appended. -/
structure Appends (t : Transition System Action) : Prop where
  ordered : t.post.committed.Ordered
  appended : ∀ id, t.pre.committed.revisionsOf id <+: t.post.committed.revisionsOf id

/-- **Revisions are only appended, in time or not.** After every step of every interleaving, revisions and deletions that
come too late included, those of each conclusion are numbered 1 to n with its pointer on the last one, and begin
with those there were before. -/
theorem revisions_append (acts : List Action) : ∀ t ∈ play step start acts, Appends t := by
  intro t ht
  have hrun : Run step start _ _ := play_run start acts
  obtain ⟨hpre, hpost⟩ := hrun.invariant_of_step (fun h hp => (revising_step hp h).2) revising_start t ht
  refine ⟨hpost.ordered, fun id => ?_⟩
  rcases commit_cases hpre.sound (hrun.step_of_mem ht) with ⟨-, hsame⟩ | ⟨i, s, v, -, -, -, hcommitted⟩
  · exact hsame ▸ List.prefix_refl _
  · rw [hcommitted, revisionsOf_view]
    exact List.prefix_append _ _

/-- The statements of session `i`, one after the other. -/
def statements (i : Nat) (as : List Answer) : List Action := as.map (.step i)

/-- A conclusion written by hand. -/
def oneConclusion : List Action :=
  .call (.createManual { actorId := some "u" }
    { workspaceId := "w", statement := "s", idempotencyKey := "k", nonblank := by decide, key := idempotencyKey_k }) ::
  (statements 0 [{ id := "c" }, {}, { id := "r" }, {}, {}] ++ [.commit 0])

/-- It is archived, and revised at the lock version it has then. -/
def archivedThenRevised : List Action :=
  oneConclusion ++
  (.call (.archive { actorId := some "u" } "w" "c" 0) :: (statements 1 [{}, {}] ++ [.commit 1])) ++
  (.call (.revise { actorId := some "u" }
    { workspaceId := "w", conclusionId := "c", statement := "t", expectedLockVersion := 1, nonblank := by decide }) ::
  (statements 2 [{}, {}, {}, { id := "q" }, {}, {}] ++ [.commit 2]))

theorem revisions_append_archived : ∃ t ∈ play step start archivedThenRevised,
    (t.pre.committed.revisionsOf "c").length < (t.post.committed.revisionsOf "c").length ∧ Appends t := by
  have hrevised : ∃ t ∈ play step start archivedThenRevised,
      (t.pre.committed.revisionsOf "c").length < (t.post.committed.revisionsOf "c").length := by decide +kernel
  obtain ⟨t, ht, hlt⟩ := hrevised
  exact ⟨t, ht, hlt, revisions_append archivedThenRevised t ht⟩

/-- It is deleted, by a session that row level security lets see it. -/
def deleted : List Action :=
  oneConclusion ++ (.call (.deleteConclusion "w" "c") :: (statements 1 [{}, {}] ++ [.commit 1]))

/-- The archived conclusion gets a second revision; the deletion changes the status and leaves the lock version at
0. -/
theorem not_under_lock :
    (∃ t ∈ play step start archivedThenRevised, ¬ UnderLock t) ∧ ∃ t ∈ play step start deleted, ¬ UnderLock t := by
  constructor
  · have hrevised : ∃ t ∈ play step start archivedThenRevised,
        (t.pre.committed.conclusion? "c").map (fun c => c.status) = some .archived ∧
        (t.pre.committed.revisionsOf "c").length = 1 ∧ (t.post.committed.revisionsOf "c").length = 2 := by
      decide +kernel
    obtain ⟨t, ht, hstatus, hone, htwo⟩ := hrevised
    refine ⟨t, ht, fun h => ?_⟩
    obtain ⟨c, hc, harchived⟩ := Option.map_eq_some_iff.mp hstatus
    obtain ⟨_, _, _, hkeep⟩ := h.2 "c" c hc
    rw [(hkeep harchived).2] at htwo
    omega
  · have hdeleted : ∃ t ∈ play step start deleted,
        (t.pre.committed.conclusion? "c").map (fun c => (c.status, c.lockVersion)) = some (.active, 0) ∧
        (t.post.committed.conclusion? "c").map (fun c => (c.status, c.lockVersion)) = some (.archived, 0) := by
      decide +kernel
    obtain ⟨t, ht, hpre, hpost⟩ := hdeleted
    refine ⟨t, ht, fun h => ?_⟩
    obtain ⟨c, hc, hactive⟩ := Option.map_eq_some_iff.mp hpre
    obtain ⟨c', hc', hchange, _⟩ := h.2 "c" c hc
    rw [hc', Option.map_some] at hpost
    obtain ⟨hstatus', hlock'⟩ := answer_inj hpost
    obtain ⟨hstatus, hlock⟩ := Prod.mk.inj hactive
    have hnext := (hchange (.inl (by rw [hstatus', hstatus]; decide))).1
    omega

end Irip.Conclusions
