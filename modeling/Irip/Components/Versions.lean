import Irip.Components.Transactions

/-!
# `Components.Versions` — the active version of a component, and the digest of its manifest

`Sincere` says how a publication, and how an activation, may end; `Settled` is the invariant on the rows.
-/

namespace Irip.Components

open Runs Server Choice

/-! ## Observations -/

/-- The version that was last published or activated, by component. -/
abbrev History := Dict Uuid Uuid

/-- The three reads give the version for the component, to everybody who sees it. -/
structure Reads (d : Database) (id : Uuid) (c : Component) (e : Uuid × ComponentVersion) : Prop where
  latest : ∀ r : Reader, id ∉ r.hidden → (getLatest r d c.name).toOption = some e
  byId : ∀ r : Reader, id ∉ r.hidden → (getByComponentId r d id).toOption = some e
  listed : ∀ r : Reader, id ∉ r.hidden → ((id, c), e) ∈ listAll r d none none
  only : ∀ (r : Reader) (kind status : Option String), ∀ x ∈ listAll r d kind status, x.1.1 = id → x.2 = e

/-- The versions of a component have different numbers, the reads agree on the one that was last published or
activated, and a digest is that of the text it is stored with. -/
structure Honest (g : History) (d : Database) : Prop where
  distinct : ∀ vid vid' v v', d.versions.get? vid = some v → d.versions.get? vid' = some v' →
    v.componentId = v'.componentId → v.version = v'.version → vid = vid'
  agree : ∀ id c, d.components.get? id = some c → ∃ vid v, g.get? id = some vid ∧ Reads d id c (vid, v)
  digest : ∀ vid v, d.versions.get? vid = some v → v.manifestSha256 = Sha256.hexdigest v.manifestYaml.toList

/-- What a reply adds to the history. -/
def Reply.note (g : History) : Reply → History
  | .version componentId id => g.set componentId id
  | _ => g

/-- The session whose commit is next. -/
def committing (t : Transition Sys Step) : Option (Session Call Write Op Res Exn Reply) :=
  match t.act with
  | .commit i => t.pre.sessions[i]?
  | _ => none

/-- What a session is about to return. -/
def reply? (s : Session Call Write Op Res Exn Reply) : Option Reply :=
  match s.rest with
  | some (.ret v) => some v
  | _ => none

/-- The history after a step. -/
def note (g : History) (t : Transition Sys Step) : History :=
  match (committing t).bind reply? with
  | some v => v.note g
  | none => g

/-! ## The condition -/

/-- The version that is to be inserted. -/
def insertedVersion (ws : List Write) : Option ComponentVersion :=
  ws.findSome? (fun | .insertVersion _ row => some row | _ => none)

/-- The component that is to be inserted. -/
def insertedComponent (ws : List Write) : Option Component :=
  ws.findSome? (fun | .insertComponent _ row => some row | _ => none)

/-- A publication keeps the manifest's text when it puts the component's name there, it began after the versions there
are, and the name of a new component is not in use. -/
structure Publishes (d : Database) (manifest : ComponentManifest) (id : Uuid) (ws : List Write)
    (row : ComponentVersion) : Prop where
  text : Sha256.hexdigest (updatedYaml (((insertedComponent ws).map Component.name).getD manifest.name)
    manifest.rawYaml).toList = Sha256.hexdigest manifest.rawYaml.toList
  newest : ∀ e ∈ d.versionsOf id, e.2.createdAt < row.createdAt
  unused : ∀ c ∈ insertedComponent ws, ∀ e ∈ d.components.entries, e.2.name ≠ c.name

/-- The component points to the version. -/
def PointsTo (d : Database) (id vid : Uuid) : Prop := ∀ c ∈ d.components.get? id, c.activeVersionId = some vid

/-- The version a call gives back, with its component. -/
def Reply.version? : Reply → Option (Uuid × Uuid)
  | .version componentId id => some (componentId, id)
  | _ => none

/-- The manifest a call publishes. -/
def Call.manifest? : Call → Option ComponentManifest
  | .publish manifest => some manifest
  | _ => none

/-- How a call may end: a publication that inserts a version as above; one that does not, and an activation, with the
version that is active. -/
structure MayEnd (d : Database) (c : Call) (v : Reply) (ws : List Write) : Prop where
  inserted : ∀ e ∈ v.version?, ∀ manifest ∈ c.manifest?, ∀ row ∈ insertedVersion ws, Publishes d manifest e.1 ws row
  kept : ∀ e ∈ v.version?, (insertedVersion ws).isNone = true → PointsTo d e.1 e.2

/-- A call that commits ends as it may. -/
def Sincere (t : Transition Sys Step) : Prop :=
  ∀ s ∈ committing t, ∀ v ∈ reply? s, MayEnd t.pre.committed s.call v s.writes

instance (d : Database) (manifest : ComponentManifest) (id : Uuid) (ws : List Write) (row : ComponentVersion) :
    Decidable (Publishes d manifest id ws row) :=
  decidable_of_iff (_ ∧ _ ∧ _) ⟨fun h => ⟨h.1, h.2.1, h.2.2⟩, fun h => ⟨h.text, h.newest, h.unused⟩⟩

instance (d : Database) (id vid : Uuid) : Decidable (PointsTo d id vid) :=
  inferInstanceAs (Decidable (∀ c ∈ d.components.get? id, c.activeVersionId = some vid))

instance (d : Database) (c : Call) (v : Reply) (ws : List Write) : Decidable (MayEnd d c v ws) :=
  decidable_of_iff (_ ∧ _) ⟨fun h => ⟨h.1, h.2⟩, fun h => ⟨h.inserted, h.kept⟩⟩

instance (t : Transition Sys Step) : Decidable (Sincere t) :=
  inferInstanceAs (Decidable (∀ s ∈ committing t, ∀ v ∈ reply? s, MayEnd t.pre.committed s.call v s.writes))

/-! ## The invariant -/

/-- The component points to the version last published or activated, which is the newest it has. -/
structure Leads (g : History) (d : Database) (id : Uuid) (c : Component) (vid : Uuid) (v : ComponentVersion) : Prop where
  points : c.activeVersionId = some vid
  noted : g.get? id = some vid
  found : d.versions.get? vid = some v
  isOf : v.componentId = id
  newest : ∀ u w, d.versions.get? u = some w → w.componentId = id → u ≠ vid → w.createdAt < v.createdAt

/-- The registry is in order. -/
structure Settled (g : History) (d : Database) : Prop where
  named : ∀ id id' c c', d.components.get? id = some c → d.components.get? id' = some c' → c.name = c'.name →
    id = id'
  current : ∀ id c, d.components.get? id = some c → ∃ vid v, Leads g d id c vid v
  owned : ∀ vid v, d.versions.get? vid = some v → (d.components.get? v.componentId).isSome = true
  distinct : ∀ vid vid' v v', d.versions.get? vid = some v → d.versions.get? vid' = some v' →
    v.componentId = v'.componentId → v.version = v'.version → vid = vid'
  published : ∀ vid v, d.versions.get? vid = some v → v.status = "published"
  digest : ∀ vid v, d.versions.get? vid = some v → v.manifestSha256 = Sha256.hexdigest v.manifestYaml.toList

theorem settled_empty : Settled ∅ {} where
  named _ _ _ _ h := by cases h
  current _ _ h := by cases h
  owned _ _ h := by cases h
  distinct _ _ _ _ h := by cases h
  published _ _ h := by cases h
  digest _ _ h := by cases h

variable {g : History} {d d' : Database} {id vid : Uuid} {c : Component} {v : ComponentVersion}

theorem mem_versionsOf {e : Uuid × ComponentVersion} :
    e ∈ d.versionsOf id ↔ d.versions.get? e.1 = some e.2 ∧ e.2.componentId = id := by
  obtain ⟨u, w⟩ := e
  rw [Database.versionsOf, List.mem_filter, decide_eq_true_eq, Dict.get?_eq_some_iff]

/-- The newest version of a component is always the same one exactly if it is newer than any other. -/
theorem newest_always_iff : (∀ n, pick n (latest (fun e => e.2.createdAt) (d.versionsOf id)) = some (vid, v)) ↔
    (d.versions.get? vid = some v ∧ v.componentId = id) ∧
      ∀ u w, d.versions.get? u = some w → w.componentId = id → u ≠ vid → w.createdAt < v.createdAt := by
  rw [latest_always_iff, mem_versionsOf]
  refine and_congr_right fun hv => ⟨fun h u w hw hid hne => ?_, fun h e he hne => ?_⟩
  · exact h (u, w) (mem_versionsOf.mpr ⟨hw, hid⟩) (fun heq => hne (congrArg Prod.fst heq))
  · obtain ⟨hw, hid⟩ := mem_versionsOf.mp he
    refine h e.1 e.2 hw hid (fun heq => hne (Prod.ext heq ?_))
    rw [heq, hv.1] at hw
    exact (Option.some.inj hw).symm

/-! What the reads give. -/

theorem byId_eq (r : Reader) (hsome : (d.components.get? id).isSome = true) (hid : id ∉ r.hidden) :
    (getByComponentId r d id).toOption = pick r.row (latest (fun e => e.2.createdAt) (d.versionsOf id)) := by
  unfold getByComponentId
  rw [if_pos (by simp [hsome, hid])]
  cases pick r.row (latest (fun e => e.2.createdAt) (d.versionsOf id)) with
  | none => rfl
  | some e => rfl

theorem mem_of_byId {r : Reader} {e : Uuid × ComponentVersion} (hsome : (d.components.get? id).isSome = true)
    (hid : id ∉ r.hidden) (h : (getByComponentId r d id).toOption = some e) :
    d.versions.get? e.1 = some e.2 ∧ e.2.componentId = id := by
  rw [byId_eq r hsome hid] at h
  exact mem_versionsOf.mp (mem_latest.mp (mem_of_pick h)).1

theorem mem_listAll {r : Reader} {kind status : Option String} {x : (Uuid × Component) × (Uuid × ComponentVersion)}
    (h : x ∈ listAll r d kind status) : x.1 ∈ d.components.entries ∧ listed r d x.1 = some x := by
  unfold listAll at h
  rw [(StableSort.perm_sortBy _).mem_iff, List.mem_filter, List.mem_filter, List.mem_filterMap] at h
  obtain ⟨⟨⟨e, he, hlisted⟩, -⟩, -⟩ := h
  have hx : e = x.1 := by
    unfold listed at hlisted
    obtain ⟨u, -, hu⟩ := Option.map_eq_some_iff.mp hlisted
    rw [← hu]
  subst hx
  simp only [List.mem_append, List.mem_filter] at he
  exact ⟨he.elim (fun h => h.1.1) (fun h => h.1.1), hlisted⟩

theorem mem_listAll_none {r : Reader} {e : Uuid × Component} {x : (Uuid × Component) × (Uuid × ComponentVersion)}
    (he : e ∈ d.components.entries) (hid : e.1 ∉ r.hidden) (hlisted : listed r d e = some x) :
    x ∈ listAll r d none none := by
  unfold listAll
  rw [(StableSort.perm_sortBy _).mem_iff, List.mem_filter, List.mem_filter, List.mem_filterMap]
  refine ⟨⟨⟨e, ?_, hlisted⟩, rfl⟩, rfl⟩
  simp only [List.mem_append, List.mem_filter, decide_eq_true_eq]
  cases hjoined : (e.2.activeVersionId.bind d.versions.get?).isSome with
  | true => exact .inl ⟨⟨he, hid⟩, rfl⟩
  | false => exact .inr ⟨⟨he, hid⟩, rfl⟩

/-- **Where the registry is in order, the reads agree.** -/
theorem Settled.reads (h : Settled g d) (hc : d.components.get? id = some c) (hl : Leads g d id c vid v) :
    Reads d id c (vid, v) := by
  have hlisted : ∀ r, listed r d (id, c) = some ((id, c), (vid, v)) := by
    intro r
    simp [listed, hl.points, hl.found]
  constructor
  · intro r hid
    -- nobody else has the name, and the pointer leads to a published version
    have hpick : pick r.row (d.components.entries.filter (fun e => e.2.name = c.name && e.1 ∉ r.hidden)) =
        some (id, c) := by
      refine pick_always_iff.mpr ⟨?_, fun e he => ?_⟩ r.row
      · exact List.mem_filter.mpr ⟨Dict.get?_eq_some_iff.mp hc, by simp [hid]⟩
      · obtain ⟨hmem, hname⟩ := List.mem_filter.mp he
        rw [Bool.and_eq_true, decide_eq_true_eq] at hname
        have hget := Dict.get?_eq_some_iff.mpr hmem
        have hsame := h.named e.1 id e.2 c hget hc hname.1
        refine Prod.ext hsame ?_
        rw [hsame, hc] at hget
        exact (Option.some.inj hget).symm
    have hactive : d.active c = some (vid, v) := by
      simp [Database.active, hl.points, hl.found, h.published vid v hl.found]
    unfold getLatest
    rw [hpick]
    simp only [hactive, Option.some_or]
    rfl
  · intro r hid
    rw [byId_eq r (Option.isSome_of_eq_some hc) hid]
    exact newest_always_iff.mpr ⟨⟨hl.found, hl.isOf⟩, hl.newest⟩ r.row
  · intro r hid
    exact mem_listAll_none (Dict.get?_eq_some_iff.mp hc) hid (hlisted r)
  · intro r kind status x hx hid
    obtain ⟨hmem, hlisted'⟩ := mem_listAll hx
    have hsame : x.1 = (id, c) := by
      have hget := Dict.get?_eq_some_iff.mpr hmem
      rw [hid, hc] at hget
      exact Prod.ext hid (Option.some.inj hget).symm
    rw [hsame, hlisted r] at hlisted'
    rw [← Option.some.inj hlisted']

theorem Settled.honest (h : Settled g d) : Honest g d where
  distinct := h.distinct
  agree id c hc := by
    obtain ⟨vid, v, hl⟩ := h.current id c hc
    exact ⟨vid, v, hl.noted, h.reads hc hl⟩
  digest := h.digest

/-! ## Steps -/

/-- The reads agree on a version that was not inserted just now only if it was the active one. -/
theorem Settled.points_of_honest (h : Settled g d) (hhonest : Honest (g.set id vid) d')
    (hversions : d'.versions = d.versions)
    (hsome : (d'.components.get? id).isSome = (d.components.get? id).isSome) : PointsTo d id vid := by
  intro c hc
  obtain ⟨u, w, hl⟩ := h.current id c hc
  have hthere : (d'.components.get? id).isSome = true := hsome.trans (Option.isSome_of_eq_some hc)
  obtain ⟨c', hc'⟩ := Option.isSome_iff_exists.mp hthere
  obtain ⟨u', w', hnoted, hreads⟩ := hhonest.agree id c' hc'
  rw [Dict.get?_set, if_pos rfl] at hnoted
  -- `get_by_component_id` gives what it gave before
  have hbefore := (h.reads hc hl).byId {} List.not_mem_nil
  have hafter := hreads.byId {} List.not_mem_nil
  rw [byId_eq _ (Option.isSome_of_eq_some hc) List.not_mem_nil] at hbefore
  rw [byId_eq _ hthere List.not_mem_nil] at hafter
  have hsame : d'.versionsOf id = d.versionsOf id := by rw [Database.versionsOf, hversions, Database.versionsOf]
  rw [hsame, hbefore] at hafter
  have hu : u = u' := congrArg Prod.fst (Option.some.inj hafter)
  rw [hl.points, hu, Option.some.inj hnoted]

theorem Settled.stay {g' : History} (h : Settled g d) (hversions : d'.versions = d.versions)
    (hrows : ∀ k, d'.components.get? k = none ∧ d.components.get? k = none ∨
      ∃ c c', d.components.get? k = some c ∧ d'.components.get? k = some c' ∧ c'.name = c.name ∧
        c'.activeVersionId = c.activeVersionId)
    (hnoted : ∀ k c vid, d.components.get? k = some c → c.activeVersionId = some vid → g'.get? k = some vid) :
    Settled g' d' := by
  have hback : ∀ k c', d'.components.get? k = some c' → ∃ c, d.components.get? k = some c ∧ c'.name = c.name ∧
      c'.activeVersionId = c.activeVersionId := by
    intro k c' hc'
    rcases hrows k with ⟨hnone, -⟩ | ⟨c, c₁, hc, hc₁, hname, hactive⟩
    · rw [hnone] at hc'
      cases hc'
    · rw [hc'] at hc₁
      obtain rfl := Option.some.inj hc₁
      exact ⟨c, hc, hname, hactive⟩
  constructor
  · intro k k' c₁ c₂ hc₁ hc₂ hname
    obtain ⟨b₁, hb₁, hn₁, -⟩ := hback k c₁ hc₁
    obtain ⟨b₂, hb₂, hn₂, -⟩ := hback k' c₂ hc₂
    exact h.named k k' b₁ b₂ hb₁ hb₂ (hn₁.symm.trans (hname.trans hn₂))
  · intro k c' hc'
    obtain ⟨b, hb, -, hactive⟩ := hback k c' hc'
    obtain ⟨u, w, hl⟩ := h.current k b hb
    refine ⟨u, w, hactive.trans hl.points, hnoted k b u hb hl.points, ?_, hl.isOf, ?_⟩
    · rw [hversions]
      exact hl.found
    · rw [hversions]
      exact hl.newest
  · intro u w hw
    rw [hversions] at hw
    obtain ⟨b, hb⟩ := Option.isSome_iff_exists.mp (h.owned u w hw)
    rcases hrows w.componentId with ⟨-, hnone⟩ | ⟨-, c', -, hc', -, -⟩
    · rw [hnone] at hb
      cases hb
    · exact Option.isSome_of_eq_some hc'
  · rw [hversions]
    exact h.distinct
  · rw [hversions]
    exact h.published
  · rw [hversions]
    exact h.digest

/-- **A call that inserts no version** leaves the registry honest exactly if the version it gives back was the active
one. -/
theorem Settled.repoint_iff (h : Settled g d) (id vid : Uuid) (change : Component → Component)
    (hversions : d'.versions = d.versions)
    (hrows : ∀ k, d'.components.get? k = if k = id then (d.components.get? k).map change else d.components.get? k)
    (hname : ∀ c, (change c).name = c.name)
    (hactive : ∀ c, (change c).activeVersionId = c.activeVersionId ∨ (change c).activeVersionId = some vid) :
    (Honest (g.set id vid) d' ↔ PointsTo d id vid) ∧ (Honest (g.set id vid) d' → Settled (g.set id vid) d') := by
  have hsettled : PointsTo d id vid → Settled (g.set id vid) d' := by
    intro hpoints
    refine h.stay hversions (fun k => ?_) (fun k c u hc hu => ?_)
    · rw [hrows k]
      cases hc : d.components.get? k with
      | none => exact .inl ⟨by simp, rfl⟩
      | some c =>
        right
        by_cases hk : k = id
        · subst hk
          refine ⟨c, change c, rfl, by simp, hname c, ?_⟩
          rcases hactive c with heq | heq
          · exact heq
          · rw [heq, hpoints c hc]
        · exact ⟨c, c, rfl, by simp [hk], rfl, rfl⟩
    · rw [Dict.get?_set]
      split
      · next hk =>
          subst hk
          rw [← hu, hpoints c hc]
      · obtain ⟨u', w, hl⟩ := h.current k c hc
        rw [hl.noted, ← hl.points, hu]
  have hmust : Honest (g.set id vid) d' → PointsTo d id vid := by
    intro hhonest
    refine h.points_of_honest hhonest hversions ?_
    rw [hrows id, if_pos rfl, Option.isSome_map]
  exact ⟨⟨hmust, fun hpoints => (hsettled hpoints).honest⟩, fun hhonest => hsettled (hmust hhonest)⟩

theorem Settled.restate (h : Settled g d) {change : Change} (hpoints : change.activeVersionId = none) :
    Settled g (engine.view [.updateComponent id change] d) := by
  refine h.stay rfl (fun k => ?_) (fun k c u hc hu => ?_)
  · have hget : (engine.view [.updateComponent id change] d).components.get? k =
        if k = id then (d.components.get? k).map change.onto else d.components.get? k := Dict.get?_modify _ _ _ _
    rw [hget]
    cases hc : d.components.get? k with
    | none => exact .inl ⟨by simp, rfl⟩
    | some c =>
      right
      by_cases hk : k = id
      · exact ⟨c, change.onto c, rfl, by simp [hk], rfl, by simp [Change.onto, hpoints]⟩
      · exact ⟨c, c, rfl, by simp [hk], rfl, rfl⟩
  · obtain ⟨u', w, hl⟩ := h.current k c hc
    rw [hl.noted, ← hl.points, hu]

/-- **A publication that inserts a version** leaves the registry honest exactly if its digest is that of its text, the
version is the newest, and the name is that of one component. -/
theorem Settled.enter_iff (h : Settled g d)
    (hrows : ∀ k, d'.components.get? k = if k = id then some c else d.components.get? k)
    (hversions : ∀ k, d'.versions.get? k = if k = vid then some v else d.versions.get? k)
    (hpoints : c.activeVersionId = some vid) (hof : v.componentId = id) (hstatus : v.status = "published")
    (hnew : d.versions.get? vid = none)
    (hfree : ∀ u w, d.versions.get? u = some w → w.componentId = id → w.version ≠ v.version) :
    (Honest (g.set id vid) d' ↔ v.manifestSha256 = Sha256.hexdigest v.manifestYaml.toList ∧
        (∀ e ∈ d.versionsOf id, e.2.createdAt < v.createdAt) ∧
        ∀ k b, k ≠ id → d.components.get? k = some b → b.name ≠ c.name) ∧
      (Honest (g.set id vid) d' → Settled (g.set id vid) d') := by
  have hc : d'.components.get? id = some c := by rw [hrows, if_pos rfl]
  have hv : d'.versions.get? vid = some v := by rw [hversions, if_pos rfl]
  -- the versions there were keep their place
  have hold : ∀ u w, d.versions.get? u = some w → d'.versions.get? u = some w ∧ u ≠ vid := by
    intro u w hw
    have hne : u ≠ vid := by
      rintro rfl
      rw [hnew] at hw
      cases hw
    exact ⟨by rw [hversions, if_neg hne, hw], hne⟩
  have hback : ∀ u w, d'.versions.get? u = some w → u = vid ∧ w = v ∨ d.versions.get? u = some w := by
    intro u w hw
    rw [hversions] at hw
    split at hw
    · next heq => exact .inl ⟨heq, (Option.some.inj hw).symm⟩
    · exact .inr hw
  have hmust : Honest (g.set id vid) d' → v.manifestSha256 = Sha256.hexdigest v.manifestYaml.toList ∧
      (∀ e ∈ d.versionsOf id, e.2.createdAt < v.createdAt) ∧
      ∀ k b, k ≠ id → d.components.get? k = some b → b.name ≠ c.name := by
    intro hhonest
    obtain ⟨u, w, hnoted, hreads⟩ := hhonest.agree id c hc
    rw [Dict.get?_set, if_pos rfl] at hnoted
    obtain rfl := Option.some.inj hnoted
    have hsome : (d'.components.get? id).isSome = true := Option.isSome_of_eq_some hc
    have hnewest := newest_always_iff.mp fun n =>
      (byId_eq { row := n } hsome List.not_mem_nil).symm.trans (hreads.byId { row := n } List.not_mem_nil)
    obtain rfl : w = v := Option.some.inj (hnewest.1.1.symm.trans hv)
    refine ⟨hhonest.digest vid w hv, fun e he => ?_, fun k b hk hb hname => ?_⟩
    · obtain ⟨hw, hid⟩ := mem_versionsOf.mp he
      obtain ⟨hw', hne⟩ := hold e.1 e.2 hw
      exact hnewest.2 e.1 e.2 hw' hid hne
    · -- `get_latest` of the common name can give one version only
      have hb' : d'.components.get? k = some b := by rw [hrows, if_neg hk, hb]
      obtain ⟨u', w', -, hreads'⟩ := hhonest.agree k b hb'
      have hlatest := hreads'.latest {} List.not_mem_nil
      rw [hname, hreads.latest {} List.not_mem_nil] at hlatest
      have hof' := (mem_of_byId (Option.isSome_of_eq_some hb') List.not_mem_nil
        (hreads'.byId {} List.not_mem_nil)).2
      rw [← Option.some.inj hlatest] at hof'
      exact hk (hof'.symm.trans hof)
  have hsettled : v.manifestSha256 = Sha256.hexdigest v.manifestYaml.toList ∧
      (∀ e ∈ d.versionsOf id, e.2.createdAt < v.createdAt) ∧
      (∀ k b, k ≠ id → d.components.get? k = some b → b.name ≠ c.name) → Settled (g.set id vid) d' := by
    rintro ⟨hdigest, hnewest, hnames⟩
    -- a component is the one published under, or was there
    have hcases : ∀ k b, d'.components.get? k = some b → k = id ∧ b = c ∨ k ≠ id ∧ d.components.get? k = some b := by
      intro k b hb
      rw [hrows] at hb
      split at hb
      · next heq => exact .inl ⟨heq, (Option.some.inj hb).symm⟩
      · next hne => exact .inr ⟨hne, hb⟩
    constructor
    · intro k k' b b' hb hb' hname
      rcases hcases k b hb with ⟨rfl, rfl⟩ | ⟨hk, hb⟩
      · rcases hcases k' b' hb' with ⟨rfl, rfl⟩ | ⟨hk', hb'⟩
        · rfl
        · exact absurd hname.symm (hnames k' b' hk' hb')
      · rcases hcases k' b' hb' with ⟨rfl, rfl⟩ | ⟨-, hb'⟩
        · exact absurd hname (hnames k b hk hb)
        · exact h.named k k' b b' hb hb' hname
    · intro k b hb
      rcases hcases k b hb with ⟨rfl, rfl⟩ | ⟨hk, hb⟩
      · refine ⟨vid, v, hpoints, by rw [Dict.get?_set, if_pos rfl], hv, hof, fun u w hw hid hne => ?_⟩
        rcases hback u w hw with ⟨heq, -⟩ | hw
        · exact absurd heq hne
        · exact hnewest (u, w) (mem_versionsOf.mpr ⟨hw, hid⟩)
      · obtain ⟨u, w, hl⟩ := h.current k b hb
        refine ⟨u, w, hl.points, by rw [Dict.get?_set, if_neg hk, hl.noted], (hold u w hl.found).1, hl.isOf, ?_⟩
        intro u' w' hw' hid hne
        rcases hback u' w' hw' with ⟨-, rfl⟩ | hw'
        · exact absurd (hid.symm.trans hof) hk
        · exact hl.newest u' w' hw' hid hne
    · intro u w hw
      rw [hrows]
      split
      · rfl
      · next hne =>
          rcases hback u w hw with ⟨-, rfl⟩ | hw
          · exact absurd hof hne
          · exact h.owned u w hw
    · intro u u' w w' hw hw' hid hversion
      rcases hback u w hw with ⟨rfl, rfl⟩ | hw
      · rcases hback u' w' hw' with ⟨rfl, -⟩ | hw'
        · rfl
        · exact absurd hversion.symm (hfree u' w' hw' (hid.symm.trans hof))
      · rcases hback u' w' hw' with ⟨rfl, rfl⟩ | hw'
        · exact absurd hversion (hfree u w hw (hid.trans hof))
        · exact h.distinct u u' w w' hw hw' hid hversion
    · intro u w hw
      rcases hback u w hw with ⟨-, rfl⟩ | hw
      · exact hstatus
      · exact h.published u w hw
    · intro u w hw
      rcases hback u w hw with ⟨-, rfl⟩ | hw
      · exact hdigest
      · exact h.digest u w hw
  exact ⟨⟨hmust, fun hall => (hsettled hall).honest⟩, fun hhonest => hsettled (hmust hhonest)⟩

theorem Settled.remove (h : Settled g d) (id : Uuid)
    (hrows : ∀ k, d'.components.get? k = if k = id then none else d.components.get? k)
    (hversions : ∀ k, d'.versions.get? k = (d.versions.get? k).filter (fun w => w.componentId ≠ id)) : Settled g d' := by
  have hback : ∀ u w, d'.versions.get? u = some w → d.versions.get? u = some w ∧ w.componentId ≠ id := by
    intro u w hw
    rw [hversions, Option.filter_eq_some_iff, decide_eq_true_eq] at hw
    exact hw
  have hcases : ∀ k b, d'.components.get? k = some b → k ≠ id ∧ d.components.get? k = some b := by
    intro k b hb
    rw [hrows] at hb
    split at hb
    · cases hb
    · next hne => exact ⟨hne, hb⟩
  constructor
  · intro k k' b b' hb hb' hname
    exact h.named k k' b b' (hcases k b hb).2 (hcases k' b' hb').2 hname
  · intro k b hb
    obtain ⟨hk, hb⟩ := hcases k b hb
    obtain ⟨u, w, hl⟩ := h.current k b hb
    refine ⟨u, w, hl.points, hl.noted, ?_, hl.isOf, fun u' w' hw' => hl.newest u' w' (hback u' w' hw').1⟩
    have hne : w.componentId ≠ id := fun heq => hk (hl.isOf.symm.trans heq)
    rw [hversions, hl.found, Option.filter_some, if_pos (decide_eq_true hne)]
  · intro u w hw
    obtain ⟨hw, hne⟩ := hback u w hw
    rw [hrows, if_neg hne]
    exact h.owned u w hw
  · intro u u' w w' hw hw'
    exact h.distinct u u' w w' (hback u w hw).1 (hback u' w' hw').1
  · intro u w hw
    exact h.published u w (hback u w hw).1
  · intro u w hw
    exact h.digest u w (hback u w hw).1

/-! ## Commits -/

section Commits

variable {manifest : ComponentManifest} {row : ComponentVersion} {change : Change} {ws : List Write} {call : Call}
  {reply : Reply}

theorem versions_view_insert (k : Uuid) : (engine.view [.insertVersion vid row, .updateComponent id change] d).versions.get? k
    = if k = vid then some row else d.versions.get? k := Dict.get?_set d.versions vid k row

/-- The digest of a published version is that of its text exactly if the text was kept. -/
theorem Published.digest_iff {name : String} (h : Published manifest name id row) :
    row.manifestSha256 = Sha256.hexdigest row.manifestYaml.toList ↔
      Sha256.hexdigest (updatedYaml name manifest.rawYaml).toList = Sha256.hexdigest manifest.rawYaml.toList := by
  rw [h.manifestSha256, h.manifestYaml, manifest.digest]
  exact eq_comm

theorem mayEnd_inserted (hrow : insertedVersion ws = some row) :
    MayEnd d (.publish manifest) (.version id vid) ws ↔ Publishes d manifest id ws row := by
  constructor
  · intro h
    exact h.inserted (id, vid) rfl manifest rfl row hrow
  · intro h
    constructor
    · intro e he manifest' hmanifest row' hrow'
      obtain rfl := Option.some.inj he
      obtain rfl := Option.some.inj hmanifest
      obtain rfl := Option.some.inj (hrow.symm.trans hrow')
      exact h
    · intro e he hnone
      rw [hrow] at hnone
      cases hnone

theorem mayEnd_kept (hrow : insertedVersion ws = none) : MayEnd d call (.version id vid) ws ↔ PointsTo d id vid := by
  constructor
  · intro h
    exact h.kept (id, vid) rfl (by rw [hrow]; rfl)
  · intro h
    constructor
    · intro e he manifest' hmanifest row' hrow'
      rw [hrow] at hrow'
      cases hrow'
    · intro e he hnone
      obtain rfl := Option.some.inj he
      exact h

theorem mayEnd_other (hreply : reply.version? = none) : MayEnd d call reply ws := by
  constructor
  · intro e he
    rw [hreply] at he
    cases he
  · intro e he
    rw [hreply] at he
    cases he

/-- **What a call leaves when it commits** is honest exactly if it ends as it may. -/
theorem Settled.commit_iff (h : Settled g d) (hended : Ended d call reply ws) :
    (Honest (reply.note g) (engine.view ws d) ↔ MayEnd d call reply ws) ∧
      (Honest (reply.note g) (engine.view ws d) → Settled (reply.note g) (engine.view ws d)) := by
  cases hended with
  | @created manifest id vid code row change unused new bare newVersion published points =>
    have hrows : ∀ k, (engine.view [.insertComponent id { name := code, kind := manifest.kind }, .insertVersion vid row,
        .updateComponent id change] d).components.get? k
        = if k = id then some (change.onto { name := code, kind := manifest.kind }) else d.components.get? k := by
      intro k
      show ((d.components.set id _).modify id change.onto).get? k = _
      rw [Dict.get?_modify, Dict.get?_set]
      by_cases hk : k = id
      · simp [hk]
      · simp [hk]
    have hversions : ∀ k, (engine.view [.insertComponent id { name := code, kind := manifest.kind },
        .insertVersion vid row, .updateComponent id change] d).versions.get? k
        = if k = vid then some row else d.versions.get? k := fun k => Dict.get?_set d.versions vid k row
    have henter := h.enter_iff (c := change.onto { name := code, kind := manifest.kind }) hrows hversions
      (by simp [Change.onto, points]) published.componentId published.status newVersion
      (fun u w hw hid => absurd hid (bare u w hw))
    refine ⟨henter.1.trans ?_, henter.2⟩
    rw [published.digest_iff, mayEnd_inserted rfl]
    constructor
    · rintro ⟨hdigest, hnewest, hnames⟩
      refine ⟨hdigest, hnewest, fun c hc e he => ?_⟩
      obtain rfl := Option.some.inj hc
      have hget := Dict.get?_eq_some_iff.mpr he
      refine hnames e.1 e.2 (fun heq => ?_) hget
      rw [heq, new] at hget
      cases hget
    · intro hmay
      refine ⟨hmay.text, hmay.newest, fun k b _ hb => ?_⟩
      exact hmay.unused _ rfl (k, b) (Dict.get?_eq_some_iff.mp hb)
  | @released manifest id vid row change fits published points =>
    obtain ⟨c, hc⟩ := Option.isSome_iff_exists.mp (published.componentId ▸ fits.found)
    have hrows : ∀ k, (engine.view [.insertVersion vid row, .updateComponent id change] d).components.get? k
        = if k = id then some (change.onto c) else d.components.get? k := by
      intro k
      show (d.components.modify id change.onto).get? k = _
      rw [Dict.get?_modify]
      split
      · next hk => rw [hk, hc, Option.map_some]
      · rfl
    have henter := h.enter_iff (c := change.onto c) hrows versions_view_insert (by simp [Change.onto, points])
      published.componentId published.status fits.new
      (fun u w hw hid => fits.free u w hw (hid.trans published.componentId.symm))
    refine ⟨henter.1.trans ?_, henter.2⟩
    rw [published.digest_iff, mayEnd_inserted rfl]
    constructor
    · rintro ⟨hdigest, hnewest, -⟩
      exact ⟨hdigest, hnewest, fun c hc => by cases hc⟩
    · intro hmay
      refine ⟨hmay.text, hmay.newest, fun k b hk hb hname => ?_⟩
      exact hk (h.named k id b c hb hc hname)
  | @kept manifest id vid | @unseen id vid =>
    rw [mayEnd_kept rfl]
    exact h.repoint_iff id vid (fun c => c) rfl (fun k => by simp) (fun _ => rfl) (fun _ => .inl rfl)
  | @activated id vid change points =>
    rw [mayEnd_kept rfl]
    refine h.repoint_iff id vid change.onto rfl (fun k => Dict.get?_modify d.components id k change.onto)
      (fun _ => rfl) (fun c => ?_)
    cases hactive : change.activeVersionId with
    | none => exact .inl (by simp [Change.onto, hactive])
    | some u => exact .inr (by simp [Change.onto, hactive, points u hactive])
  | deprecated points | restored points =>
      exact ⟨iff_of_true (h.restate points).honest (mayEnd_other rfl), fun _ => h.restate points⟩
  | @removed id ws cleared =>
    have hsettled : Settled g (engine.view (ws ++ [.deleteVersions id, .deleteComponent id]) d) := by
      have hversions : ∀ k, ((d.versions.eraseWhere (fun v => v.componentId = id)).eraseWhere
          (fun v => v.componentId = id)).get? k = (d.versions.get? k).filter (fun w => w.componentId ≠ id) := by
        intro k
        rw [Dict.get?_eraseWhere, Dict.get?_eraseWhere]
        simp
      rcases cleared with rfl | rfl
      · exact h.remove id (fun k => Dict.get?_erase d.components id k) hversions
      · refine h.remove id (fun k => ?_) hversions
        show ((d.components.modify id _).erase id).get? k = _
        rw [Dict.get?_erase, Dict.get?_modify]
        split
        · rfl
        · rfl
    exact ⟨iff_of_true hsettled.honest (mayEnd_other rfl), fun _ => hsettled⟩
  | @swept id barred =>
    have hsettled : Settled g (engine.view [.deleteVersions id] d) := by
      refine h.remove id (fun k => ?_) (fun k => ?_)
      · show d.components.get? k = _
        split
        · next hk => rw [hk, barred.2]
        · rfl
      · show (d.versions.eraseWhere _).get? k = _
        rw [Dict.get?_eraseWhere]
        simp
    exact ⟨iff_of_true hsettled.honest (mayEnd_other rfl), fun _ => hsettled⟩

end Commits

/-! ## Runs -/

theorem registry_step {p p' : Sys} {act : Step} {g : History} (h : step p act = some p')
    (hp : Sound p ∧ Settled g p.committed) :
    (Honest (note g ⟨p, act, p'⟩) p'.committed ↔ Sincere ⟨p, act, p'⟩) ∧
      (Sincere ⟨p, act, p'⟩ → Sound p' ∧ Settled (note g ⟨p, act, p'⟩) p'.committed) := by
  obtain ⟨hsound, hsettled⟩ := hp
  have hsound' := sound_step hsound h
  -- what does not commit changes neither the tables nor the history
  have hother : (∀ i, act ≠ .commit i) → committing ⟨p, act, p'⟩ = none →
      (Honest (note g ⟨p, act, p'⟩) p'.committed ↔ Sincere ⟨p, act, p'⟩) ∧
        (Sincere ⟨p, act, p'⟩ → Sound p' ∧ Settled (note g ⟨p, act, p'⟩) p'.committed) := by
    intro hact hnone
    have hnote : note g ⟨p, act, p'⟩ = g := by
      unfold note
      rw [hnone, Option.bind_none]
    have hsincere : Sincere ⟨p, act, p'⟩ := by
      intro s hs
      rw [hnone] at hs
      cases hs
    rw [hnote, committed_step h hact]
    exact ⟨iff_of_true hsettled.honest hsincere, fun _ => ⟨hsound', hsettled⟩⟩
  cases act with
  | call c | step i a | abort i => exact hother (fun _ heq => by cases heq) rfl
  | commit i =>
    obtain ⟨c, ws, v, hi, hended, hcommitted⟩ := ended_of_commit hsound h
    have hcommitting : committing ⟨p, .commit i, p'⟩ = some ⟨c, ws, some (.ret v)⟩ := hi
    have hnote : note g ⟨p, .commit i, p'⟩ = v.note g := by
      unfold note
      rw [hcommitting]
      rfl
    have hsincere : Sincere ⟨p, .commit i, p'⟩ ↔ MayEnd p.committed c v ws := by
      unfold Sincere
      rw [hcommitting]
      constructor
      · intro hall
        exact hall _ rfl v rfl
      · intro hmay s hs v' hv'
        obtain rfl := Option.some.inj hs
        obtain rfl := Option.some.inj hv'
        exact hmay
    have hcommit := hsettled.commit_iff hended
    rw [hnote, hsincere, hcommitted]
    exact ⟨hcommit.1, fun hmay => ⟨hsound', hcommit.2 (hcommit.1.mpr hmay)⟩⟩

/-- **In every run of the registry**, from any registry in order, the numbers are distinct, the reads agree on the version
that was last published or activated, and the digests are those of the texts, exactly if every call ends as it may. -/
theorem registry_honest_iff {g : History} {d : Database} (h : Settled g d) {s : Sys} {ts : List (Transition Sys Step)}
    (hr : Run step ⟨d, []⟩ ts s) :
    Annotated note (fun g t => Honest (note g t) t.post.committed) g ts ↔ ∀ t ∈ ts, Sincere t :=
  hr.annotated_iff (R := fun g p => Sound p ∧ Settled g p.committed) (fun hstep hp => registry_step hstep hp)
    ⟨sound_start d, h⟩

/-- The statements of the `i`-th call, and its commit. -/
def statements (i : Nat) (as : List Answer) : List Step := as.map (.step i) ++ [.commit i]

/-- A manifest that has the name which is drawn for its component. -/
def firstManifest : ComponentManifest where
  name := "iface_00000000"
  kind := "model"
  rawYaml := "name: iface_00000000"
  sha256 := _
  digest := rfl

/-- The component is published, and its version activated. -/
def publishedOnce : List Step :=
  .call (.publish firstManifest) :: (statements 0 [{ now := 1 }, {}, { code := [0, 0, 0, 0, 0, 0, 0, 0] }, { id := "c" },
    {}, {}, {}, { id := "v1" }, {}, {}] ++
  .call (.activateVersion "v1") :: statements 1 [{}, {}, {}])

theorem honest_publishedOnce :
    Annotated note (fun g t => Honest (note g t) t.post.committed) ∅ (play step ⟨{}, []⟩ publishedOnce) :=
  (registry_honest_iff settled_empty (play_run _ _)).mpr (by decide +kernel)

/-- A second version of the component. -/
def secondManifest : ComponentManifest where
  name := "iface_00000000"
  kind := "model"
  rawYaml := "name: iface_00000000\nruntime: python"
  sha256 := _
  digest := rfl

/-- Two versions are published, and the first is activated again. -/
def rolledBack : List Step :=
  .call (.publish firstManifest) :: (statements 0 [{ now := 1 }, {}, { code := [0, 0, 0, 0, 0, 0, 0, 0] }, { id := "c" },
    {}, {}, {}, { id := "v1" }, {}, {}] ++
  .call (.publish secondManifest) :: (statements 1 [{ now := 2 }, {}, {}, {}, { id := "v2" }, {}, {}] ++
  .call (.activateVersion "v1") :: statements 2 [{}, {}, {}]))

/-- `get_by_component_id` stays with the newest version. -/
theorem rollback_unseen :
    ¬ ∀ (s : Sys) (ts : List (Transition Sys Step)), Run step ⟨{}, []⟩ ts s →
      Annotated note (fun g t => Honest (note g t) t.post.committed) ∅ ts := by
  intro hall
  -- what a reader of the component "c" would have to find
  have hread : Annotated note (fun g t => ((getByComponentId {} t.post.committed "c").toOption.all
      (fun e => (note g t).get? "c" = some e.1)) = true) ∅ (play step ⟨{}, []⟩ rolledBack) := by
    refine (hall _ _ (play_run _ _)).imp fun g t hhonest => ?_
    cases hfound : (getByComponentId {} t.post.committed "c").toOption with
    | none => rfl
    | some e =>
      have hthere : (t.post.committed.components.get? "c").isSome = true := by
        unfold getByComponentId at hfound
        split at hfound
        · next hpick =>
            split at hpick
            · next hsome => exact (Bool.and_eq_true_iff.mp hsome).1
            · cases hpick
        · cases hfound
      obtain ⟨c, hc⟩ := Option.isSome_iff_exists.mp hthere
      obtain ⟨vid, v, hnoted, hreads⟩ := hhonest.agree "c" c hc
      have hbyId := hreads.byId {} List.not_mem_nil
      rw [hfound] at hbyId
      rw [hnoted, Option.some.inj hbyId]
      exact decide_eq_true rfl
  exact absurd hread (by decide +kernel)

end Irip.Components
