import Mathlib.Data.List.Chain
import Irip.Base.Loop
import Irip.Provenance.Derivations

/-!
# `Provenance.Graph` — from a parameter version to the facts

A run is joined to its facts by edges that lead from the run to the facts, and to the parameter version made from it by
an edge that leads to the version. The paths to the raw facts are searched from the version against the edges.
-/

namespace Irip.Provenance

/-! ## The service -/

structure ProvenanceNode where
  id : Id
  nodeType : NodeType
  label : String
  version : String
  status : String

def factNode (id : Id) (f : Fact) : ProvenanceNode :=
  { id := id, nodeType := .fact, label := f.subjectId, version := "", status := f.status }

def runNode (id : Id) (r : DerivationRun) : ProvenanceNode :=
  { id := id, nodeType := .derivationRun, label := "DerivationRun", version := toString id, status := r.status }

def paramNode (id : Id) : ProvenanceNode :=
  { id := id, nodeType := .parameterVersion, label := "ParameterVersion", version := "", status := "published" }

def addEdge (e : ProvenanceEdge) (db : Db) : Db := { db with edges := db.edges ++ [e] }

/-- An entry of the queue: a node by its id and the type an edge gives it, with the path that leads to it. -/
structure Entry where
  id : Id
  type : NodeType
  path : List ProvenanceNode

/-- The variables of `get_paths_to_raw`. -/
structure Trace where
  queue : List Entry
  visited : List Id
  paths : List (List ProvenanceNode) := []

section Service

variable (db : Db)

/-- The edges into a parameter version. -/
def Db.startEdges (pv : Id) : List ProvenanceEdge :=
  db.edges.filter (fun e => e.targetId == pv && e.targetType == .parameterVersion)

/-- The edges into a node. -/
def Db.upEdges (id : Id) : List ProvenanceEdge := db.edges.filter (fun e => e.targetId == id)

def ProvenanceEdge.entry (path : List ProvenanceNode) (e : ProvenanceEdge) : Entry :=
  { id := e.sourceId, type := e.sourceType, path := path }

/-- One turn of the loop. -/
def pathsTurn (st : Trace) : Option Trace :=
  match st.queue with
  | [] => none
  | entry :: queue =>
    if entry.id ∈ st.visited ∧ entry.type ≠ .fact then some { st with queue := queue }
    else
      let visited := st.visited ++ [entry.id]
      match entry.type with
      | .fact =>
        match db.facts.get? entry.id with
        | some f => some { queue := queue, visited := visited, paths := st.paths ++ [entry.path ++ [factNode entry.id f]] }
        | none => some { st with queue := queue, visited := visited }
      | .derivationRun =>
        match db.runs.get? entry.id with
        | some r =>
          let up := (db.upEdges entry.id).filter (fun e => e.sourceId ∉ visited)
          some { st with queue := queue ++ up.map (ProvenanceEdge.entry (entry.path ++ [runNode entry.id r])),
                         visited := visited }
        | none => some { st with queue := queue, visited := visited }
      | _ => some { st with queue := queue, visited := visited }

/-- The targets of edges that have not been visited. -/
def Trace.unvisited (st : Trace) : Nat := ((db.edges.map ProvenanceEdge.targetId).filter (fun k => k ∉ st.visited)).length

variable {db}

variable (db)

/-- The state in which the loop begins. -/
def Trace.start (pv : Id) : Trace :=
  { queue := (db.startEdges pv).map (ProvenanceEdge.entry [paramNode pv]), visited := [pv] }

end Service

/-! ## What is above -/

/-- An edge leads into the parameter version, or into a run above it. -/
inductive Above (db : Db) (pv : Id) : ProvenanceEdge → Prop where
  | start {e : ProvenanceEdge} : e ∈ db.startEdges pv → Above db pv e
  | up {e f : ProvenanceEdge} {r : DerivationRun} : Above db pv e → e.sourceType = .derivationRun →
      db.runs.get? e.sourceId = some r → f ∈ db.upEdges e.sourceId → Above db pv f

/-- An existing fact from which an edge leads into the parameter version or a run above it. -/
def Feeds (db : Db) (pv f : Id) : Prop :=
  (∃ fact, db.facts.get? f = some fact) ∧ ∃ e, Above db pv e ∧ e.sourceType = .fact ∧ e.sourceId = f

/-- Consecutive nodes of a path are joined by edges, from the second to the first. -/
def Joined (db : Db) (path : List ProvenanceNode) : Prop :=
  path.IsChain (fun x y => ∃ e ∈ db.edges, e.targetId = x.id ∧ e.sourceId = y.id)

/-- A path from the parameter version to a fact. -/
structure ValidPath (db : Db) (pv f : Id) (path : List ProvenanceNode) : Prop where
  first : path.head? = some (paramNode pv)
  last : ∃ fact, db.facts.get? f = some fact ∧ path.getLast? = some (factNode f fact)
  joined : Joined db path

section Paths

variable {db : Db} {pv : Id}

variable {e : ProvenanceEdge} {path : List ProvenanceNode} {st st' : Trace} {kind : Id → NodeType}

theorem Above.mem (h : Above db pv e) : e ∈ db.edges := by
  cases h with
  | start h | up _ _ _ h => exact (List.mem_filter.mp h).1

/-- A path that leads to an edge: from the parameter version, joined, to the target of the edge. -/
structure LeadsTo (db : Db) (pv : Id) (e : ProvenanceEdge) (path : List ProvenanceNode) : Prop where
  above : Above db pv e
  first : path.head? = some (paramNode pv)
  last : ∃ x, path.getLast? = some x ∧ x.id = e.targetId
  joined : Joined db path

theorem LeadsTo.extend (h : LeadsTo db pv e path) {x : ProvenanceNode} (hx : x.id = e.sourceId) :
    (path ++ [x]).head? = some (paramNode pv) ∧ Joined db (path ++ [x]) := by
  constructor
  · rw [List.head?_append, h.first]
    rfl
  · unfold Joined
    rw [List.isChain_append]
    refine ⟨h.joined, List.isChain_singleton x, fun y hy z hz => ?_⟩
    obtain ⟨last, hlast, hid⟩ := h.last
    obtain rfl := Option.some.inj (hlast.symm.trans hy)
    obtain rfl := Option.some.inj hz
    exact ⟨e, h.above.mem, hid.symm, hx.symm⟩

/-- What the queue and the paths hold, on any graph. -/
structure Tracing (db : Db) (pv : Id) (st : Trace) : Prop where
  queued : ∀ entry ∈ st.queue, ∃ e, LeadsTo db pv e entry.path ∧ entry.id = e.sourceId ∧ entry.type = e.sourceType
  paths : ∀ path ∈ st.paths, ∃ f, Feeds db pv f ∧ ValidPath db pv f path

theorem Tracing.turn (hst : Tracing db pv st) (h : pathsTurn db st = some st') : Tracing db pv st' := by
  unfold pathsTurn at h
  split at h
  · cases h
  · next entry queue hqueue =>
      have hrest : ∀ entry' ∈ queue, ∃ e, LeadsTo db pv e entry'.path ∧ entry'.id = e.sourceId ∧
          entry'.type = e.sourceType :=
        fun entry' h' => hst.queued entry' (by rw [hqueue]; exact List.mem_cons_of_mem _ h')
      obtain ⟨e, hleads, hid, htype⟩ := hst.queued entry (by rw [hqueue]; exact List.mem_cons_self)
      split at h
      · obtain rfl := Option.some.inj h
        exact ⟨hrest, hst.paths⟩
      · dsimp only at h
        split at h
        · next hfact =>
            split at h
            · next f hf =>
                obtain rfl := Option.some.inj h
                refine ⟨hrest, fun path hpath => ?_⟩
                rcases List.mem_append.mp hpath with hpath | hpath
                · exact hst.paths path hpath
                · rw [List.mem_singleton.mp hpath]
                  obtain ⟨hfirst, hjoined⟩ := hleads.extend (x := factNode entry.id f) hid
                  exact ⟨entry.id, ⟨⟨f, hf⟩, e, hleads.above, htype.symm.trans hfact, hid.symm⟩,
                    hfirst, ⟨f, hf, List.getLast?_concat⟩, hjoined⟩
            · obtain rfl := Option.some.inj h
              exact ⟨hrest, hst.paths⟩
        · next hrun =>
            split at h
            · next r hr =>
                obtain rfl := Option.some.inj h
                refine ⟨fun entry' hentry' => ?_, hst.paths⟩
                rcases List.mem_append.mp hentry' with hentry' | hentry'
                · exact hrest entry' hentry'
                · obtain ⟨f, hf, rfl⟩ := List.mem_map.mp hentry'
                  have hup := (List.mem_filter.mp hf).1
                  obtain ⟨hfirst, hjoined⟩ := hleads.extend (x := runNode entry.id r) hid
                  rw [hid] at hr hup
                  refine ⟨f, ⟨.up hleads.above (htype.symm.trans hrun) hr hup, hfirst,
                    ⟨_, List.getLast?_concat, ?_⟩, hjoined⟩, rfl, rfl⟩
                  have htarget := (List.mem_filter.mp hup).2
                  rw [beq_iff_eq] at htarget
                  exact hid.trans htarget.symm
            · obtain rfl := Option.some.inj h
              exact ⟨hrest, hst.paths⟩
        · obtain rfl := Option.some.inj h
          exact ⟨hrest, hst.paths⟩

/-- What the search has not lost, where every id has one type: the edges above that have been come to are visited or
queued, and a visited fact has its path. -/
structure Complete (db : Db) (pv : Id) (kind : Id → NodeType) (st : Trace) : Prop where
  typed : ∀ entry ∈ st.queue, kind entry.id = entry.type
  seen : pv ∈ st.visited
  starts : ∀ e ∈ db.startEdges pv, e.sourceId ∈ st.visited ∨ ∃ entry ∈ st.queue, entry.id = e.sourceId
  ups : ∀ k ∈ st.visited, kind k = .derivationRun → (∃ r, db.runs.get? k = some r) → ∀ e ∈ db.upEdges k,
    e.sourceId ∈ st.visited ∨ ∃ entry ∈ st.queue, entry.id = e.sourceId
  facts : ∀ k ∈ st.visited, kind k = .fact → ∀ f, db.facts.get? k = some f →
    ∃ path ∈ st.paths, path.getLast? = some (factNode k f)

theorem Complete.visit (h : Complete db pv kind st) {entry : Entry}
    {queue : List Entry} (hqueue : st.queue = entry :: queue) (hvisited : st'.visited = st.visited ++ [entry.id])
    (hkeep : ∀ x ∈ queue, x ∈ st'.queue) (hpaths : ∀ path ∈ st.paths, path ∈ st'.paths)
    (htyped : ∀ x ∈ st'.queue, kind x.id = x.type)
    (hup : kind entry.id = .derivationRun → (∃ r, db.runs.get? entry.id = some r) → ∀ e ∈ db.upEdges entry.id,
      e.sourceId ∈ st'.visited ∨ ∃ x ∈ st'.queue, x.id = e.sourceId)
    (hfact : kind entry.id = .fact → ∀ f, db.facts.get? entry.id = some f →
      ∃ path ∈ st'.paths, path.getLast? = some (factNode entry.id f)) : Complete db pv kind st' := by
  -- an id that was visited or queued still is
  have hmove : ∀ k, (k ∈ st.visited ∨ ∃ x ∈ st.queue, x.id = k) → k ∈ st'.visited ∨ ∃ x ∈ st'.queue, x.id = k := by
    rintro k (hk | ⟨x, hx, rfl⟩)
    · exact .inl (by rw [hvisited]; exact List.mem_append_left _ hk)
    · rw [hqueue] at hx
      rcases List.mem_cons.mp hx with rfl | hx
      · exact .inl (by rw [hvisited]; exact List.mem_append_right _ (List.mem_singleton_self _))
      · exact .inr ⟨x, hkeep x hx, rfl⟩
  refine ⟨htyped, ?_, fun e he => hmove _ (h.starts e he), fun k hk hrun hexists e he => ?_, fun k hk hkind f hf => ?_⟩
  · rw [hvisited]
    exact List.mem_append_left _ h.seen
  · rw [hvisited] at hk
    rcases List.mem_append.mp hk with hk | hk
    · exact hmove _ (h.ups k hk hrun hexists e he)
    · rw [List.mem_singleton.mp hk] at hrun hexists he
      exact hup hrun hexists e he
  · rw [hvisited] at hk
    rcases List.mem_append.mp hk with hk | hk
    · obtain ⟨path, hpath, hlast⟩ := h.facts k hk hkind f hf
      exact ⟨path, hpaths path hpath, hlast⟩
    · obtain rfl := List.mem_singleton.mp hk
      exact hfact hkind f hf

theorem Complete.turn (hkind : ∀ e ∈ db.edges, kind e.sourceId = e.sourceType)
    (hst : Complete db pv kind st) (h : pathsTurn db st = some st') : Complete db pv kind st' := by
  unfold pathsTurn at h
  split at h
  · cases h
  · next entry queue hqueue =>
      have hentry := hst.typed entry (by rw [hqueue]; exact List.mem_cons_self)
      have hrest : ∀ x ∈ queue, kind x.id = x.type :=
        fun x hx => hst.typed x (by rw [hqueue]; exact List.mem_cons_of_mem _ hx)
      split at h
      · next hskip =>
          obtain rfl := Option.some.inj h
          have hmove : ∀ k, (k ∈ st.visited ∨ ∃ x ∈ st.queue, x.id = k) → k ∈ st.visited ∨ ∃ x ∈ queue, x.id = k := by
            rintro k (hk | ⟨x, hx, rfl⟩)
            · exact .inl hk
            · rw [hqueue] at hx
              rcases List.mem_cons.mp hx with rfl | hx
              · exact .inl hskip.1
              · exact .inr ⟨x, hx, rfl⟩
          exact ⟨hrest, hst.seen, fun e he => hmove _ (hst.starts e he),
            fun k hk hrun hexists e he => hmove _ (hst.ups k hk hrun hexists e he), hst.facts⟩
      · dsimp only at h
        split at h
        · next hfact =>
            rw [hfact] at hentry
            split at h
            · next f hf =>
                obtain rfl := Option.some.inj h
                refine hst.visit hqueue rfl (fun _ => id) (fun _ => List.mem_append_left _) hrest
                  (fun hrun => ?_) (fun _ f' hf' => ?_)
                · rw [hentry] at hrun
                  cases hrun
                · obtain rfl := Option.some.inj (hf.symm.trans hf')
                  exact ⟨_, List.mem_append_right _ (List.mem_singleton_self _), List.getLast?_concat⟩
            · next hnone =>
                obtain rfl := Option.some.inj h
                refine hst.visit hqueue rfl (fun _ => id) (fun _ => id) hrest (fun hrun => ?_) (fun _ f' hf' => ?_)
                · rw [hentry] at hrun
                  cases hrun
                · rw [hnone] at hf'
                  cases hf'
        · next hrun =>
            rw [hrun] at hentry
            split at h
            · next r hr =>
                obtain rfl := Option.some.inj h
                refine hst.visit hqueue rfl (fun _ => List.mem_append_left _) (fun _ => id) (fun x hx => ?_)
                  (fun _ _ e he => ?_) (fun hfact => ?_)
                · rcases List.mem_append.mp hx with hx | hx
                  · exact hrest x hx
                  · obtain ⟨e, he, rfl⟩ := List.mem_map.mp hx
                    exact hkind e (List.mem_filter.mp (List.mem_filter.mp he).1).1
                · by_cases hseen : e.sourceId ∈ st.visited ++ [entry.id]
                  · exact .inl hseen
                  · refine .inr ⟨_, List.mem_append_right _ (List.mem_map_of_mem (List.mem_filter.mpr ⟨he, ?_⟩)), rfl⟩
                    simpa using hseen
                · rw [hentry] at hfact
                  cases hfact
            · next hnone =>
                obtain rfl := Option.some.inj h
                refine hst.visit hqueue rfl (fun _ => id) (fun _ => id) hrest (fun _ hexists => ?_) (fun hfact => ?_)
                · obtain ⟨r, hr⟩ := hexists
                  rw [hnone] at hr
                  cases hr
                · rw [hentry] at hfact
                  cases hfact
        · next hnotFact hnotRun =>
            obtain rfl := Option.some.inj h
            refine hst.visit hqueue rfl (fun _ => id) (fun _ => id) hrest (fun hrun => ?_) (fun hfact => ?_)
            · exact absurd (hentry.symm.trans hrun) hnotRun
            · exact absurd (hentry.symm.trans hfact) hnotFact

/-- A run created from the evidence, joined to a parameter version, and whatever other edges there are by now. -/
structure Published (registry : Registry) (runId evidence recipe pv : Id) (db db' : Db) (v : EvidenceSetVersion) :
    Prop where
  version : db.versions.get? evidence = some v
  edges : ∃ ref db₁, createRun registry runId evidence recipe db = .ok (ref, db₁) ∧
    ∀ e ∈ (addEdge { derivationRunId := runId, sourceType := .derivationRun, sourceId := runId,
                     targetType := .parameterVersion, targetId := pv, edgeType := "published_as" } db₁).edges,
      e ∈ db'.edges

theorem ValidPath.unique {f g : Id} (h : ValidPath db pv f path) (h' : ValidPath db pv g path) : f = g := by
  obtain ⟨fact, -, hlast⟩ := h.last
  obtain ⟨fact', -, hlast'⟩ := h'.last
  exact congrArg ProvenanceNode.id (Option.some.inj (hlast.symm.trans hlast'))

end Paths

/-! ### A run whose facts are not reached -/

/-- An executor that gives the same output always. -/
def constant : Registry :=
  Dict.ofList [(("constant", "1.0.0"), { execute _ _ := .ok { variableCode := "x", value := "0", confidence := "1.0" } })]

end Irip.Provenance
