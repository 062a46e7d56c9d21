import Mathlib.Data.String.Basic
import Irip.Base.Dict
import Irip.Base.JsonText
import Irip.Base.Sha256
import Irip.Base.StableSort
import Irip.Common

/-!
# `Provenance.Derivations` — evidence, recipes and derivation runs

An evidence set is frozen into a version that lists its members; a run applies the executor of a published recipe, is
stored with its outputs and their digest, and is joined to the facts it was selected from by edges.
-/

namespace Irip.Provenance

abbrev Id := Nat

/-- A `Decimal`, known by its text. -/
abbrev Decimal := String

/-! ## Rows -/

/-- The columns of `fact` that are read here. -/
structure Fact where
  subjectId : String
  status : String
  createdAt : Time

/-- The values of `EvidenceMember.decision`. -/
inductive Decision where
  | included
  | excluded
deriving DecidableEq, Repr

/-- A member of an evidence set version. -/
structure EvidenceMember where
  factId : Option Id
  decision : Decision
  reason : String := ""

/-- A row of `evidence_set_version`. -/
structure EvidenceSetVersion where
  evidenceSetId : Id
  version : Nat := 1
  members : List EvidenceMember
  memberCount : Nat

/-- The values of the status of a recipe version. -/
inductive RecipeStatus where
  | draft
  | published
  | deprecated
deriving DecidableEq, Repr

/-- A row of `transformation_recipe_version`. -/
structure RecipeVersion where
  componentName : String
  componentVersion : String
  parameters : Dict String Json := ∅
  randomSeed : Int
  outputDefinitions : List String := []
  status : RecipeStatus := .published

/-- `ParameterCandidateOutput`; the confidence is known by its `repr`. -/
structure Output where
  variableCode : String
  value : Decimal
  unit : Option String := none
  confidence : String
  exclusionReasons : List String := []
deriving DecidableEq

/-- A row of `derivation_run`. -/
structure DerivationRun where
  evidenceSetVersionId : Id
  recipeVersionId : Id
  status : String
  outputDigest : Option String
  outputs : List Output

/-- The types of the nodes that edges join. -/
inductive NodeType where
  | fact
  | intermediateArtifact
  | derivationRun
  | parameterVersion
  | other (name : String)
deriving DecidableEq, Repr

/-- A row of `provenance_edge`. -/
structure ProvenanceEdge where
  derivationRunId : Id
  sourceType : NodeType
  sourceId : Id
  targetType : NodeType
  targetId : Id
  edgeType : String

/-- The tables, as the session of the caller sees them. -/
structure Db where
  facts : Dict Id Fact := ∅
  evidenceSets : Dict Id Bool := ∅
  versions : Dict Id EvidenceSetVersion := ∅
  recipes : Dict Id RecipeVersion := ∅
  runs : Dict Id DerivationRun := ∅
  edges : List ProvenanceEdge := []

/-- The facts of the included members. -/
def EvidenceSetVersion.factIds (v : EvidenceSetVersion) : List Id :=
  v.members.filterMap (fun m => if m.decision = .included then m.factId else none)

/-! ## Executors -/

/-- A `DerivationExecutor`: what it makes of values and parameters, or the exception it raises. -/
structure Executor where
  execute : List Decimal → Dict String Json → Except String Output

/-- The executors of a process, by name and version. -/
abbrev Registry := Dict (String × String) Executor

/-- What a call raises: an expected error, or the exception of an executor. -/
inductive Failure where
  | app (e : AppError)
  | raised (text : String)

def RecipeVersion.algoParams (r : RecipeVersion) : Dict String Json := r.parameters.set "random_seed" (.int r.randomSeed)

/-- The outputs of an executor on some values: one for each output definition, under its name, or the executor's own. -/
def runExecutor (executor : Executor) (r : RecipeVersion) (values : List Decimal) : Except String (List Output) :=
  if r.outputDefinitions = [] then (executor.execute values r.algoParams).map (fun result => [result])
  else
    r.outputDefinitions.mapM (fun outDef =>
      (executor.execute values r.algoParams).map (fun result => { result with variableCode := outDef }))

/-- An output as `_compute_output_digest` serialises it. -/
def Output.toJson (o : Output) : Json :=
  .obj [("variable_code", .str o.variableCode), ("value", .str o.value),
        ("unit", (o.unit.map Json.str).getD .null), ("confidence", .float o.confidence),
        ("exclusion_reasons", .arr (o.exclusionReasons.map Json.str))]

def computeOutputDigest (outputs : List Output) : String :=
  Sha256.hexdigest (Json.compact (.arr ((StableSort.sortBy Output.variableCode outputs).map Output.toJson)))

/-! ## Services -/

structure DerivationRunRef where
  id : Id
  status : String
  outputDigest : String
  outputs : List Output

def notFound (message : String) (field : String) (id : Id) : Failure :=
  .app { code := "not_found", message := message ++ ": " ++ toString id, fields := [(field, .str (toString id))] }

/-- `EvidenceService.freeze`, of a set that may be frozen already; the version takes the id `versionId`. -/
def freeze (versionId setId : Id) (db : Db) : Except Failure Db :=
  match db.evidenceSets.get? setId with
  | none => .error (notFound "证据集不存在" "set_id" setId)
  | some frozen =>
    if frozen then
      .error (.app { code := "evidence_not_frozen", message := "证据集已冻结，无法再次冻结",
                     fields := [("set_id", .str (toString setId))] })
    else
      let facts := StableSort.sortBy (fun e => e.2.createdAt) (db.facts.entries.filter (fun e => e.2.status = "active"))
      let members := facts.map (fun e => { factId := some e.1, decision := .included, reason := "自动纳入" })
      .ok { db with
        versions := db.versions.set versionId
          { evidenceSetId := setId, members := members, memberCount := members.length },
        evidenceSets := db.evidenceSets.set setId true }

/-- `create_run`; the run takes the id `runId`, and the INSERT raises when there is a run with it. -/
def createRun (registry : Registry) (runId evidenceSetVersionId recipeVersionId : Id) (db : Db) :
    Except Failure (DerivationRunRef × Db) :=
  match db.versions.get? evidenceSetVersionId with
  | none => .error (notFound "证据集版本不存在" "evidence_set_version_id" evidenceSetVersionId)
  | some evVersion =>
    match db.recipes.get? recipeVersionId with
    | none => .error (notFound "配方版本不存在" "recipe_version_id" recipeVersionId)
    | some recipe =>
      if recipe.status ≠ .published then
        .error (.app { code := "recipe_not_published", message := "配方版本未发布",
                       fields := [("recipe_version_id", .str (toString recipeVersionId))] })
      else
        match registry.get? (recipe.componentName, recipe.componentVersion) with
        | none =>
          .error (.app
            { code := "component_unavailable",
              message := "推导执行器不可用: " ++ recipe.componentName ++ "@" ++ recipe.componentVersion,
              fields := [("component_name", .str recipe.componentName),
                         ("component_version", .str recipe.componentVersion)] })
        | some executor =>
          -- the values stay empty: the table they were read from is gone
          match runExecutor executor recipe [] with
          | .error text => .error (.raised text)
          | .ok outputs =>
            if (db.runs.get? runId).isSome then .error (.raised "IntegrityError")
            else
              let digest := computeOutputDigest outputs
              .ok ({ id := runId, status := "succeeded", outputDigest := digest, outputs := outputs },
                   { db with
                     runs := db.runs.set runId
                       { evidenceSetVersionId := evidenceSetVersionId, recipeVersionId := recipeVersionId,
                         status := "succeeded", outputDigest := some digest, outputs := outputs },
                     edges := db.edges ++ evVersion.factIds.map (fun f =>
                       { derivationRunId := runId, sourceType := .derivationRun, sourceId := runId,
                         targetType := .fact, targetId := f, edgeType := "selected_from" }) })

/-- `replay`: the answer, and the tables, to which the new run has been committed before the digests are compared. -/
def replay (registry : Registry) (newId runId : Id) (db : Db) : Except Failure DerivationRunRef × Db :=
  match db.runs.get? runId with
  | none => (.error (notFound "推导运行不存在" "run_id" runId), db)
  | some original =>
    match createRun registry newId original.evidenceSetVersionId original.recipeVersionId db with
    | .error e => (.error e, db)
    | .ok (newRef, db') =>
      if some newRef.outputDigest ≠ original.outputDigest then
        (.error (.app
          { code := "validation_failed",
            message := "回放输出摘要不匹配: original=" ++ original.outputDigest.getD "None" ++
              ", replay=" ++ newRef.outputDigest,
            fields := [("original_digest", (original.outputDigest.map Json.str).getD .null),
                       ("replay_digest", .str newRef.outputDigest)] }), db')
      else (.ok newRef, db')

/-! ## What a call does -/

section Create

variable {registry : Registry} {runId evidenceSetVersionId recipeVersionId : Id} {db db' : Db} {ref : DerivationRunRef}

/-- A run can be created: the version is there, the recipe is published, and its executor is registered. -/
structure Available (registry : Registry) (evidenceSetVersionId recipeVersionId : Id) (db : Db)
    (v : EvidenceSetVersion) (r : RecipeVersion) (executor : Executor) : Prop where
  version : db.versions.get? evidenceSetVersionId = some v
  recipe : db.recipes.get? recipeVersionId = some r
  published : r.status = .published
  executor : registry.get? (r.componentName, r.componentVersion) = some executor

/-- The edges of a run to the facts it is selected from. -/
def selectedFrom (runId : Id) (facts : List Id) : List ProvenanceEdge :=
  facts.map (fun f =>
    { derivationRunId := runId, sourceType := .derivationRun, sourceId := runId,
      targetType := .fact, targetId := f, edgeType := "selected_from" })

/-- **What `create_run` does**: it runs the executor on no values, whatever the evidence. -/
theorem createRun_ok : createRun registry runId evidenceSetVersionId recipeVersionId db = .ok (ref, db') ↔
    ∃ v r executor outputs, Available registry evidenceSetVersionId recipeVersionId db v r executor ∧
      runExecutor executor r [] = .ok outputs ∧ db.runs.get? runId = none ∧
      ref = { id := runId, status := "succeeded", outputDigest := computeOutputDigest outputs, outputs := outputs } ∧
      db' = { db with
        runs := db.runs.set runId
          { evidenceSetVersionId := evidenceSetVersionId, recipeVersionId := recipeVersionId,
            status := "succeeded", outputDigest := some (computeOutputDigest outputs), outputs := outputs },
        edges := db.edges ++ selectedFrom runId v.factIds } := by
  unfold createRun
  constructor
  · intro h
    split at h
    · cases h
    · next v hv =>
        split at h
        · cases h
        · next r hr =>
            split at h
            · cases h
            · next hstatus =>
                split at h
                · cases h
                · next executor hexecutor =>
                    split at h
                    · cases h
                    · next outputs houtputs =>
                        split at h
                        · cases h
                        · next hid =>
                            obtain ⟨rfl, rfl⟩ := Prod.mk.inj (Except.ok.inj h)
                            exact ⟨v, r, executor, outputs, ⟨hv, hr, not_not.mp hstatus, hexecutor⟩, houtputs,
                              by simpa using hid, rfl, rfl⟩
  · rintro ⟨v, r, executor, outputs, ⟨hv, hr, hstatus, hexecutor⟩, houtputs, hid, rfl, rfl⟩
    simp only [hv, hr, hstatus, hexecutor, houtputs, hid, ne_eq, not_true_eq_false, if_false, Option.isSome_none,
      Bool.false_eq_true]
    rfl

end Create

end Irip.Provenance
