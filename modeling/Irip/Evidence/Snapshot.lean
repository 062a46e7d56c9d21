import Mathlib.Data.Prod.Lex
import Mathlib.Data.String.Basic
import Irip.Base.Dict
import Irip.Base.JsonText
import Irip.Base.StableSort
import Irip.Common

/-!
# `Evidence.Snapshot` — freezing the evidence of a workspace

The references of a workspace are read one after the other into tables by source id; the hash of the snapshot is taken
over one entry for each field of each reference, sorted by namespace, id and field.
-/

namespace Irip.Evidence

/-! ## Evidence -/

/-- An active reference of `research_evidence_ref`. -/
structure Ref where
  sourceNamespace : String
  sourceId : Uuid
  sourceVersion : Option String := none
deriving DecidableEq

/-- The object that `get_fact_data` answers. -/
structure FactData where
  members : List (String × Json)
  decoded : ∀ m ∈ members, m.2.Decoded

/-- A version of a derived dataset: the names in its field manifest and its hash. -/
structure DatasetVersion where
  versionNumber : Int
  fieldNames : List String
  contentHash : String

/-- What can be read while a snapshot is frozen: the facts the caller may read, and the versions of the datasets. -/
structure Sources where
  fact : Uuid → Option FactData
  dataset : Uuid → Option (List DatasetVersion)

/-! ## Fields -/

/-- `data.get("metadata", {})`, where it is an object. -/
def FactData.metadata (data : FactData) : List (String × Json) :=
  match data.members.lookup "metadata" with
  | some (.obj fs) => fs
  | _ => []

/-- The objects of `data.get("points", [])`, where it is a list. -/
def FactData.points (data : FactData) : List (List (String × Json)) :=
  match data.members.lookup "points" with
  | some (.arr ps) => ps.filterMap (fun p => match p with | .obj fs => some fs | _ => none)
  | _ => []

/-- The name of a point joins the fields, unless it is there. -/
def addPoint (fields : List String) (point : List (String × Json)) : List String :=
  match Json.get point "name" with
  | .null => fields
  | name => if name.pyStr ∈ fields then fields else fields ++ [name.pyStr]

/-- `get_fact_fields`: the keys of the metadata and the names of the points. -/
def getFactFields (data : FactData) : List String := data.points.foldl addPoint (data.metadata.map Prod.fst)

/-- `_extract_field_value`: what the metadata say, else the value of the first point with the name. -/
def extractFieldValue (data : FactData) (fieldName : String) : Json :=
  match data.metadata.lookup fieldName with
  | some value => value
  | none =>
    match data.points.find? (fun p => (Json.get p "name").asStr = some fieldName) with
    | some point => Json.get point "value"
    | none => .null

/-- The version number that a reference asks for: 1 where it names none. -/
def versionNumber (sourceVersion : Option String) : Int := (sourceVersion.bind pyInt?).getD 1

/-- `get_latest_dataset_version`. -/
def latestVersion (versions : List DatasetVersion) : Option DatasetVersion :=
  versions.find? (fun v => versions.all (fun w => w.versionNumber ≤ v.versionNumber))

/-- `_get_derived_data_for_hash`: the version that is asked for, or else the latest. -/
def derivedDataForHash (sources : Sources) (ref : Ref) : Option DatasetVersion :=
  match sources.dataset ref.sourceId with
  | none => none
  | some versions =>
    (versions.find? (fun v => v.versionNumber = versionNumber ref.sourceVersion)).or (latestVersion versions)

/-! ## Freezing -/

/-- `fact_fields_map`, `fact_data_map` and `derived_data_map`. -/
structure Tables where
  factFields : Dict Uuid (List String) := ∅
  factData : Dict Uuid FactData := ∅
  derivedData : Dict Uuid DatasetVersion := ∅

/-- The reference is to a derived dataset, published or not. -/
def Ref.IsDerived (ref : Ref) : Prop :=
  ref.sourceNamespace = "research:derived" ∨ ref.sourceNamespace = "research:published_derived"

instance (ref : Ref) : Decidable ref.IsDerived := inferInstanceAs (Decidable (_ ∨ _))

def forbidden (factId : Uuid) : AppError where
  code := "forbidden"
  message := "无权访问该 Fact 数据"
  fields := [("fact_id", .str factId)]

/-- One reference of the loop of `freeze_snapshot`. -/
def collectRef (sources : Sources) (tables : Tables) (ref : Ref) : Except AppError Tables :=
  if ref.sourceNamespace = "core:fact" then
    match sources.fact ref.sourceId with
    | none => .error (forbidden ref.sourceId)
    | some data =>
      .ok { tables with factFields := tables.factFields.set ref.sourceId (getFactFields data)
                        factData := tables.factData.set ref.sourceId data }
  else if ref.IsDerived then
    match derivedDataForHash sources ref with
    | none => .ok tables
    | some data =>
      .ok { tables with factFields := tables.factFields.set ref.sourceId data.fieldNames
                        derivedData := tables.derivedData.set ref.sourceId data }
  else .ok tables

/-- The loop of `freeze_snapshot`. -/
def collect (sources : Sources) : List Ref → Tables → Except AppError Tables
  | [], tables => .ok tables
  | ref :: refs, tables => do
    let tables ← collectRef sources tables ref
    collect sources refs tables

/-- An entry of the hashed list. -/
structure Entry where
  sourceNamespace : String
  sourceId : Uuid
  field : String
  value : Json

def Entry.toJson (e : Entry) : Json :=
  .obj [("namespace", .str e.sourceNamespace), ("id", .str e.sourceId), ("field", .str e.field), ("value", e.value)]

/-- What the entries are sorted by. -/
def Entry.key (e : Entry) : String ×ₗ String ×ₗ String := toLex (e.sourceNamespace, toLex (e.sourceId, e.field))

/-- The fields of a derived dataset, without values, and its hash under `_content_hash`. -/
def derivedFields (data : DatasetVersion) : List (String × Json) :=
  data.fieldNames.map (fun f => (f, .null)) ++
    (if data.contentHash = "" then [] else [("_content_hash", .str data.contentHash)])

/-- The fields of a reference and their values. -/
def refFields (tables : Tables) (ref : Ref) : List (String × Json) :=
  if ref.IsDerived then
    match tables.derivedData.get? ref.sourceId with
    | none => []
    | some data => derivedFields data
  else
    let data := tables.factData.getD ref.sourceId { members := [], decoded := by simp }
    (tables.factFields.getD ref.sourceId []).map (fun f => (f, extractFieldValue data f))

/-- The entries of the references. -/
def entriesOf (fields : Ref → List (String × Json)) (refs : List Ref) : List Entry :=
  refs.flatMap (fun ref => (fields ref).map (fun f =>
    { sourceNamespace := ref.sourceNamespace, sourceId := ref.sourceId, field := f.1, value := f.2 }))

/-- The JSON text of entries, sorted. -/
def entriesText (entries : List Entry) : List Char :=
  Json.compact (.arr ((StableSort.sortBy Entry.key entries).map Entry.toJson))

/-- `_compute_content_hash`, over a function for the hash of a text. -/
def computeContentHash (sha256 : List Char → String) (refs : List Ref) (tables : Tables) : String :=
  sha256 (entriesText (entriesOf (refFields tables) refs))

/-- `freeze_snapshot`, from the active references to the hash. -/
def freezeSnapshot (sha256 : List Char → String) (sources : Sources) (workspaceId : Uuid) (refs : List Ref) :
    Except AppError String :=
  if refs = [] then
    .error { code := "validation_failed", message := "无活跃证据引用，无法冻结快照",
             fields := [("workspace_id", .str workspaceId)] }
  else (collect sources refs {}).map (computeContentHash sha256 refs)

end Irip.Evidence
