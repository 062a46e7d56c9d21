import Irip.Base.Jsonb
import Irip.Base.Sha256
import Irip.Common

/-!
# `Models.Contract` — the contract of a model version, as it is given and as it is stored

What is read back from the column is `ModelContract.stored`.
-/

namespace Irip.Models

open Json (jsonbMembers)

/-! ## Contracts -/

/-- The members of a dictionary, in its order. -/
abbrev Fields := List (String × Json)

structure ModelContract where
  name : String
  version : String
  inputSchema : Fields
  outputSchema : Fields
  applicabilityDomain : Fields
  sha256 : String := ""
  executor : Fields := []
  artifactSha256 : String := ""
  artifactSignature : String := ""
  signingPublicKey : String := ""
  publisher : String := ""

/-- `compute_contract_sha256`. -/
def computeContractSha256 (name version : String) (inputSchema outputSchema applicabilityDomain : Fields) : String :=
  Sha256.hexdigest (Json.chars (.obj
    [("name", .str name), ("version", .str version), ("input_schema", .obj inputSchema),
     ("output_schema", .obj outputSchema), ("applicability_domain", .obj applicabilityDomain)]))

namespace ModelContract

def postInit (c : ModelContract) : ModelContract :=
  if c.sha256 = "" then
    { c with sha256 := computeContractSha256 c.name c.version c.inputSchema c.outputSchema c.applicabilityDomain }
  else c

/-! ## Dictionaries -/

def toDict (c : ModelContract) : Fields :=
  [("name", .str c.name), ("version", .str c.version), ("input_schema", .obj c.inputSchema),
   ("output_schema", .obj c.outputSchema), ("applicability_domain", .obj c.applicabilityDomain),
   ("sha256", .str c.sha256), ("artifact_sha256", .str c.artifactSha256),
   ("artifact_signature", .str c.artifactSignature), ("signing_public_key", .str c.signingPublicKey),
   ("publisher", .str c.publisher)] ++
  (if c.executor.isEmpty then [] else [("executor", .obj c.executor)])

/-- `data.get(key, "")`, for a text. -/
def textOr (data : Fields) (key : String) : Option String :=
  match data.lookup key with
  | none => some ""
  | some (.str s) => some s
  | some _ => none

/-- `data.get(key, {}) or {}`, for a dictionary. -/
def fieldsOr (data : Fields) (key : String) : Option Fields :=
  match data.lookup key with
  | none => some []
  | some (.obj fs) => some fs
  | some _ => none

/-- `from_dict`, for dictionaries whose members have the types `to_dict` gives them. -/
def fromDict (data : Fields) : Option ModelContract := do
  let name ← (data.lookup "name").bind Json.asStr
  let version ← (data.lookup "version").bind Json.asStr
  return postInit
    { name := name
      version := version
      inputSchema := ← fieldsOr data "input_schema"
      outputSchema := ← fieldsOr data "output_schema"
      applicabilityDomain := ← fieldsOr data "applicability_domain"
      sha256 := ← textOr data "sha256"
      executor := ← fieldsOr data "executor"
      artifactSha256 := ← textOr data "artifact_sha256"
      artifactSignature := ← textOr data "artifact_signature"
      signingPublicKey := ← textOr data "signing_public_key"
      publisher := ← textOr data "publisher" }

/-! ## The column -/

/-- The contract with the members of all its dictionaries in the order of the column. -/
def stored (c : ModelContract) : ModelContract :=
  postInit
    { c with
      inputSchema := jsonbMembers c.inputSchema
      outputSchema := jsonbMembers c.outputSchema
      applicabilityDomain := jsonbMembers c.applicabilityDomain
      executor := jsonbMembers c.executor }

variable {c : ModelContract}

@[simp] theorem postInit_inputSchema : c.postInit.inputSchema = c.inputSchema := by
  unfold postInit
  split <;> rfl

@[simp] theorem postInit_outputSchema : c.postInit.outputSchema = c.outputSchema := by
  unfold postInit
  split <;> rfl

@[simp] theorem stored_inputSchema : c.stored.inputSchema = jsonbMembers c.inputSchema := postInit_inputSchema

@[simp] theorem stored_outputSchema : c.stored.outputSchema = jsonbMembers c.outputSchema := postInit_outputSchema

theorem textOr_jsonb {data : Fields} {key s : String} (h : data.lookup key = some (.str s)) :
    textOr (jsonbMembers data) key = some s := by
  rw [textOr, Json.lookup_jsonbMembers, h, Option.map_some, Json.jsonb_str]

theorem fieldsOr_jsonb {data : Fields} {key : String} {fs : Fields} (h : data.lookup key = some (.obj fs)) :
    fieldsOr (jsonbMembers data) key = some (jsonbMembers fs) := by
  rw [fieldsOr, Json.lookup_jsonbMembers, h, Option.map_some, Json.jsonb_obj]

theorem fieldsOr_executor : fieldsOr (jsonbMembers c.toDict) "executor" = some (jsonbMembers c.executor) := by
  by_cases hempty : c.executor = []
  · have hlookup : c.toDict.lookup "executor" = none := by
      unfold toDict
      rw [hempty]
      rfl
    rw [fieldsOr, Json.lookup_jsonbMembers, hlookup, hempty]
    rfl
  · apply fieldsOr_jsonb
    unfold toDict
    rw [if_neg (by rwa [List.isEmpty_iff])]
    rfl

/-- **The round trip through the column** changes the order of members, and nothing else. -/
theorem fromDict_jsonb (c : ModelContract) : fromDict (jsonbMembers c.toDict) = some c.stored := by
  have hname : (jsonbMembers c.toDict).lookup "name" = some (.str c.name) := by
    rw [Json.lookup_jsonbMembers, show c.toDict.lookup "name" = some (.str c.name) from rfl, Option.map_some,
      Json.jsonb_str]
  have hversion : (jsonbMembers c.toDict).lookup "version" = some (.str c.version) := by
    rw [Json.lookup_jsonbMembers, show c.toDict.lookup "version" = some (.str c.version) from rfl, Option.map_some,
      Json.jsonb_str]
  unfold fromDict
  rw [hname, hversion, fieldsOr_executor, @fieldsOr_jsonb _ "input_schema" c.inputSchema rfl,
    @fieldsOr_jsonb _ "output_schema" c.outputSchema rfl,
    @fieldsOr_jsonb _ "applicability_domain" c.applicabilityDomain rfl,
    @textOr_jsonb _ "sha256" c.sha256 rfl,
    @textOr_jsonb _ "artifact_sha256" c.artifactSha256 rfl,
    @textOr_jsonb _ "artifact_signature" c.artifactSignature rfl,
    @textOr_jsonb _ "signing_public_key" c.signingPublicKey rfl,
    @textOr_jsonb _ "publisher" c.publisher rfl]
  rfl

end ModelContract

end Irip.Models
