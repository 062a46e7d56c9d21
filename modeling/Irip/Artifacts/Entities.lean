import Irip.Common
import Irip.Base.Dict
import Irip.Base.Sha256

/-!
# `Artifacts.Entities` — content-addressed artifacts, their blobs and the object store

Contents are byte strings, known by the key of their digest; the object store stands beside the tables.
-/

namespace Irip.Artifacts

/-! ## Contents -/

abbrev Bytes := List UInt8

/-- `sha256_bytes`. -/
def sha256Bytes (data : Bytes) : String := Sha256.digest (data.map UInt8.toNat)

def buildObjectKey (sha256 : String) : String :=
  "sha256/" ++ String.ofList (sha256.toList.take 2) ++ "/" ++ sha256

theorem buildObjectKey_injective {sha256 sha256' : String} (h : buildObjectKey sha256 = buildObjectKey sha256') :
    sha256 = sha256' := by
  have hchars : sha256.toList.take 2 ++ '/' :: sha256.toList = sha256'.toList.take 2 ++ '/' :: sha256'.toList := by
    have htoList := congrArg String.toList h
    simpa [buildObjectKey] using htoList
  -- equal texts have equal lengths, and the length of a key grows with that of the digest
  have hlength := congrArg List.length hchars
  simp only [List.length_append, List.length_cons, List.length_take] at hlength
  have htail : ('/' :: sha256.toList).length = ('/' :: sha256'.toList).length := by
    simp only [List.length_cons]
    omega
  obtain ⟨-, hcons⟩ := List.append_inj' hchars htail
  exact String.toList_injective (List.cons.inj hcons).2

/-! ## Rows -/

/-- `artifact_blob`; its primary key is the digest. -/
structure ArtifactBlob where
  objectKey : String
  sizeBytes : Nat
  mediaType : String
deriving DecidableEq

structure Artifact where
  departmentId : Uuid
  ownerUserId : Uuid
  visibilityScope : String := "tree"
  sha256 : String
  filename : String
  mediaType : String
  sizeBytes : Nat
  uploadedBy : Uuid
deriving DecidableEq

/-- The two tables. -/
structure Database where
  blobs : Dict String ArtifactBlob := ∅
  artifacts : Dict Uuid Artifact := ∅

/-- The object store. -/
abbrev Store := Dict String Bytes

structure ArtifactRef where
  artifactId : Uuid
  objectKey : String
  sha256 : String
  mediaType : String
  sizeBytes : Nat
  filename : String

def allowedMediaTypes : List String :=
  ["text/plain", "text/csv", "application/pdf",
   "application/vnd.openxmlformats-officedocument.spreadsheetml.sheet",
   "application/vnd.openxmlformats-officedocument.wordprocessingml.document",
   "image/png", "image/jpeg", "application/json"]

/-- What a call raises: a business error, a constraint of the database, or an error of the object store. -/
inductive Exn where
  | app (error : AppError)
  | integrity
  | store

/-! ## Reading -/

def artifactNotFound (artifactId : Uuid) : Exn :=
  .app { code := "not_found", message := s!"工件不存在: {artifactId}", fields := [("artifact_id", .str artifactId)] }

/-- `SELECT artifact, artifact_blob … WHERE artifact_blob.sha256 = artifact.sha256`. -/
def Database.artifactWithBlob (d : Database) (artifactId : Uuid) : Option (Artifact × ArtifactBlob) := do
  let artifact ← d.artifacts.get? artifactId
  let blob ← d.blobs.get? artifact.sha256
  return (artifact, blob)

/-- `get_bytes`, for a caller who may see the artifact. -/
def getBytes (d : Database) (store : Store) (artifactId : Uuid) : Except Exn Bytes :=
  match d.artifactWithBlob artifactId with
  | none => .error (artifactNotFound artifactId)
  | some (_, blob) =>
    match store.get? blob.objectKey with
    | none => .error .store
    | some data => .ok data

end Irip.Artifacts
