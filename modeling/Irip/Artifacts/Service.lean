import Irip.Artifacts.Entities
import Irip.Base.Txn

/-!
# `Artifacts.Service` — uploading and deleting artifacts

A call to the object store takes effect at once, whatever becomes of the transaction it is made in.

Each call is a program that runs in one transaction, and calls the object store on its way.
-/

namespace Irip.Artifacts

/-! ## Writes -/

/-- The effect of a statement on rows. -/
inductive Write where
  | insertBlob (sha256 : String) (row : ArtifactBlob)
  | insertArtifact (id : Uuid) (row : Artifact)
  | deleteArtifact (id : Uuid) (row : Artifact)
  | deleteBlob (sha256 : String)
deriving DecidableEq

/-- The tables after a write. -/
def Write.apply : Write → Database → Database
  | .insertBlob sha256 row, d => { d with blobs := d.blobs.set sha256 row }
  | .insertArtifact id row, d => { d with artifacts := d.artifacts.set id row }
  | .deleteArtifact id _, d => { d with artifacts := d.artifacts.erase id }
  | .deleteBlob sha256, d => { d with blobs := d.blobs.erase sha256 }

/-- The blob a write is of. -/
def Write.blob : Write → Option String
  | .insertBlob sha256 _ => some sha256
  | .deleteBlob sha256 => some sha256
  | _ => none

/-- The artifact a write is of. -/
def Write.artifact : Write → Option Uuid
  | .insertArtifact id _ => some id
  | .deleteArtifact id _ => some id
  | _ => none

/-- The blob a write refers to. -/
def Write.refers : Write → Option String
  | .insertArtifact _ row => some row.sha256
  | _ => none

/-- The blob a write takes away. -/
def Write.drops : Write → Option String
  | .deleteBlob sha256 => some sha256
  | _ => none

/-! ## Operations -/

/-- A statement of the service, or a call to the object store. -/
inductive Op where
  | selectBlob (sha256 : String)
  | putObject (key : String) (data : Bytes) (contentType : String)
  | headObject (key : String)
  | insertBlob (sha256 : String) (row : ArtifactBlob)
  | newId
  | insertArtifact (id : Uuid) (row : Artifact)
  | selectArtifact (id : Uuid)
  | deleteArtifact (id : Uuid)
  | countReferences (sha256 : String)
  | deleteBlob (sha256 : String)
  | deleteObject (key : String)

/-- What it answers. -/
@[reducible] def Res : Op → Type
  | .selectBlob _ => Option ArtifactBlob
  | .putObject _ _ _ => Except Exn Unit
  | .headObject _ => Except Exn Unit
  | .insertBlob _ _ => Except Exn Unit
  | .newId => Uuid
  | .insertArtifact _ _ => Except Exn Unit
  | .selectArtifact _ => Option (Artifact × ArtifactBlob)
  | .deleteArtifact _ => Unit
  | .countReferences _ => Nat
  | .deleteBlob _ => Except Exn Unit
  | .deleteObject _ => Except Exn Unit

/-- What the surroundings contribute to an answer: the random source, the artifacts that row-level security hides from
the caller, and how a call to the object store goes. One that raises may have taken effect. -/
structure Answer where
  id : Uuid := ""
  hidden : List Uuid := []
  raises : Bool := false
  effective : Bool := true

/-- How a call to the object store ends. -/
def Answer.outcome (a : Answer) : Except Exn Unit := if a.raises then .error .store else .ok ()

/-- The artifacts of a content. -/
def Database.references (d : Database) (sha256 : String) : List Uuid :=
  d.artifacts.keysWhere (fun row => row.sha256 = sha256)

/-- What a statement answers on the tables, and what it writes. -/
def handle : (o : Op) → Answer → Database → Option (Res o × List Write)
  | .selectBlob sha256, _, d => some (d.blobs.get? sha256, [])
  | .putObject _ _ _, a, _ => some (a.outcome, [])
  | .headObject _, a, _ => some (a.outcome, [])
  | .insertBlob sha256 row, _, d =>
    if (d.blobs.get? sha256).isNone then some (.ok (), [.insertBlob sha256 row]) else some (.error .integrity, [])
  | .newId, a, _ => some (a.id, [])
  | .insertArtifact id row, _, d =>
    -- the primary key, and the foreign key to the blob
    if (d.artifacts.get? id).isNone && (d.blobs.get? row.sha256).isSome then some (.ok (), [.insertArtifact id row])
    else some (.error .integrity, [])
  | .selectArtifact id, a, d => some (if id ∈ a.hidden then none else d.artifactWithBlob id, [])
  | .deleteArtifact id, _, d =>
    some ((), (d.artifacts.get? id).toList.map (fun row => .deleteArtifact id row))
  | .countReferences sha256, a, d => some (((d.references sha256).filter (fun id => id ∉ a.hidden)).length, [])
  | .deleteBlob sha256, _, d =>
    if (d.blobs.get? sha256).isNone then some (.ok (), [])
    -- the foreign key is not subject to row-level security
    else if (d.references sha256).isEmpty then some (.ok (), [.deleteBlob sha256])
    else some (.error .integrity, [])
  | .deleteObject _, a, _ => some (a.outcome, [])

/-! ## The object store -/

/-- The object store can answer so: a call that does not raise has put the object, or has found it. A `delete_object`
that does not raise may have met an error of the store all the same. -/
def Possible (store : Store) : Op → Answer → Bool
  | .putObject _ _ _, a => a.raises || a.effective
  | .headObject key, a => a.raises || (store.get? key).isSome
  | _, _ => true

/-- The object store after a call. -/
def onStore (store : Store) : Op → Answer → Store
  | .putObject key data _, a => if a.effective then store.set key data else store
  | .deleteObject key, a => if a.effective then store.erase key else store
  | _, _ => store

/-! ## The engine -/

/-- The one refers to a blob that the other deletes. -/
def severs (w w' : Write) : Bool := w.refers.isSome && w.refers == w'.drops

/-- Two writes of one row, or of a blob and a reference to it. -/
def conflict (w w' : Write) : Bool :=
  (w.blob.isSome && w.blob == w'.blob) || (w.artifact.isSome && w.artifact == w'.artifact)
    || severs w w' || severs w' w

/-- The database of the service. -/
def engine : Engine Database Write Answer Op Res where
  apply := Write.apply
  conflict := conflict
  handle := handle

/-- A call in its transaction. -/
abbrev M (α : Type) : Type := Prog Op Res Exn α

/-- One statement, or one call to the object store. -/
abbrev ask (o : Op) : M (Res o) := Prog.perform o

/-- What a call returns. -/
inductive Reply where
  | ref (ref : ArtifactRef)
  | done

/-- Who calls. -/
structure Caller where
  departmentId : Uuid
  uploadedBy : Uuid

/-! ## Calls -/

/-- The blob and the object of a content, for the blob that was found. -/
def ensureBlob (sha256 : String) (data : Bytes) (mediaType : String) (existingBlob : Option ArtifactBlob) : M Unit :=
  match existingBlob with
  | none => do
    let put ← ask (.putObject (buildObjectKey sha256) data mediaType)
    let _ ← Prog.lift put
    let inserted ← ask (.insertBlob sha256 {
      objectKey := buildObjectKey sha256, sizeBytes := data.length, mediaType := mediaType })
    Prog.lift inserted
  | some _ => do
    let head ← ask (.headObject (buildObjectKey sha256))
    match head with
    | .ok _ => return ()
    | .error _ => do
      let put ← ask (.putObject (buildObjectKey sha256) data mediaType)
      Prog.lift put

def putBytes (caller : Caller) (data : Bytes) (mediaType filename : String) : M Reply :=
  if mediaType ∉ allowedMediaTypes then
    .raise (.app {
      code := "unsupported_media_type", message := s!"不支持的媒体类型: {mediaType}"
      fields := [("media_type", .str mediaType)] })
  else do
    let existingBlob ← ask (.selectBlob (sha256Bytes data))
    let _ ← ensureBlob (sha256Bytes data) data mediaType existingBlob
    let id ← ask .newId
    let inserted ← ask (.insertArtifact id {
      departmentId := caller.departmentId, ownerUserId := caller.uploadedBy, sha256 := sha256Bytes data
      filename := filename, mediaType := mediaType, sizeBytes := data.length, uploadedBy := caller.uploadedBy })
    let _ ← Prog.lift inserted
    return .ref {
      artifactId := id, objectKey := buildObjectKey (sha256Bytes data), sha256 := sha256Bytes data
      mediaType := mediaType, sizeBytes := data.length, filename := filename }

def deleteArtifact (artifactId : Uuid) : M Reply := do
  let row ← ask (.selectArtifact artifactId)
  match row with
  | none => return .done
  | some (artifact, blob) => do
    let _ ← ask (.deleteArtifact artifactId)
    let refCount ← ask (.countReferences artifact.sha256)
    if refCount = 0 then do
      let deleted ← ask (.deleteBlob artifact.sha256)
      let _ ← Prog.lift deleted
      let deleted ← ask (.deleteObject blob.objectKey)
      let _ ← Prog.lift deleted
      return .done
    else return .done

/-! ## The system -/

/-- A call of the service. -/
inductive Call where
  | putBytes (caller : Caller) (data : Bytes) (mediaType filename : String)
  | deleteArtifact (artifactId : Uuid)

/-- The program of a call. -/
def prog : Call → M Reply
  | .putBytes caller data mediaType filename => putBytes caller data mediaType filename
  | .deleteArtifact artifactId => deleteArtifact artifactId

/-- The tables with the calls that were made, each in its transaction, and the object store. -/
structure Sys where
  server : Server Call Write Op Res Exn Reply Database
  store : Store

/-- What can happen next. -/
abbrev Step := Server.Action Call Answer

/-- What the `i`-th call does next. -/
def Sys.next (p : Sys) (i : Nat) : Option Op :=
  match p.server.sessions[i]? with
  | some ⟨_, _, some (.op o _)⟩ => some o
  | _ => none

/-- The object store after a step. -/
def Sys.after (p : Sys) : Step → Option Store
  | .step i a => (p.next i).bind (fun o => if Possible p.store o a then some (onStore p.store o a) else none)
  | _ => some p.store

/-- The step function. -/
def step (p : Sys) (act : Step) : Option Sys := do
  let server ← Server.step engine prog p.server act
  let store ← p.after act
  return ⟨server, store⟩

theorem step_some {p p' : Sys} {act : Step} (h : step p act = some p') :
    Server.step engine prog p.server act = some p'.server ∧ p.after act = some p'.store := by
  obtain ⟨server, hserver, h⟩ := Option.bind_eq_some_iff.mp h
  obtain ⟨store, hstore, h⟩ := Option.bind_eq_some_iff.mp h
  obtain rfl := Option.some.inj h
  exact ⟨hserver, hstore⟩

end Irip.Artifacts
