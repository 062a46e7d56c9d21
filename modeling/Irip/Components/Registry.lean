import Mathlib.Data.String.Basic
import Irip.Base.Choice
import Irip.Base.Dict
import Irip.Base.Sha256
import Irip.Base.StableSort
import Irip.Base.Txn
import Irip.Common

/-!
# `Components.Registry` — the component registry

The name line of a manifest is rewritten in its text; a publication gives the component its next number.
-/

namespace Irip.Components

/-- What a call raises: an error of the application, one of the database, or one of Python. -/
inductive Exn where
  | app (e : AppError)
  | integrity
  | stale
  | python

/-! ## Manifests -/

/-- `ComponentManifest`, with the fields that publishing reads. -/
structure ComponentManifest where
  name : String
  kind : String
  rawYaml : String
  sha256 : String
  digest : sha256 = Sha256.hexdigest rawYaml.toList

/-! ## The name line -/

/-- What follows a match of `name:\s*\S+.*`: the blanks may reach over lines, the match ends with the line of the
first character that is none. -/
def afterNameLine? (cs : List Char) : Option (List Char) :=
  if "name:".toList.isPrefixOf cs then
    match (cs.drop 5).dropWhile isSpace with
    | [] => none
    | c :: rest => some ((c :: rest).dropWhile (fun c => c ≠ '\n'))
  else none

/-- `re.sub(r"^name:\s*\S+.*", new, text, count=1, flags=re.MULTILINE)`, from the start of a line or from within it. -/
def renamed (new : List Char) : Bool → List Char → List Char
  | _, [] => []
  | atLine, c :: cs =>
    match if atLine then afterNameLine? (c :: cs) else none with
    | some rest => new ++ rest
    | none => c :: renamed new (c = '\n') cs

/-- `updated_yaml`. A component's name has no backslash, so that it stands for itself in the replacement. -/
def updatedYaml (name rawYaml : String) : String :=
  String.ofList (renamed ("name: " ++ name).toList true rawYaml.toList)

/-! ## Numbers -/

/-- The number with its third part, the patch, one higher. -/
def bump (version : String) : Except Exn String :=
  match (version.toList.splitOn '.').map String.ofList with
  | major :: minor :: patch :: _ =>
    match pyInt? patch with
    | some n => .ok (major ++ "." ++ minor ++ "." ++ toString (n + 1))
    | none => .error .python
  | _ => .error .python

/-- `auto_version`. -/
def nextVersion : Option String → Except Exn String
  | none => .ok "1.0.0"
  | some version => if (version.toList.splitOn '.').length = 3 then bump version else .ok "1.0.0"

example : (nextVersion (some "1.0.9")).toOption = some "1.0.10" := by decide +kernel

example : updatedYaml "iface_0a1b2c3d" "kind: model\nname:  old # x\nname: y"
    = "kind: model\nname: iface_0a1b2c3d\nname: y" := by decide +kernel

open Choice

/-! ## Rows -/

structure Component where
  name : String
  kind : String
  status : String := "draft"
  activeVersionId : Option Uuid := none
  lockVersion : Int := 0
  deriving DecidableEq

structure ComponentVersion where
  componentId : Uuid
  version : String
  manifestYaml : String
  manifestSha256 : String
  status : String := "published"
  createdAt : Time
  deriving DecidableEq

/-- The tables, and the ids of the components there were, which are not drawn again. -/
structure Database where
  components : Dict Uuid Component := ∅
  versions : Dict Uuid ComponentVersion := ∅
  retired : List Uuid := []

/-- The versions of a component. -/
def Database.versionsOf (d : Database) (componentId : Uuid) : List (Uuid × ComponentVersion) :=
  d.versions.entries.filter (fun e => e.2.componentId = componentId)

/-! ## Writes -/

/-- The columns that an UPDATE of a component sets. -/
structure Change where
  activeVersionId : Option Uuid := none
  status : Option String := none
  lockVersion : Int

/-- A row after an UPDATE. -/
def Change.onto (ch : Change) (c : Component) : Component where
  name := c.name
  kind := c.kind
  status := ch.status.getD c.status
  activeVersionId := ch.activeVersionId.or c.activeVersionId
  lockVersion := ch.lockVersion

/-- The effect of a statement on rows. -/
inductive Write where
  | insertComponent (id : Uuid) (row : Component)
  | updateComponent (id : Uuid) (change : Change)
  | clearActive (id : Uuid)
  | deleteComponent (id : Uuid)
  | insertVersion (id : Uuid) (row : ComponentVersion)
  | deleteVersions (componentId : Uuid)

/-- The tables after a write. The versions of a component go with it (`ON DELETE CASCADE`). -/
def Write.apply : Write → Database → Database
  | .insertComponent id row, d => { d with components := d.components.set id row }
  | .updateComponent id change, d => { d with components := d.components.modify id change.onto }
  | .clearActive id, d =>
    { d with components := d.components.modify id (fun c => { c with activeVersionId := none }) }
  | .deleteComponent id, d =>
    { components := d.components.erase id
      versions := d.versions.eraseWhere (fun v => v.componentId = id)
      retired := id :: d.retired }
  | .insertVersion id row, d => { d with versions := d.versions.set id row }
  | .deleteVersions componentId, d =>
    { d with versions := d.versions.eraseWhere (fun v => v.componentId = componentId) }

/-! ## Statements -/

/-- A statement of the registry, or a draw. -/
inductive Op where
  | begin
  | newId
  | genCode
  | selectByName (name : String)
  | selectComponent (id : Uuid)
  | selectVersionById (id : Uuid)
  | selectNewest (componentId : Uuid)
  | selectVersion (componentId : Uuid) (version : String)
  | insertComponent (id : Uuid) (row : Component)
  | insertVersion (id : Uuid) (row : ComponentVersion)
  | updateComponent (id : Uuid) (change : Change)
  | clearActive (id : Uuid)
  | deleteVersions (componentId : Uuid)
  | deleteComponent (id : Uuid)

/-- What it answers. -/
@[reducible] def Res : Op → Type
  | .begin => Time
  | .newId => Uuid
  | .genCode => String
  | .selectByName _ => Option (Uuid × Component)
  | .selectComponent _ => Option Component
  | .selectVersionById _ => Option ComponentVersion
  | .selectNewest _ => Option (Uuid × ComponentVersion)
  | .selectVersion _ _ => Option (Uuid × ComponentVersion)
  | .insertComponent _ _ => Except Exn Unit
  | .insertVersion _ _ => Except Exn Unit
  | .updateComponent _ _ => Except Exn Unit
  | .clearActive _ => Unit
  | .deleteVersions _ => Except Exn Unit
  | .deleteComponent _ => Unit

/-- What the surroundings contribute to an answer: the time at which the transaction began, the random source, the row
that is given of several, and the components that row-level security hides from the caller. -/
structure Answer where
  now : Time := 0
  id : Uuid := ""
  code : List (Fin 16) := []
  row : Nat := 0
  hidden : List Uuid := []

/-- The number is not taken, and the row is of a component there is. -/
def admits (d : Database) (id : Uuid) (row : ComponentVersion) : Bool :=
  (d.components.get? row.componentId).isSome && (d.versions.get? id).isNone &&
    !d.versions.anyRow (fun v => v.componentId = row.componentId && v.version = row.version)

/-- Some component points to one of the versions. -/
def pointedTo (d : Database) (componentId : Uuid) : Bool :=
  (d.versionsOf componentId).any (fun e => d.components.anyRow (fun c => c.activeVersionId = some e.1))

/-- What a statement answers on the tables, and what it writes. -/
def handle : (o : Op) → Answer → Database → Option (Res o × List Write)
  | .begin, a, _ => some (a.now, [])
  | .newId, a, _ => some (a.id, [])
  | .genCode, a, _ =>
    if a.code.length = 8 then some ("iface_" ++ String.ofList (a.code.map (fun n => Json.hexChar n)), []) else none
  | .selectByName name, a, d =>
    some (pick a.row (d.components.entries.filter (fun e => e.2.name = name && e.1 ∉ a.hidden)), [])
  | .selectComponent id, a, d => some (if id ∈ a.hidden then none else d.components.get? id, [])
  | .selectVersionById id, a, d =>
    some ((d.versions.get? id).filter
      (fun v => (d.components.get? v.componentId).isSome && v.componentId ∉ a.hidden), [])
  | .selectNewest componentId, a, d =>
    some (pick a.row (latest (fun e => e.2.createdAt) (d.versionsOf componentId)), [])
  | .selectVersion componentId version, a, d =>
    some (pick a.row ((d.versionsOf componentId).filter (fun e => e.2.version = version)), [])
  | .insertComponent id row, _, d =>
    -- a new id: there is no component of it, and was none, so that no version refers to it
    if (d.components.get? id).isNone && id ∉ d.retired && (d.versionsOf id).isEmpty then
      some (.ok (), [.insertComponent id row])
    else some (.error .integrity, [])
  | .insertVersion id row, _, d =>
    if admits d id row then some (.ok (), [.insertVersion id row]) else some (.error .integrity, [])
  | .updateComponent id change, _, d =>
    if (d.components.get? id).isNone then some (.error .stale, [])
    -- the foreign key of `active_version_id`
    else if change.activeVersionId.all (fun v => (d.versions.get? v).isSome) then
      some (.ok (), [.updateComponent id change])
    else some (.error .integrity, [])
  | .clearActive id, _, d =>
    some ((), if ((d.components.get? id).bind Component.activeVersionId).isSome then [.clearActive id] else [])
  | .deleteVersions componentId, _, d =>
    if pointedTo d componentId then some (.error .integrity, []) else some (.ok (), [.deleteVersions componentId])
  | .deleteComponent id, _, d =>
    some ((), if (d.components.get? id).isSome then [.deleteComponent id] else [])

/-- The row of `component` a write is of. -/
def Write.component : Write → Option Uuid
  | .insertComponent id _ => some id
  | .updateComponent id _ => some id
  | .clearActive id => some id
  | .deleteComponent id => some id
  | _ => none

/-- The row of `component_version` a write inserts. -/
def Write.version : Write → Option Uuid
  | .insertVersion id _ => some id
  | _ => none

/-- The entry of the unique index on `(component_id, version)` a write claims. -/
def Write.claims : Write → Option (Uuid × String)
  | .insertVersion _ row => some (row.componentId, row.version)
  | _ => none

/-- The component a write refers to. -/
def Write.refers : Write → Option Uuid
  | .insertVersion _ row => some row.componentId
  | _ => none

/-- The component a write brings or takes away. -/
def Write.settles : Write → Option Uuid
  | .insertComponent id _ => some id
  | .deleteComponent id => some id
  | _ => none

/-- Both are there and the same. -/
def both {α : Type} [DecidableEq α] (x y : Option α) : Bool := x.isSome && decide (x = y)

/-- Two writes of one row or of one number of a component, or of a component and a reference to it. -/
def conflict (w w' : Write) : Bool :=
  both w.component w'.component || both w.version w'.version || both w.claims w'.claims
    || both w.refers w'.settles || both w'.refers w.settles

/-- The database of the registry. -/
def engine : Engine Database Write Answer Op Res where
  apply := Write.apply
  conflict := conflict
  handle := handle

/-! ## Calls -/

/-- A call in its transaction. -/
abbrev M (α : Type) : Type := Prog Op Res Exn α

/-- One statement. -/
abbrev ask (o : Op) : M (Res o) := Prog.perform o

/-- What a call returns: a version with its component, a component, or nothing. -/
inductive Reply where
  | version (componentId id : Uuid)
  | component (id : Uuid)
  | done

def notFound (message : String) (fields : List (String × Json)) : Exn :=
  .app { code := "not_found", message := message, fields := fields }

/-- The component of the manifest's name; `iface_ffff…` stands for a new one. -/
def findComponent (manifest : ComponentManifest) : M (Option (Uuid × Component)) :=
  if "iface_ffff".toList.isPrefixOf manifest.name.toList then .ret none else ask (.selectByName manifest.name)

/-- The component to publish under: the one of the manifest's name, or a new one with a name that is drawn. -/
def publishedComponent (manifest : ComponentManifest) : M (Uuid × Component) := do
  let component ← findComponent manifest
  match component with
  | none => do
    let code ← ask .genCode
    let id ← ask .newId
    let inserted ← ask (.insertComponent id { name := code, kind := manifest.kind })
    let _ ← Prog.lift inserted
    return (id, { name := code, kind := manifest.kind })
  | some (id, c) =>
    if c.kind ≠ manifest.kind then
      .raise (.app {
        code := "conflict", message := "组件 kind 不一致: 已有 " ++ c.kind ++ ", 新版本 " ++ manifest.kind
        fields := [("name", .str manifest.name)] })
    else return (id, c)

/-- The last statements of `publish`. -/
def insertPublished (manifest : ComponentManifest) (now : Time) (id : Uuid) (c : Component) (autoVersion : String) :
    M Reply := do
  let versionId ← ask .newId
  let inserted ← ask (.insertVersion versionId {
    componentId := id, version := autoVersion, manifestYaml := updatedYaml c.name manifest.rawYaml
    manifestSha256 := manifest.sha256, createdAt := now })
  let _ ← Prog.lift inserted
  let updated ← ask (.updateComponent id {
    activeVersionId := some versionId
    status := if c.status = "published" then none else some "published"
    lockVersion := c.lockVersion + 1 })
  let _ ← Prog.lift updated
  return .version id versionId

def publish (manifest : ComponentManifest) : M Reply := do
  let now ← ask .begin
  let (id, c) ← publishedComponent manifest
  let latestVersion ← ask (.selectNewest id)
  let autoVersion ← Prog.lift (nextVersion (latestVersion.map (fun e => e.2.version)))
  let existing ← ask (.selectVersion id autoVersion)
  match existing with
  | none => insertPublished manifest now id c autoVersion
  | some (versionId, v) =>
    if v.manifestSha256 = manifest.sha256 then return .version id versionId
    else do
      let autoVersion ← Prog.lift (bump autoVersion)
      insertPublished manifest now id c autoVersion

def activateVersion (versionId : Uuid) : M Reply := do
  let version ← ask (.selectVersionById versionId)
  match version with
  | none => .raise (notFound ("组件版本不存在: " ++ versionId) [])
  | some v => do
    let component ← ask (.selectComponent v.componentId)
    match component with
    | none => return .version v.componentId versionId
    | some c => do
      let updated ← ask (.updateComponent v.componentId {
        activeVersionId := if c.activeVersionId = some versionId then none else some versionId
        status := if c.status = "published" then none else some "published"
        lockVersion := c.lockVersion + 1 })
      let _ ← Prog.lift updated
      return .version v.componentId versionId

/-- What `deprecate` and `restore` share. -/
def setStatus (name status : String) : M Reply := do
  let component ← ask (.selectByName name)
  match component with
  | none => .raise (notFound ("组件不存在: " ++ name) [("name", .str name)])
  | some (id, c) => do
    let updated ← ask (.updateComponent id {
      status := if c.status = status then none else some status, lockVersion := c.lockVersion + 1 })
    let _ ← Prog.lift updated
    return .component id

/-- `ComponentRegistryService.deprecate`. -/
def deprecate_ (name : String) : M Reply := setStatus name "deprecated"

def restore (name : String) : M Reply := setStatus name "published"

def deleteComponent (componentId : Uuid) : M Reply := do
  let component ← ask (.selectComponent componentId)
  match component with
  | none => .raise (notFound ("组件不存在: " ++ componentId) [("component_id", .str componentId)])
  | some _ => do
    let _ ← ask (.clearActive componentId)
    let deleted ← ask (.deleteVersions componentId)
    let _ ← Prog.lift deleted
    let _ ← ask (.deleteComponent componentId)
    return .done

/-- A call of the service. -/
inductive Call where
  | publish (manifest : ComponentManifest)
  | activateVersion (versionId : Uuid)
  | deprecateComponent (name : String)
  | restoreComponent (name : String)
  | deleteComponent (componentId : Uuid)

/-- The program of a call. -/
def prog : Call → M Reply
  | .publish manifest => publish manifest
  | .activateVersion versionId => activateVersion versionId
  | .deprecateComponent name => deprecate_ name
  | .restoreComponent name => restore name
  | .deleteComponent componentId => deleteComponent componentId

/-! ## Reads -/

/-- Who reads: the components that row-level security hides, and the row that is given of several. -/
structure Reader where
  hidden : List Uuid := []
  row : Nat := 0

/-- The published version that the component points to. -/
def Database.active (d : Database) (c : Component) : Option (Uuid × ComponentVersion) :=
  c.activeVersionId.bind (fun id => ((d.versions.get? id).filter (fun v => v.status = "published")).map (fun v => (id, v)))

/-- The newest published version of a component. -/
def newestPublished (r : Reader) (d : Database) (componentId : Uuid) : Option (Uuid × ComponentVersion) :=
  pick r.row (latest (fun e => e.2.createdAt) ((d.versionsOf componentId).filter (fun e => e.2.status = "published")))

def getLatest (r : Reader) (d : Database) (name : String) : Except Exn (Uuid × ComponentVersion) :=
  match pick r.row (d.components.entries.filter (fun e => e.2.name = name && e.1 ∉ r.hidden)) with
  | none => .error (notFound ("组件不存在: " ++ name) [("name", .str name)])
  | some (id, c) =>
    match (d.active c).or (newestPublished r d id) with
    | some e => .ok e
    | none => .error (notFound ("组件无已发布版本: " ++ name) [("name", .str name)])

def getByComponentId (r : Reader) (d : Database) (compId : Uuid) : Except Exn (Uuid × ComponentVersion) :=
  match if (d.components.get? compId).isSome && compId ∉ r.hidden then
      pick r.row (latest (fun e => e.2.createdAt) (d.versionsOf compId)) else none with
  | some e => .ok e
  | none => .error (notFound ("组件不存在: " ++ compId) [("component_id", .str compId)])

/-- What `list_all` gives for one component. -/
def listed (r : Reader) (d : Database) (e : Uuid × Component) :
    Option ((Uuid × Component) × (Uuid × ComponentVersion)) :=
  ((e.2.activeVersionId.bind (fun id => (d.versions.get? id).map (fun v => (id, v)))).or
    (newestPublished r d e.1)).map (fun v => (e, v))

/-- `ComponentRegistryService.list_all`: the components with a row of their active version, the others after them. -/
def listAll (r : Reader) (d : Database) (kind status : Option String) :
    List ((Uuid × Component) × (Uuid × ComponentVersion)) :=
  let rows := d.components.entries.filter (fun e => e.1 ∉ r.hidden)
  let joined (e : Uuid × Component) := (e.2.activeVersionId.bind d.versions.get?).isSome
  let result := (rows.filter joined ++ rows.filter (fun e => !joined e)).filterMap (listed r d)
  let filtered := (result.filter (fun e => kind.all (fun k => e.1.2.kind = k))).filter
    (fun e => status.all (fun s => e.1.2.status = s))
  StableSort.sortBy (fun e => e.1.2.name) filtered

end Irip.Components
