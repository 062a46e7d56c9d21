import Mathlib.Data.List.Lex
import Mathlib.Data.String.Basic
import Irip.Base.DateTime
import Irip.Base.Dict
import Irip.Base.StableSort
import Irip.Common

/-!
# `Backup.Manifest` — the manifest of a backup, and its validation before a restore

A backup is a directory: a finite map from relative paths to bytes. The manifest has digests of its payloads; a
validation takes them again over the directory that is presented and compares.
-/

namespace Irip.Backup

abbrev Bytes := List UInt8

abbrev Path := List String

/-! ## Directories -/

/-- A directory with the files below it. No file is also a directory, and a name has no slash. -/
structure Tree where
  root : String
  files : Dict Path Bytes
  names : ∀ p ∈ files.keys, ∀ name ∈ p, '/' ∉ name.toList
  apart : ∀ p ∈ files.keys, ∀ q ∈ files.keys, p <+: q → p = q

/-- `str(path)` of a relative path. -/
def pathText (p : Path) : String := String.ofList (List.intercalate ['/'] (p.map String.toList))

namespace Tree

variable (d : Tree)

/-- What is in the file at a path. -/
def read? (p : Path) : Option Bytes := d.files.get? p

/-- `path.exists()`: a file is at the path or below it. -/
def exists? (p : Path) : Bool := d.files.keys.any (fun q => p.isPrefixOf q)

/-- The files below a directory, by their paths relative to it, as `rglob` finds them. -/
def filesIn (dir : Path) : List (Path × Bytes) :=
  d.files.entries.filterMap (fun e =>
    if dir.isPrefixOf e.1 ∧ e.1 ≠ dir then some (e.1.drop dir.length, e.2) else none)

/-- The path as it stands in messages. -/
def fullPath (p : Path) : String := d.root ++ "/" ++ pathText p

end Tree

def databaseDumpFilename : String := "database.dump"
def objectsDirname : String := "objects"
def objectsMetadataFilename : String := "objects.json"
def pgBasebackupDirname : String := "pg_basebackup"
def baseTarGzFilename : String := "base.tar.gz"
def pgWalTarGzFilename : String := "pg_wal.tar.gz"
def minioMirrorDirname : String := "minio_mirror"

/-! ## Digests of objects -/

section Digests

variable (sha256 : Bytes → String)

/-- The metadata of one object. -/
structure ObjectMeta where
  key : String
  sha256 : String
  size : Nat

def ObjectMeta.toJson (m : ObjectMeta) : Json :=
  .obj [("key", .str m.key), ("sha256", .str m.sha256), ("size", .int m.size), ("size_bytes", .int m.size)]

/-- The metadata of the files below a directory, sorted by their paths; `keep` says which names count. -/
def metadataOf (keep : Path → Bool) (d : Tree) (dir : Path) : List ObjectMeta :=
  if d.exists? dir then
    ((StableSort.sortBy Prod.fst (d.filesIn dir)).filter (fun e => keep e.1)).map
      (fun e => { key := pathText e.1, sha256 := sha256 e.2, size := e.2.length })
  else []

/-- `path.name == OBJECTS_METADATA_FILENAME`. -/
def isMetadataFile (p : Path) : Bool := p.getLast? == some objectsMetadataFilename

/-- `compute_objects_metadata`: files of the name of the metadata file are passed over, wherever they are. -/
def objectsMetadata (d : Tree) (dir : Path) : List ObjectMeta := metadataOf sha256 (fun p => !isMetadataFile p) d dir

/-- The list in `_aggregate_sha256_dir`. -/
def mirrorMetadata (d : Tree) (dir : Path) : List ObjectMeta := metadataOf sha256 (fun _ => true) d dir

/-- The digest over the metadata of all objects. -/
def aggregate (metadata : List ObjectMeta) : String :=
  sha256 (utf8 (Json.dumps (.arr (metadata.map ObjectMeta.toJson))))

/-! ## The manifest -/

/-- An aware `datetime` in UTC. -/
abbrev Datetime := { instant : Int // -62135596800000000 ≤ instant }

structure BackupManifest where
  formatVersion : Int
  createdAt : Datetime
  applicationVersion : String
  migrationVersion : String
  databaseSha256 : String
  objectCount : Int
  objectsSha256 : String
  encrypted : Bool := false
  backupId : String := ""
  extra : List (String × Json) := []

def BackupManifest.toDict (m : BackupManifest) : List (String × Json) :=
  [("format_version", .int m.formatVersion), ("created_at", .str (DateTime.isoformat m.createdAt.1)),
   ("application_version", .str m.applicationVersion), ("migration_version", .str m.migrationVersion),
   ("database_sha256", .str m.databaseSha256), ("object_count", .int m.objectCount),
   ("objects_sha256", .str m.objectsSha256), ("encrypted", .bool m.encrypted), ("backup_id", .str m.backupId),
   ("extra", .obj m.extra)]

/-- `int(·)` of a decoded value; no float is among those that are written. -/
def intOf : Json → Option Int
  | .int i => some i
  | .bool b => some (if b then 1 else 0)
  | .str s => pyInt? s
  | _ => none

/-- `dict(·)` of a decoded value. -/
def dictOf : Json → Option (List (String × Json))
  | .obj fields => some fields
  | _ => none

/-- `data.get(key, default)`. -/
def getOr (data : List (String × Json)) (key : String) (default : Json) : Json := (data.lookup key).getD default

/-- The time in `from_dict`, with what the clock shows. -/
def createdAtOf (now : Datetime) (raw : Json) : Option Datetime :=
  match raw with
  | .str text =>
    match DateTime.fromIsoformat? text with
    | some instant => if h : -62135596800000000 ≤ instant then some ⟨instant, h⟩ else none
    | none => none
  | _ => some now

/-- `from_dict`; none where a conversion raises. -/
def fromDict (now : Datetime) (data : List (String × Json)) : Option BackupManifest :=
  match createdAtOf now (Json.get data "created_at"), intOf (getOr data "format_version" (.int 2)),
      intOf (getOr data "object_count" (.int 0)), dictOf (getOr data "extra" (.obj [])) with
  | some createdAt, some formatVersion, some objectCount, some extra =>
    some { formatVersion := formatVersion, createdAt := createdAt,
           applicationVersion := (getOr data "application_version" (.str "")).pyStr,
           migrationVersion := (getOr data "migration_version" (.str "")).pyStr,
           databaseSha256 := (getOr data "database_sha256" (.str "")).pyStr, objectCount := objectCount,
           objectsSha256 := (getOr data "objects_sha256" (.str "")).pyStr,
           encrypted := (getOr data "encrypted" (.bool false)).truthy,
           backupId := (getOr data "backup_id" (.str "")).pyStr, extra := extra }
  | _, _, _, _ => none

/-- `from_json(to_json(·))`. -/
def reload (now : Datetime) (m : BackupManifest) : Option BackupManifest := fromDict now (Json.plainFields m.toDict)

/-! ## Making one -/

/-- What is raised. -/
structure ManifestValidationError where
  message : String
  component : String := ""
  expected : String := ""
  actual : String := ""
deriving DecidableEq

inductive Raised where
  | invalid (error : ManifestValidationError)
  /-- A file that cannot be opened. -/
  | io (path : String)
  /-- A value that is no number. -/
  | conversion
deriving DecidableEq

/-- `_sha256_file`. -/
def sha256File (d : Tree) (p : Path) : Except Raised String :=
  match d.read? p with
  | some bytes => .ok (sha256 bytes)
  | none => .error (.io (d.fullPath p))

/-- What is given to `compute_manifest` besides the two paths. -/
structure About where
  applicationVersion : String
  migrationVersion : String
  backupId : String := ""
  encrypted : Bool := false
  extra : List (String × Json) := []

def computeManifest (now : Datetime) (d : Tree) (dump objectsDir : Path) (about : About) :
    Except Raised BackupManifest :=
  match sha256File sha256 d dump with
  | .error e => .error e
  | .ok databaseSha =>
    let metadata := objectsMetadata sha256 d objectsDir
    .ok { formatVersion := 1, createdAt := now, applicationVersion := about.applicationVersion,
          migrationVersion := about.migrationVersion, databaseSha256 := databaseSha, objectCount := metadata.length,
          objectsSha256 := aggregate sha256 metadata, encrypted := about.encrypted, backupId := about.backupId,
          extra := about.extra }

/-- The digest of a file if it exists, else the empty text. -/
def shaOrEmpty (d : Tree) (p : Path) : Except Raised String := if d.exists? p then sha256File sha256 d p else .ok ""

/-- The size of a file if it exists, else 0. -/
def sizeOrZero (d : Tree) (p : Path) : Nat := ((d.read? p).map List.length).getD 0

def dirTotalSizeBytes (d : Tree) (dir : Path) : Nat := ((d.filesIn dir).map (fun e => e.2.length)).sum

/-- What is given to `compute_manifest_v2` besides the two paths. -/
structure AboutV2 where
  applicationVersion : String
  migrationVersion : String
  backupId : String := ""
  backupTimestamp : String := ""
  walStartLsn : String := ""
  walEndLsn : String := ""
  dbSystemIdentifier : String := ""

/-- `extra` of the second format. -/
def pitrExtra (d : Tree) (base wal minioMirrorDir : Path) (baseSha walSha : String) (mirror : List ObjectMeta)
    (about : AboutV2) : List (String × Json) :=
  [("backup_timestamp", .str about.backupTimestamp), ("backup_method", .str "pitr"),
   ("db_system_identifier", .str about.dbSystemIdentifier), ("pg_basebackup_sha256", .str baseSha),
   ("pg_basebackup_size_bytes", .int (sizeOrZero d base)), ("pg_wal_sha256", .str walSha),
   ("pg_wal_size_bytes", .int (sizeOrZero d wal)), ("minio_mirror_sha256", .str (aggregate sha256 mirror)),
   ("minio_mirror_object_count", .int mirror.length),
   ("minio_mirror_size_bytes", .int (dirTotalSizeBytes d minioMirrorDir)), ("wal_start_lsn", .str about.walStartLsn),
   ("wal_end_lsn", .str about.walEndLsn)]

/-- `compute_manifest_v2`. -/
def computeManifestV2 (now : Datetime) (d : Tree) (pgBasebackupDir minioMirrorDir : Path) (about : AboutV2) :
    Except Raised BackupManifest :=
  let base := pgBasebackupDir ++ [baseTarGzFilename]
  let wal := pgBasebackupDir ++ [pgWalTarGzFilename]
  match shaOrEmpty sha256 d base, shaOrEmpty sha256 d wal with
  | .error e, _ => .error e
  | .ok _, .error e => .error e
  | .ok baseSha, .ok walSha =>
    let mirror := mirrorMetadata sha256 d minioMirrorDir
    .ok { formatVersion := 2, createdAt := now, applicationVersion := about.applicationVersion,
          migrationVersion := about.migrationVersion, databaseSha256 := baseSha, objectCount := mirror.length,
          objectsSha256 := aggregate sha256 mirror, encrypted := false, backupId := about.backupId,
          extra := pitrExtra sha256 d base wal minioMirrorDir baseSha walSha mirror about }

/-! ## Validation -/

/-- The texts of a check of objects: of the first format and of the second. -/
structure ObjectTexts where
  component : String
  directory : String
  count : String
  aggregate : String

/-- The check of the objects below a directory; the second format passes over an empty expectation. -/
def checkObjects (texts : ObjectTexts) (present : Bool) (expectedCount : Int) (expectedSha : String)
    (mayBeEmpty : Bool) (metadata : List ObjectMeta) : Except Raised Unit :=
  let actualSha := aggregate sha256 metadata
  if !present then
    if 0 < expectedCount then
      .error (.invalid { message := texts.directory ++ "缺失但 manifest 记录 " ++ toString expectedCount ++ " 个对象",
                         component := texts.component })
    else .ok ()
  else if (metadata.length : Int) ≠ expectedCount then
    .error (.invalid { message := texts.count ++ "不匹配: expected=" ++ toString expectedCount ++ ", actual=" ++
                         toString metadata.length,
                       component := texts.component, expected := toString expectedCount,
                       actual := toString metadata.length })
  else if ¬ (mayBeEmpty ∧ expectedSha = "") ∧ actualSha ≠ expectedSha then
    .error (.invalid { message := texts.aggregate ++ "不匹配: expected=" ++ expectedSha ++ ", actual=" ++ actualSha,
                       component := texts.component, expected := expectedSha, actual := actualSha })
  else .ok ()

/-- A digest that differs from the expected one. -/
def mismatch (what component expected actual : String) : Raised :=
  .invalid { message := what ++ " SHA-256 不匹配: expected=" ++ expected ++ ", actual=" ++ actual,
             component := component, expected := expected, actual := actual }

def absent (message component : String) : Raised := .invalid { message := message, component := component }

/-- `_validate_v1`. -/
def validateV1 (m : BackupManifest) (d : Tree) : Except Raised Unit :=
  let dump : Path := [databaseDumpFilename]
  let objectsDir : Path := [objectsDirname]
  if !d.exists? dump then .error (absent ("数据库 dump 文件缺失: " ++ d.fullPath dump) "database")
  else
    match sha256File sha256 d dump with
    | .error e => .error e
    | .ok actual =>
      if actual ≠ m.databaseSha256 then .error (mismatch "数据库 dump" "database" m.databaseSha256 actual)
      else
        checkObjects sha256 ⟨"objects", "对象目录", "对象数量", "对象聚合 SHA-256 "⟩ (d.exists? objectsDir) m.objectCount
          m.objectsSha256 false (objectsMetadata sha256 d objectsDir)

/-- The check of `pg_wal.tar.gz`, which is made only where a digest is expected. -/
def checkWal (expected : String) (d : Tree) (wal : Path) : Except Raised Unit :=
  if expected = "" then .ok ()
  else if !d.exists? wal then .error (absent ("pg_wal.tar.gz 缺失: " ++ d.fullPath wal) "pg_wal")
  else
    match sha256File sha256 d wal with
    | .error e => .error e
    | .ok actual => if actual ≠ expected then .error (mismatch "pg_wal.tar.gz" "pg_wal" expected actual) else .ok ()

/-- `_validate_v2`. -/
def validateV2 (m : BackupManifest) (d : Tree) : Except Raised Unit :=
  let base : Path := [pgBasebackupDirname, baseTarGzFilename]
  let wal : Path := [pgBasebackupDirname, pgWalTarGzFilename]
  let mirrorDir : Path := [minioMirrorDirname]
  let expectedBase := (getOr m.extra "pg_basebackup_sha256" (.str "")).pyStr
  if !d.exists? base then .error (absent ("base.tar.gz 缺失: " ++ d.fullPath base) "pg_basebackup")
  else
    match sha256File sha256 d base with
    | .error e => .error e
    | .ok actual =>
      if expectedBase ≠ "" ∧ actual ≠ expectedBase then
        .error (mismatch "base.tar.gz" "pg_basebackup" expectedBase actual)
      else
        match checkWal sha256 (getOr m.extra "pg_wal_sha256" (.str "")).pyStr d wal with
        | .error e => .error e
        | .ok () =>
          match intOf (getOr m.extra "minio_mirror_object_count" (.int 0)) with
          | none => .error .conversion
          | some expectedCount =>
            checkObjects sha256
              ⟨"minio_mirror", "minio_mirror 目录", "minio_mirror 对象数量", "minio_mirror 聚合 SHA-256 "⟩
              (d.exists? mirrorDir) expectedCount (getOr m.extra "minio_mirror_sha256" (.str "")).pyStr true
              (mirrorMetadata sha256 d mirrorDir)

def validate (m : BackupManifest) (d : Tree) : Except Raised Unit :=
  if m.formatVersion = 1 then validateV1 sha256 m d
  else if m.formatVersion = 2 then validateV2 sha256 m d
  else .error (absent ("不支持的 manifest 版本: " ++ toString m.formatVersion) "format_version")

end Digests

end Irip.Backup
