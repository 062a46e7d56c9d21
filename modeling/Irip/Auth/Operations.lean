import Irip.Base.Dict
import Irip.Base.Sha256
import Irip.Base.Txn
import Irip.Common

/-!
# `Auth.Operations` — users, sessions and tokens, and the statements of the authentication service

Each operation is one SQL statement on one row, a SELECT, or a reading of the clock or of the random source. An
UPDATE of many rows takes its snapshot first and comes to its rows one after the other, each of which it finds as
it is by then.
-/

namespace Irip.Auth

/-! ## Rows -/

/-- `app_user.status`. -/
inductive UserStatus where
  | active
  | disabled
  | deleted
deriving DecidableEq

structure AppUser where
  email : String
  displayName : String := ""
  passwordHash : String
  status : UserStatus := .active
  roles : List String := []
  tokenVersion : Int := 0
  avatarUrl : Option String := none
  updatedAt : Time := 0
deriving DecidableEq

structure RefreshSession where
  familyId : Uuid
  userId : Uuid
  tokenDigest : String
  issuedAt : Time
  expiresAt : Time
  revokedAt : Option Time := none
  replacedBy : Option Uuid := none
  createdIp : Option String := none
  userAgent : Option String := none
deriving DecidableEq

/-- Neither revoked nor replaced. -/
def RefreshSession.usable (r : RefreshSession) : Bool := r.revokedAt.isNone && r.replacedBy.isNone

/-! ## Tokens -/

def accessTokenTtlSeconds : Nat := 900

/-- `REFRESH_TOKEN_TTL`: seven days. -/
def refreshTokenTtl : Int := seconds 604800

/-- The claims of an access token. -/
structure AccessToken where
  sub : Uuid
  email : String
  roles : List String
  tokenVersion : Int
  iat : Int
  exp : Int
deriving DecidableEq

def createAccessToken (userId : Uuid) (email : String) (roles : List String) (tokenVersion : Int) (now : Time) :
    AccessToken where
  sub := userId
  email := email
  roles := roles
  tokenVersion := tokenVersion
  iat := now.tdiv (seconds 1)
  exp := (now + seconds accessTokenTtlSeconds).tdiv (seconds 1)

/-- What a login and a refresh answer. -/
structure TokenPair where
  accessToken : AccessToken
  refreshToken : String
  expiresIn : Nat := accessTokenTtlSeconds
deriving DecidableEq

def computeRefreshDigest (token : String) : String := Sha256.hexdigest token.toList

/-! ## Exceptions -/

/-- What a call raises: a business error, or a constraint of the database. -/
inductive Exn where
  | app (error : AppError)
  | integrity

/-! ## Database -/

/-- The tables of the service. -/
structure Database where
  users : Dict Uuid AppUser := {}
  sessions : Dict Uuid RefreshSession := {}

namespace Database

variable (d : Database)

/-- Nobody has drawn the identifier for a session or a family. -/
def fresh (id : Uuid) : Bool := (d.sessions.get? id).isNone && !d.sessions.anyRow (fun r => r.familyId = id)

/-- `SELECT … WHERE token_digest = digest`. -/
def findSession (digest : String) : Option (Uuid × RefreshSession) :=
  d.sessions.findBy (fun r => r.tokenDigest = digest)

end Database

/-- What a flush sets in a user. -/
inductive UserUpdate where
  | disabled (tokenVersion : Int) (now : Time)
  | password (hash : String) (tokenVersion : Int) (now : Time)
  | deleted (displayName email : String) (tokenVersion : Int) (now : Time)

/-- The version a flush writes. -/
def UserUpdate.tokenVersion : UserUpdate → Int
  | .disabled v _ => v
  | .password _ v _ => v
  | .deleted _ _ v _ => v

/-- The email a flush writes. -/
def UserUpdate.email : UserUpdate → Option String
  | .deleted _ email _ _ => some email
  | _ => none

/-- The user after a flush; the columns that were not set stay. -/
def UserUpdate.apply : UserUpdate → AppUser → AppUser
  | .disabled v now, u => { u with status := .disabled, tokenVersion := v, updatedAt := now }
  | .password hash v now, u => { u with passwordHash := hash, tokenVersion := v, updatedAt := now }
  | .deleted name email v now, u =>
    { u with
      status := .deleted, displayName := name, email := email, avatarUrl := none, tokenVersion := v,
      updatedAt := now }

@[simp] theorem UserUpdate.tokenVersion_apply (x : UserUpdate) (u : AppUser) :
    (x.apply u).tokenVersion = x.tokenVersion := by
  cases x <;> rfl

/-- The effect of a statement on rows. Three writes leave no trace in the tables: an identifier that was drawn, the
lock of a SELECT … FOR UPDATE, and the beginning of an UPDATE of a whole family. -/
inductive Write where
  | draws (id : Uuid)
  | locks (id : Uuid)
  | sweeps (familyId : Uuid)
  | insertSession (id : Uuid) (row : RefreshSession)
  | rotates (id newId : Uuid) (now : Time)
  | revokes (id : Uuid) (now : Time)
  | setUser (id : Uuid) (update : UserUpdate)

/-- `SET revoked_at = now WHERE revoked_at IS NULL`. -/
def RefreshSession.revoke (r : RefreshSession) (now : Time) : RefreshSession :=
  { r with revokedAt := r.revokedAt.or (some now) }

/-- `SET replaced_by = new_id, revoked_at = now`. -/
def RefreshSession.rotate (r : RefreshSession) (newId : Uuid) (now : Time) : RefreshSession :=
  { r with replacedBy := some newId, revokedAt := some now }

/-- The database after a write. -/
def Write.apply : Write → Database → Database
  | .insertSession id row, d => { d with sessions := d.sessions.set id row }
  | .rotates id newId now, d => { d with sessions := d.sessions.modify id (fun r => r.rotate newId now) }
  | .revokes id now, d => { d with sessions := d.sessions.modify id (fun r => r.revoke now) }
  | .setUser id update, d => { d with users := d.users.modify id update.apply }
  | _, d => d

/-! ## Operations -/

/-- A statement of the service. -/
inductive Op where
  | newId
  | now
  | generateRefreshToken
  | hashPassword (password : String)
  | findUserByEmail (email : String)
  | findUserById (id : Uuid)
  | createRefreshSession (id : Uuid) (row : RefreshSession)
  | findSessionByDigest (digest : String)
  | findSessionByDigestForUpdate (digest : String)
  | rotateSession (id newId : Uuid) (now : Time)
  | unrevokedOfFamily (familyId : Uuid)
  | unrevokedOfUser (userId : Uuid)
  | revokeSession (id : Uuid) (now : Time)
  | flushUser (id : Uuid) (update : UserUpdate)

/-- What a statement answers. -/
@[reducible] def Res : Op → Type
  | .newId => Uuid
  | .now => Time
  | .generateRefreshToken => String
  | .hashPassword _ => String
  | .findUserByEmail _ => Option (Uuid × AppUser)
  | .findUserById _ => Option AppUser
  | .createRefreshSession _ _ => Except Exn Unit
  | .findSessionByDigest _ => Option (Uuid × RefreshSession)
  | .findSessionByDigestForUpdate _ => Option (Uuid × RefreshSession)
  | .rotateSession _ _ _ => Unit
  | .unrevokedOfFamily _ => List Uuid
  | .unrevokedOfUser _ => List Uuid
  | .revokeSession _ _ => Unit
  | .flushUser _ _ => Except Exn Unit

/-- What the surroundings contribute to an answer: the random source and the clock. -/
structure Answer where
  id : Uuid := ""
  now : Time := 0
  text : String := ""

/-- The libraries the service is built on: how passwords are hashed and verified, and what makes two email
addresses the same. -/
structure Platform where
  hashPassword : String → String → String
  verifyPassword : String → String → Bool
  citext : String → String

variable (P : Platform)

/-- What a statement answers on a database, and what it writes. -/
def handle : (o : Op) → Answer → Database → Option (Res o × List Write)
  | .newId, a, d => if d.fresh a.id then some (a.id, [.draws a.id]) else none
  | .now, a, _ => some (a.now, [])
  | .generateRefreshToken, a, _ => some (a.text, [])
  | .hashPassword password, a, _ => some (P.hashPassword password a.text, [])
  | .findUserByEmail email, _, d => some (d.users.findBy (fun u => P.citext u.email = P.citext email), [])
  | .findUserById id, _, d => some (d.users.get? id, [])
  | .createRefreshSession id row, _, d =>
    -- the primary key and the unique digest
    if (d.sessions.get? id).isNone && (d.findSession row.tokenDigest).isNone then
      some (.ok (), [.insertSession id row])
    else some (.error .integrity, [])
  | .findSessionByDigest digest, _, d => some (d.findSession digest, [])
  | .findSessionByDigestForUpdate digest, _, d =>
    some (d.findSession digest, (d.findSession digest).elim [] (fun found => [.locks found.1]))
  | .rotateSession id newId now, _, _ => some ((), [.rotates id newId now])
  | .unrevokedOfFamily familyId, _, d =>
    some (d.sessions.keysWhere (fun r => r.familyId = familyId && r.revokedAt.isNone), [.sweeps familyId])
  | .unrevokedOfUser userId, _, d =>
    some (d.sessions.keysWhere (fun r => r.userId = userId && r.revokedAt.isNone), [])
  | .revokeSession id now, _, d =>
    some ((), if (d.sessions.get? id).any (fun r => r.revokedAt.isNone) then [.revokes id now] else [])
  | .flushUser id update, _, d =>
    -- the unique email
    if update.email.any (fun email => d.users.entries.any (fun e => e.1 ≠ id && P.citext e.2.email = P.citext email))
    then
      some (.error .integrity, [])
    else some (.ok (), [.setUser id update])

/-! ## The engine -/

/-- A key of a table. -/
inductive RowKey where
  | drawn (id : Uuid)
  | session (id : Uuid)
  | digest (digest : String)
  | user (id : Uuid)
deriving DecidableEq

/-- The keys a write takes until its transaction ends. -/
def Write.keys : Write → List RowKey
  | .draws id => [.drawn id]
  | .locks id => [.session id]
  | .sweeps _ => []
  | .insertSession id row => [.session id, .digest row.tokenDigest]
  | .rotates id _ _ => [.session id]
  | .revokes id _ => [.session id]
  | .setUser id _ => [.user id]

/-- The keys the writes of a transaction take. -/
def taken (ws : List Write) : List RowKey := ws.flatMap Write.keys

/-- Two writes that take one key. -/
def conflict (w w' : Write) : Bool := w.keys.any (fun k => k ∈ w'.keys)

/-- The database of the service. -/
def engine : Engine Database Write Answer Op Res where
  apply := Write.apply
  conflict := conflict
  handle := handle P

/-! ## What a write does to a lookup -/

/-- The session under `id` after a write. -/
def Write.onSession (id : Uuid) (r : Option RefreshSession) : Write → Option RefreshSession
  | .insertSession id' row => if id = id' then some row else r
  | .rotates id' newId now => if id = id' then r.map (fun r => r.rotate newId now) else r
  | .revokes id' now => if id = id' then r.map (fun r => r.revoke now) else r
  | _ => r

/-- The user under `id` after a write. -/
def Write.onUser (id : Uuid) (u : Option AppUser) : Write → Option AppUser
  | .setUser id' update => if id = id' then u.map update.apply else u
  | _ => u

theorem session_apply (w : Write) (d : Database) (id : Uuid) :
    (w.apply d).sessions.get? id = w.onSession id (d.sessions.get? id) := by
  cases w with
  | insertSession id' row => exact Dict.get?_set _ _ _ _
  | rotates id' newId now | revokes id' now =>
    show (d.sessions.modify id' _).get? id = _
    rw [Dict.get?_modify, Write.onSession]
  | _ => rfl

theorem user_apply (w : Write) (d : Database) (id : Uuid) :
    (w.apply d).users.get? id = w.onUser id (d.users.get? id) := by
  cases w with
  | setUser id' update =>
    show (d.users.modify id' _).get? id = _
    rw [Dict.get?_modify, Write.onUser]
  | _ => rfl

theorem session_view (ws : List Write) (d : Database) (id : Uuid) :
    ((engine P).view ws d).sessions.get? id = ws.foldl (fun r w => w.onSession id r) (d.sessions.get? id) :=
  (engine P).observe_view (f := (·.sessions.get? id)) (g := fun w r => w.onSession id r)
    (fun w d => session_apply w d id) ws d

end Irip.Auth
