import Irip.Auth.Operations

/-!
# `Auth.Service` — logins, rotations, revocations

The six calls of the authentication service, each a program that runs in one transaction: it commits when the
program returns and is rolled back when it raises. A call that raises after its transaction was committed returns
`Reply.raises`.
-/

namespace Irip.Auth

/-- A call in its transaction. -/
abbrev M (α : Type) : Type := Prog Op Res Exn α

/-- What a call answers. -/
inductive Reply where
  | tokens (pair : TokenPair)
  | done
  | raises (error : AppError)

/-! ## Statements -/

/-- One statement. -/
abbrev ask (o : Op) : M (Res o) := Prog.perform o

abbrev newId : M Uuid := ask .newId

abbrev clockNow : M Time := ask .now

abbrev findUserById (id : Uuid) : M (Option AppUser) := ask (.findUserById id)

def createRefreshSession (id : Uuid) (row : RefreshSession) : M Unit := do
  let created ← ask (.createRefreshSession id row)
  Prog.lift created

def flushUser (id : Uuid) (update : UserUpdate) : M Unit := do
  let flushed ← ask (.flushUser id update)
  Prog.lift flushed

/-- The rows of an UPDATE, one after the other. -/
def revokeRows (now : Time) : List Uuid → M Unit
  | [] => return ()
  | id :: ids => do
    let _ ← ask (.revokeSession id now)
    revokeRows now ids

def invalidCredentials (message : String) : Exn := .app { code := "invalid_credentials", message := message }

def userNotFound : Exn := .app { code := "not_found", message := "用户不存在" }

/-! ## Revocations -/

def revokeFamily (familyId : Uuid) (now : Time) : M Unit := do
  let ids ← ask (.unrevokedOfFamily familyId)
  revokeRows now ids

def revokeFamilyByUser (userId : Uuid) (now : Time) : M Unit := do
  let ids ← ask (.unrevokedOfUser userId)
  revokeRows now ids

/-! ## Calls -/

variable (P : Platform)

def authenticate (email password : String) : M (Uuid × AppUser) := do
  let found ← ask (.findUserByEmail email)
  match found with
  | none => .raise (invalidCredentials "邮箱或密码错误")
  | some (id, user) =>
    if !P.verifyPassword user.passwordHash password then .raise (invalidCredentials "邮箱或密码错误")
    else if user.status = .disabled then .raise (invalidCredentials "账户已被禁用")
    else return (id, user)

def login (email password : String) (createdIp userAgent : Option String) : M Reply := do
  let (userId, user) ← authenticate P email password
  let refreshToken ← ask .generateRefreshToken
  let familyId ← newId
  let sessionId ← newId
  let now ← clockNow
  createRefreshSession sessionId {
    familyId := familyId
    userId := userId
    tokenDigest := computeRefreshDigest refreshToken
    issuedAt := now
    expiresAt := now + refreshTokenTtl
    createdIp := createdIp
    userAgent := userAgent }
  let issued ← clockNow
  return .tokens {
    accessToken := createAccessToken userId user.email user.roles user.tokenVersion issued
    refreshToken := refreshToken }

/-- The part of `refresh` that rotates a usable session. -/
def rotate (oldId : Uuid) (old : RefreshSession) (now : Time) : M Reply := do
  let newRefreshToken ← ask .generateRefreshToken
  let newSessionId ← newId
  createRefreshSession newSessionId {
    familyId := old.familyId
    userId := old.userId
    tokenDigest := computeRefreshDigest newRefreshToken
    issuedAt := now
    expiresAt := now + refreshTokenTtl
    createdIp := old.createdIp
    userAgent := old.userAgent }
  let _ ← ask (.rotateSession oldId newSessionId now)
  let user ← findUserById old.userId
  match user with
  | none => .raise (invalidCredentials "用户不存在")
  | some user =>
    if user.status = .disabled then do
      revokeFamily old.familyId now
      .raise (.app { code := "forbidden", message := "用户已被禁用" })
    else do
      let issued ← clockNow
      return .tokens {
        accessToken := createAccessToken old.userId user.email user.roles user.tokenVersion issued
        refreshToken := newRefreshToken }

def refresh (refreshToken : String) : M Reply := do
  let found ← ask (.findSessionByDigestForUpdate (computeRefreshDigest refreshToken))
  let now ← clockNow
  match found with
  | none => .raise (invalidCredentials "刷新令牌无效")
  | some (oldId, old) =>
    if old.replacedBy.isSome then do
      -- committed, and raised after that
      revokeFamily old.familyId now
      return .raises { code := "refresh_replayed", message := "刷新令牌已被使用，疑似重放攻击，已撤销该会话家族" }
    else if old.revokedAt.isSome then .raise (invalidCredentials "刷新令牌已失效")
    else if old.expiresAt < now then .raise (invalidCredentials "刷新令牌已过期")
    else rotate oldId old now

def logout (refreshToken : String) : M Reply := do
  let found ← ask (.findSessionByDigest (computeRefreshDigest refreshToken))
  match found with
  | none => return .done
  | some (id, old) =>
    if old.revokedAt.isNone then do
      let now ← clockNow
      let _ ← ask (.revokeSession id now)
      return .done
    else return .done

def disableUser (userId : Uuid) : M Reply := do
  let now ← clockNow
  let user ← findUserById userId
  match user with
  | none => .raise userNotFound
  | some user => do
    flushUser userId (.disabled (user.tokenVersion + 1) now)
    revokeFamilyByUser userId now
    return .done

def changePassword (userId : Uuid) (oldPassword newPassword : String) : M Reply := do
  let user ← findUserById userId
  match user with
  | none => .raise userNotFound
  | some user =>
    if !P.verifyPassword user.passwordHash oldPassword then .raise (invalidCredentials "旧密码不正确")
    else do
      let hash ← ask (.hashPassword newPassword)
      let now ← clockNow
      flushUser userId (.password hash (user.tokenVersion + 1) now)
      return .done

def deleteAccount (userId : Uuid) : M Reply := do
  let user ← findUserById userId
  match user with
  | none => return .done
  | some user => do
    let now ← clockNow
    flushUser userId (.deleted "已删除用户" (userId ++ "@deleted.local") (user.tokenVersion + 1) now)
    return .done

/-! ## The system -/

/-- A call of the service. -/
inductive Call where
  | login (email password : String) (createdIp userAgent : Option String)
  | refresh (refreshToken : String)
  | logout (refreshToken : String)
  | disableUser (userId : Uuid)
  | changePassword (userId : Uuid) (oldPassword newPassword : String)
  | deleteAccount (userId : Uuid)

/-- The program of a call. -/
def prog : Call → M Reply
  | .login email password createdIp userAgent => login P email password createdIp userAgent
  | .refresh refreshToken => refresh refreshToken
  | .logout refreshToken => logout refreshToken
  | .disableUser userId => disableUser userId
  | .changePassword userId oldPassword newPassword => changePassword P userId oldPassword newPassword
  | .deleteAccount userId => deleteAccount userId

/-- The database and the calls that were made, each in its transaction. -/
abbrev Sys := Server Call Write Op Res Exn Reply Database

/-- What can happen next. -/
abbrev Step := Server.Action Call Answer

/-- The step function. -/
def step : Sys → Step → Option Sys := Server.step (engine P) (prog P)

/-- No session has been issued yet. -/
def start (users : Dict Uuid AppUser) : Sys := ⟨{ users := users }, []⟩

end Irip.Auth
