import Irip.Base.Dict
import Irip.Common

/-!
# `Collaboration.Service` — who takes part in a conversation

A conversation has a creator, and a row for every participant with the role it has. Three calls change the rows; each
runs in one transaction.
-/

namespace Irip.Collaboration

abbrev UserId := Nat

abbrev ConversationId := Nat

/-! ## Rows -/

/-- The values of `conversation_participant.role`. -/
inductive Role where
  | owner
  | member
deriving DecidableEq, Repr

/-- A row of `conversation_participant`. -/
structure Participant where
  role : Role
  joinedAt : Time

/-- The columns of `app_user` that the calls read. -/
structure User where
  roles : List String := []
  departmentId : Option Nat := none
  displayName : String
  avatarUrl : Option String := none

/-- The tables: the creator of each conversation, its participants by the primary key, and the users. -/
structure Db where
  conversations : Dict ConversationId UserId
  participants : Dict (ConversationId × UserId) Participant
  users : Dict UserId User

namespace Db

variable (db : Db)

/-- The SELECT for a conversation in the session of a user: the policy of the table shows the user those it has created
or takes part in. -/
def conversation (u : UserId) (c : ConversationId) : Option UserId :=
  (db.conversations.get? c).filter (fun creator => creator == u || (db.participants.get? (c, u)).isSome)

def isOwner (c : ConversationId) (creator u : UserId) : Bool :=
  creator == u || ((db.participants.get? (c, u)).map Participant.role) == some .owner

/-- The users with a row for the conversation. -/
def members (c : ConversationId) : List UserId := (db.participants.keys.filter (fun k => k.1 = c)).map Prod.snd

end Db

/-! ## The calls -/

structure ParticipantRef where
  conversationId : ConversationId
  userId : UserId
  role : Role
  joinedAt : Time
  displayName : String
  avatarUrl : Option String

def adminRoles : List String := ["platform_administrator", "platform_auditor", "lab_director"]

/-- `is_inviter_admin`; an inviter without a row has no roles. -/
def isAdmin (user : Option User) : Bool := adminRoles.any (fun role => role ∈ (user.map User.roles).getD [])

def notFound (message : String) : AppError := { code := "not_found", message := message }

/-- `add_participant`, with what the clock shows. -/
def addParticipant (now : Time) (c : ConversationId) (inviter target : UserId) (db : Db) :
    Except AppError (ParticipantRef × Db) :=
  match db.conversation inviter c with
  | none => .error (notFound "对话不存在")
  | some creator =>
    if !db.isOwner c creator inviter then
      .error { code := "forbidden", message := "仅对话创建者/管理员可邀请成员" }
    else if (db.participants.get? (c, target)).isSome then
      .error { code := "conflict", message := "该用户已是对话参与者" }
    else
      match db.users.get? target with
      | none => .error (notFound "目标用户不存在")
      | some user =>
        let inviterUser := db.users.get? inviter
        let inviterDept := inviterUser.bind User.departmentId
        -- only an inviter with a department is held to it
        if !isAdmin inviterUser && (inviterDept.isSome && user.departmentId != inviterDept) then
          .error { code := "validation_failed", message := "不能邀请跨部门用户加入对话" }
        else
          .ok ({ conversationId := c, userId := target, role := .member, joinedAt := now,
                 displayName := user.displayName, avatarUrl := user.avatarUrl },
               { db with participants := db.participants.set (c, target) { role := .member, joinedAt := now } })

def removeParticipant (c : ConversationId) (owner target : UserId) (db : Db) : Except AppError Db :=
  match db.conversation owner c with
  | none => .error (notFound "对话不存在")
  | some creator =>
    if !db.isOwner c creator owner then
      .error { code := "forbidden", message := "仅对话创建者/管理员可移除成员" }
    else if (db.participants.get? (c, target)).isNone then
      .error (notFound "目标用户不是对话参与者")
    else .ok { db with participants := db.participants.erase (c, target) }

def leaveConversation (c : ConversationId) (user : UserId) (db : Db) : Except AppError Db :=
  match db.participants.get? (c, user) with
  | none => .error (notFound "你不是该对话的参与者")
  | some participant =>
    if participant.role = .owner then
      .error { code := "forbidden", message := "对话创建者不能退出，请先删除对话或移除其他成员" }
    else .ok { db with participants := db.participants.erase (c, user) }

/-! ## The system -/

/-- What can happen: one of the calls, or the row of a user is saved by somebody else. -/
inductive Action where
  | addParticipant (now : Time) (c : ConversationId) (inviter target : UserId)
  | removeParticipant (c : ConversationId) (owner target : UserId)
  | leaveConversation (c : ConversationId) (user : UserId)
  | saveUser (u : UserId) (user : User)

/-- What an action makes of the tables, or the error it raises. -/
def call (db : Db) : Action → Except AppError Db
  | .addParticipant now c inviter target => (addParticipant now c inviter target db).map Prod.snd
  | .removeParticipant c owner target => removeParticipant c owner target db
  | .leaveConversation c user => leaveConversation c user db
  | .saveUser u user => .ok { db with users := db.users.set u user }

/-- The step function: a transaction whose call raises is rolled back. -/
def step (db : Db) (act : Action) : Option Db :=
  match call db act with
  | .ok db' => some db'
  | .error _ => some db

/-! ## What a call does -/

section Calls

variable {db db' : Db} {c : ConversationId} {u owner inviter target : UserId} {now : Time}

theorem conversation_eq_some_iff {creator : UserId} :
    db.conversation u c = some creator ↔
      db.conversations.get? c = some creator ∧ (creator = u ∨ ∃ p, db.participants.get? (c, u) = some p) := by
  unfold Db.conversation
  rw [Option.filter_eq_some_iff, Bool.or_eq_true, beq_iff_eq, Option.isSome_iff_exists]

theorem isOwner_iff {creator : UserId} :
    db.isOwner c creator u = true ↔
      creator = u ∨ ∃ p, db.participants.get? (c, u) = some p ∧ p.role = .owner := by
  unfold Db.isOwner
  rw [Bool.or_eq_true, beq_iff_eq, beq_iff_eq, Option.map_eq_some_iff]

/-- An invitation by an owner adds a member, unless it crosses from one department to another. -/
theorem addParticipant_ok_iff :
    (∃ ref, addParticipant now c inviter target db = .ok (ref, db')) ↔
      ∃ creator user, db.conversation inviter c = some creator ∧ db.isOwner c creator inviter = true ∧
        db.participants.get? (c, target) = none ∧ db.users.get? target = some user ∧
        (isAdmin (db.users.get? inviter) = true ∨ (db.users.get? inviter).bind User.departmentId = none ∨
          user.departmentId = (db.users.get? inviter).bind User.departmentId) ∧
        db' = { db with participants := db.participants.set (c, target) { role := .member, joinedAt := now } } := by
  unfold addParticipant
  cases hconv : db.conversation inviter c with
  | none => simp
  | some creator =>
    cases howner : db.isOwner c creator inviter with
    | false => simp [howner]
    | true =>
      cases hrow : db.participants.get? (c, target) with
      | some p => simp [howner]
      | none =>
        cases huser : db.users.get? target with
        | none => simp [howner]
        | some user =>
          by_cases hadmin : isAdmin (db.users.get? inviter) = true
          · simp [hadmin, howner, @eq_comm _ db']
          · cases hdept : (db.users.get? inviter).bind User.departmentId with
            | none => simp [hadmin, howner, hdept, @eq_comm _ db']
            | some d =>
              by_cases hsame : user.departmentId = some d
              · simp [hadmin, howner, hdept, hsame, @eq_comm _ db']
              · simp [hadmin, howner, hdept, hsame]

theorem removeParticipant_ok_iff :
    removeParticipant c owner target db = .ok db' ↔
      ∃ creator p, db.conversation owner c = some creator ∧ db.isOwner c creator owner = true ∧
        db.participants.get? (c, target) = some p ∧
        db' = { db with participants := db.participants.erase (c, target) } := by
  unfold removeParticipant
  cases hconv : db.conversation owner c with
  | none => simp
  | some creator =>
    cases howner : db.isOwner c creator owner with
    | false => simp [howner]
    | true =>
      cases hrow : db.participants.get? (c, target) with
      | none => simp [howner]
      | some p => simp [howner, @eq_comm _ db']

theorem leaveConversation_ok_iff :
    leaveConversation c u db = .ok db' ↔
      ∃ p, db.participants.get? (c, u) = some p ∧ p.role ≠ .owner ∧
        db' = { db with participants := db.participants.erase (c, u) } := by
  unfold leaveConversation
  cases hrow : db.participants.get? (c, u) with
  | none => simp
  | some p =>
    by_cases hrole : p.role = .owner
    · simp [hrole]
    · simp [hrole, @eq_comm _ db']

end Calls

end Irip.Collaboration
