import Mathlib.Data.Set.Insert
import Irip.Base.Run
import Irip.Collaboration.Service

/-!
# `Collaboration.Membership` — what holds of the participants of a conversation

The creator is to keep the row of the owner, and everybody else is to be a member who was invited by somebody entitled to
it. A history variable holds the users whose row comes from such an invitation.
-/

namespace Irip.Collaboration

open Runs

/-! ## Membership -/

/-- The user is the creator of the conversation or holds an owner's row. -/
def Entitled (db : Db) (c : ConversationId) (u : UserId) : Prop :=
  db.conversations.get? c = some u ∨ ∃ p, db.participants.get? (c, u) = some p ∧ p.role = .owner

/-- The two users belong to one department. -/
def SameDepartment (db : Db) (u v : UserId) : Prop :=
  ∃ user user' d, db.users.get? u = some user ∧ db.users.get? v = some user' ∧
    user.departmentId = some d ∧ user'.departmentId = some d

/-- An invitation that may be made. -/
def Invited (db : Db) (c : ConversationId) (inviter target : UserId) : Prop :=
  Entitled db c inviter ∧ (isAdmin (db.users.get? inviter) = true ∨ SameDepartment db inviter target)

/-- The call went through. -/
def Succeeds (db : Db) (act : Action) : Prop := ∃ db', call db act = .ok db'

/-- The users whose row comes from an invitation that may be made, after a transition. -/
def welcome (c : ConversationId) (guests : Set UserId) (t : Transition Db Action) : Set UserId :=
  match t.act with
  | .addParticipant _ c' inviter target =>
    {u | (c' = c ∧ u = target ∧ Succeeds t.pre t.act) ∧ Invited t.pre c inviter target ∨
      ¬ (c' = c ∧ u = target ∧ Succeeds t.pre t.act) ∧ u ∈ guests}
  | _ => guests

/-- The creator holds the owner's row, nobody has two rows, and the others are members who were invited. -/
structure Intact (c : ConversationId) (creator : UserId) (guests : Set UserId) (db : Db) : Prop where
  created : db.conversations.get? c = some creator
  owner : ∃ p, db.participants.get? (c, creator) = some p ∧ p.role = .owner
  once : (db.members c).Nodup
  others : ∀ u p, u ≠ creator → db.participants.get? (c, u) = some p → p.role = .member ∧ u ∈ guests

/-- A call leaves the conversation intact, and one that raises leaves all rows as they were. -/
def KeepsIntact (c : ConversationId) (creator : UserId) (guests : Set UserId) (t : Transition Db Action) : Prop :=
  Intact c creator (welcome c guests t) t.post ∧
    (¬ Succeeds t.pre t.act → t.post.participants = t.pre.participants)

/-- The creator does not remove himself, and is an administrator or has a department when he invites a user who exists
and does not take part yet. -/
def Careful (c : ConversationId) (creator : UserId) (t : Transition Db Action) : Prop :=
  match t.act with
  | .removeParticipant c' owner target => ¬ (c' = c ∧ owner = creator ∧ target = creator)
  | .addParticipant _ c' inviter target =>
    c' = c → inviter = creator → (∃ user, t.pre.users.get? target = some user) →
      t.pre.participants.get? (c, target) = none →
      isAdmin (t.pre.users.get? creator) = true ∨
        ∃ user d, t.pre.users.get? creator = some user ∧ user.departmentId = some d
  | _ => True

/-! ## Single calls -/

section Calls

variable {c : ConversationId} {creator : UserId} {guests : Set UserId} {db db' : Db}

theorem nodup_members (db : Db) (c : ConversationId) : (db.members c).Nodup := by
  unfold Db.members
  refine (db.participants.nodup.filter _).map_on (fun k hk k' hk' heq => ?_)
  have hc : k.1 = c := by simpa using (List.mem_filter.mp hk).2
  have hc' : k'.1 = c := by simpa using (List.mem_filter.mp hk').2
  exact Prod.ext (hc.trans hc'.symm) heq

variable {u inviter target : UserId} {c' : ConversationId} {act : Action}

theorem Intact.entitled_iff (h : Intact c creator guests db) : Entitled db c u ↔ u = creator := by
  constructor
  · rintro (hcreated | ⟨p, hp, hrole⟩)
    · rw [h.created] at hcreated
      exact (Option.some.inj hcreated).symm
    · by_contra hne
      rw [(h.others u p hne hp).1] at hrole
      cases hrole
  · rintro rfl
    exact .inl h.created

theorem Intact.isOwner_iff (h : Intact c creator guests db) :
    (∃ who, db.conversation u c = some who ∧ db.isOwner c who u = true) ↔ u = creator := by
  constructor
  · rintro ⟨who, hwho, howner⟩
    obtain ⟨hcreated, -⟩ := conversation_eq_some_iff.mp hwho
    rw [h.created] at hcreated
    obtain rfl := Option.some.inj hcreated
    rcases Collaboration.isOwner_iff.mp howner with rfl | hrow
    · rfl
    · exact h.entitled_iff.mp (.inr hrow)
  · rintro rfl
    exact ⟨u, conversation_eq_some_iff.mpr ⟨h.created, .inl rfl⟩, Collaboration.isOwner_iff.mpr (.inl rfl)⟩

theorem Intact.frame (h : Intact c creator guests db) (hconv : db'.conversations = db.conversations)
    (hrows : ∀ u, db'.participants.get? (c, u) = db.participants.get? (c, u)) : Intact c creator guests db' where
  created := by rw [hconv, h.created]
  owner := by
    rw [hrows]
    exact h.owner
  once := nodup_members db' c
  others u p hne hp := h.others u p hne (by rw [← hrows, hp])

theorem Intact.erase (h : Intact c creator guests db)
    (hne : ¬ (c' = c ∧ u = creator)) :
    Intact c creator guests { db with participants := db.participants.erase (c', u) } where
  created := h.created
  owner := by
    obtain ⟨p, hp, hrole⟩ := h.owner
    refine ⟨p, ?_, hrole⟩
    rw [Dict.get?_erase, if_neg, hp]
    intro heq
    obtain ⟨hc, hu⟩ := Prod.mk.inj heq
    exact hne ⟨hc.symm, hu.symm⟩
  once := nodup_members _ c
  others v p hv hp := by
    rw [Dict.get?_erase] at hp
    split at hp
    · cases hp
    · exact h.others v p hv hp

theorem erase_not_intact (db : Db) : ¬ Intact c creator guests
    { db with participants := db.participants.erase (c, creator) } := by
  intro h
  obtain ⟨p, hp, -⟩ := h.owner
  rw [Dict.get?_erase, if_pos rfl] at hp
  cases hp

theorem step_of_not_succeeds (hstep : step db act = some db') (hraise : ¬ Succeeds db act) : db' = db := by
  unfold step at hstep
  split at hstep
  · next db'' hcall => exact absurd ⟨db'', hcall⟩ hraise
  · exact (Option.some.inj hstep).symm

theorem step_of_call {db'' : Db} (hstep : step db act = some db') (hcall : call db act = .ok db'') : db' = db'' := by
  unfold step at hstep
  rw [hcall] at hstep
  exact (Option.some.inj hstep).symm

theorem mem_welcome_iff {now : Time} : u ∈ welcome c guests ⟨db, .addParticipant now c' inviter target, db'⟩ ↔
      (c' = c ∧ u = target ∧ Succeeds db (.addParticipant now c' inviter target)) ∧ Invited db c inviter target ∨
      ¬ (c' = c ∧ u = target ∧ Succeeds db (.addParticipant now c' inviter target)) ∧ u ∈ guests := Iff.rfl

theorem welcome_of_not_succeeds (hraise : ¬ Succeeds db act) : welcome c guests ⟨db, act, db'⟩ = guests := by
  cases act with
  | addParticipant now c' inviter target =>
    refine Set.ext (fun u => ?_)
    exact mem_welcome_iff.trans ⟨fun h => (h.resolve_left (fun hnew => hraise hnew.1.2.2)).2,
      fun hu => .inr ⟨fun hnew => hraise hnew.2.2, hu⟩⟩
  | removeParticipant => rfl
  | leaveConversation => rfl
  | saveUser => rfl

theorem keepsIntact_of_not_succeeds (hraise : ¬ Succeeds db act) (hstep : step db act = some db')
    (h : Intact c creator guests db) : KeepsIntact c creator guests ⟨db, act, db'⟩ := by
  obtain rfl := step_of_not_succeeds hstep hraise
  refine ⟨?_, fun _ => rfl⟩
  rw [welcome_of_not_succeeds hraise]
  exact h

theorem keeps_removeParticipant_iff (h : Intact c creator guests db) {owner : UserId}
    (hstep : step db (.removeParticipant c' owner target) = some db') :
    KeepsIntact c creator guests ⟨db, .removeParticipant c' owner target, db'⟩ ↔
      ¬ (c' = c ∧ owner = creator ∧ target = creator) := by
  by_cases hraise : Succeeds db (.removeParticipant c' owner target)
  · obtain ⟨db'', hcall⟩ := hraise
    obtain rfl := step_of_call hstep hcall
    obtain ⟨who, p, hwho, howner, hrow, rfl⟩ := removeParticipant_ok_iff.mp hcall
    constructor
    · rintro ⟨hintact, -⟩ ⟨rfl, rfl, rfl⟩
      exact erase_not_intact db hintact
    · intro hother
      refine ⟨h.erase (fun heq => ?_), fun hnot => absurd ⟨_, hcall⟩ hnot⟩
      obtain ⟨rfl, rfl⟩ := heq
      exact hother ⟨rfl, h.isOwner_iff.mp ⟨who, hwho, howner⟩, rfl⟩
  · refine iff_of_true (keepsIntact_of_not_succeeds hraise hstep h) ?_
    rintro ⟨rfl, rfl, rfl⟩
    -- the creator is an owner and takes part, so the call goes through
    obtain ⟨who, hwho, howner⟩ := h.isOwner_iff.mpr rfl
    obtain ⟨p, hp, -⟩ := h.owner
    exact hraise ⟨_, removeParticipant_ok_iff.mpr ⟨who, p, hwho, howner, hp, rfl⟩⟩

theorem keeps_leaveConversation (h : Intact c creator guests db)
    (hstep : step db (.leaveConversation c' u) = some db') :
    KeepsIntact c creator guests ⟨db, .leaveConversation c' u, db'⟩ := by
  by_cases hraise : Succeeds db (.leaveConversation c' u)
  · obtain ⟨db'', hcall⟩ := hraise
    obtain rfl := step_of_call hstep hcall
    obtain ⟨p, hp, hrole, rfl⟩ := leaveConversation_ok_iff.mp hcall
    refine ⟨h.erase (fun heq => ?_), fun hnot => absurd ⟨_, hcall⟩ hnot⟩
    obtain ⟨rfl, rfl⟩ := heq
    obtain ⟨p', hp', hrole'⟩ := h.owner
    rw [hp] at hp'
    obtain rfl := Option.some.inj hp'
    exact hrole hrole'
  · exact keepsIntact_of_not_succeeds hraise hstep h

theorem addParticipant_call_iff {now : Time} : call db (.addParticipant now c' inviter target) = .ok db' ↔
      ∃ ref, addParticipant now c' inviter target db = .ok (ref, db') := by
  show (addParticipant now c' inviter target db).map Prod.snd = .ok db' ↔ _
  cases hadd : addParticipant now c' inviter target db with
  | error e => simp [Except.map]
  | ok r =>
    obtain ⟨ref, db''⟩ := r
    simp [Except.map]

/-- An invitation keeps the conversation intact if the inviter may invite whom the call lets him. -/
theorem keeps_addParticipant_iff (h : Intact c creator guests db) {now : Time}
    (hstep : step db (.addParticipant now c' inviter target) = some db') :
    KeepsIntact c creator guests ⟨db, .addParticipant now c' inviter target, db'⟩ ↔
      Careful c creator ⟨db, .addParticipant now c' inviter target, db'⟩ := by
  by_cases hraise : Succeeds db (.addParticipant now c' inviter target)
  · have hsucceeds := hraise
    obtain ⟨db'', hcall⟩ := hraise
    obtain rfl := step_of_call hstep hcall
    obtain ⟨ref, hadd⟩ := addParticipant_call_iff.mp hcall
    obtain ⟨who, user, hwho, howner, hnew, huser, hdept, rfl⟩ := addParticipant_ok_iff.mp ⟨ref, hadd⟩
    by_cases hc : c' = c
    · subst hc
      obtain rfl := h.isOwner_iff.mp ⟨who, hwho, howner⟩
      have hne : target ≠ inviter := by
        rintro rfl
        obtain ⟨p, hp, -⟩ := h.owner
        rw [hnew] at hp
        cases hp
      -- what the call lets through may be invited as soon as the inviter is held to a department
      have hinvited : Invited db c' inviter target ↔ isAdmin (db.users.get? inviter) = true ∨
          ∃ user d, db.users.get? inviter = some user ∧ user.departmentId = some d := by
        unfold Invited
        rw [and_iff_right (h.entitled_iff.mpr rfl)]
        refine or_congr_right' (fun hadmin => ?_)
        constructor
        · rintro ⟨user, _, d, huser, -, hd, -⟩
          exact ⟨user, d, huser, hd⟩
        · rintro ⟨inviterUser, d, hinviter, hd⟩
          refine ⟨inviterUser, user, d, hinviter, huser, hd, ?_⟩
          rw [hinviter] at hdept hadmin
          rcases hdept with hadmin' | hnone | hsame
          · exact absurd hadmin' hadmin
          · rw [Option.bind_some, hd] at hnone
            cases hnone
          · rw [hsame, Option.bind_some, hd]
      have hcareful : Careful c' inviter ⟨db, .addParticipant now c' inviter target,
          { db with participants := db.participants.set (c', target) { role := .member, joinedAt := now } }⟩ ↔
          Invited db c' inviter target := by
        rw [hinvited]
        exact ⟨fun hcare => hcare rfl rfl ⟨user, huser⟩ hnew, fun hdone _ _ _ _ => hdone⟩
      rw [hcareful]
      constructor
      · rintro ⟨hintact, -⟩
        have hguest := (hintact.others target { role := .member, joinedAt := now } hne
          (by rw [Dict.get?_set, if_pos rfl])).2
        rcases mem_welcome_iff.mp hguest with ⟨-, hok⟩ | ⟨hnot, -⟩
        · exact hok
        · exact absurd ⟨rfl, rfl, hsucceeds⟩ hnot
      · intro hok
        refine ⟨⟨h.created, ?_, nodup_members _ c', fun u p hu hp => ?_⟩, fun hnot => absurd hsucceeds hnot⟩
        · obtain ⟨p, hp, hrole⟩ := h.owner
          refine ⟨p, ?_, hrole⟩
          rw [Dict.get?_set, if_neg, hp]
          intro heq
          exact hne (Prod.mk.inj heq).2.symm
        · rw [Dict.get?_set] at hp
          split at hp
          · next heq =>
              obtain rfl := Option.some.inj hp
              exact ⟨rfl, mem_welcome_iff.mpr (.inl ⟨⟨rfl, (Prod.mk.inj heq).2, hsucceeds⟩, hok⟩)⟩
          · next heq =>
              obtain ⟨hrole, hguest⟩ := h.others u p hu hp
              exact ⟨hrole, mem_welcome_iff.mpr (.inr ⟨fun hand => heq (by rw [hand.2.1]), hguest⟩)⟩
    · -- a row of another conversation
      refine iff_of_true ⟨?_, fun hnot => absurd hsucceeds hnot⟩ (fun heq => absurd heq hc)
      have hwelcome : welcome c guests ⟨db, .addParticipant now c' inviter target,
          { db with participants := db.participants.set (c', target) { role := .member, joinedAt := now } }⟩
            = guests := by
        refine Set.ext (fun u => ?_)
        exact mem_welcome_iff.trans ⟨fun hu => (hu.resolve_left (fun hnew => hc hnew.1.1)).2,
          fun hu => .inr ⟨fun hnew => hc hnew.1, hu⟩⟩
      rw [hwelcome]
      refine h.frame rfl (fun u => ?_)
      rw [Dict.get?_set, if_neg]
      intro heq
      exact hc (Prod.mk.inj heq).1.symm
  · refine iff_of_true (keepsIntact_of_not_succeeds hraise hstep h) ?_
    rintro rfl rfl ⟨user, huser⟩ hnew
    -- the creator is an owner, so only the departments can have stopped him
    obtain ⟨who, hwho, howner⟩ := h.isOwner_iff.mpr rfl
    by_contra hcare
    push Not at hcare
    refine hraise ⟨_, addParticipant_call_iff.mpr (addParticipant_ok_iff.mpr
      ⟨who, user, hwho, howner, hnew, huser, .inr (.inl ?_), rfl⟩)⟩
    cases hinviter : db.users.get? inviter with
    | none => rfl
    | some inviterUser =>
      cases hd : inviterUser.departmentId with
      | none => exact hd
      | some d => exact absurd hd (hcare.2 inviterUser d hinviter)

theorem keepsIntact_iff (hstep : step db act = some db') (h : Intact c creator guests db) :
    KeepsIntact c creator guests ⟨db, act, db'⟩ ↔ Careful c creator ⟨db, act, db'⟩ := by
  cases act with
  | addParticipant now c' inviter target => exact keeps_addParticipant_iff h hstep
  | removeParticipant c' owner target => exact keeps_removeParticipant_iff h hstep
  | leaveConversation c' u => exact iff_of_true (keeps_leaveConversation h hstep) trivial
  | saveUser u user =>
    obtain rfl := Option.some.inj hstep
    exact iff_of_true ⟨h.frame rfl (fun _ => rfl), fun _ => rfl⟩ trivial

end Calls

/-! ## Runs -/

/-- **When a conversation stays intact**: from a conversation that is, every call of a run keeps it intact exactly if the
creator never removes himself, and never invites anybody without being an administrator or having a department. -/
theorem membership_intact_iff {c : ConversationId} {creator : UserId} {guests : Set UserId} {db db' : Db}
    {ts : List (Transition Db Action)} (hr : Run step db ts db') (h : Intact c creator guests db) :
    Annotated (welcome c) (KeepsIntact c creator) guests ts ↔ ∀ t ∈ ts, Careful c creator t := by
  refine hr.annotated_iff (R := fun g s => Intact c creator g s) (fun hstep hintact => ?_) h
  have hiff := keepsIntact_iff hstep hintact
  exact ⟨hiff, fun hcare => (hiff.mpr hcare).1⟩

/-- A conversation as it is created, its creator, and two more users of his department. -/
def laboratory : Db where
  conversations := Dict.ofList [(7, 0)]
  participants := Dict.ofList [((7, 0), { role := .owner, joinedAt := 0 })]
  users := Dict.ofList [(0, { departmentId := some 1, displayName := "a" }),
    (1, { departmentId := some 1, displayName := "b" }), (2, { departmentId := some 1, displayName := "c" })]

theorem laboratory_intact : Intact 7 0 ∅ laboratory where
  created := rfl
  owner := ⟨_, rfl, rfl⟩
  once := nodup_members laboratory 7
  others u p hu hp := by
    have hmem := Dict.get?_eq_some_iff.mp hp
    have hentries : laboratory.participants.entries = [((7, 0), { role := .owner, joinedAt := 0 })] := rfl
    rw [hentries, List.mem_singleton] at hmem
    exact absurd (Prod.mk.inj (Prod.mk.inj hmem).1).2 hu

/-- The creator invites a colleague, who leaves again. -/
theorem laboratory_stays_intact :
    Annotated (welcome 7) (KeepsIntact 7 0) ∅
      (play step laboratory [.addParticipant 5 7 0 1, .leaveConversation 7 1]) :=
  (membership_intact_iff (play_run _ _) laboratory_intact).mpr (by
    intro t ht
    rcases List.mem_cons.mp ht with rfl | ht
    · intro _ _ _ _
      exact .inr ⟨_, 1, rfl, rfl⟩
    · rw [List.mem_singleton.mp ht]
      exact trivial)

/-- The creator removes himself, and the conversation is left without an owner. -/
theorem creator_removes_himself :
    ¬ ∀ (c : ConversationId) (creator : UserId) (guests : Set UserId) (db db' : Db) (ts : List (Transition Db Action)),
      Run step db ts db' → Intact c creator guests db → Annotated (welcome c) (KeepsIntact c creator) guests ts := by
  intro hall
  have hrun := hall 7 0 ∅ laboratory _ _ (play_run laboratory [.removeParticipant 7 0 0]) laboratory_intact
  obtain ⟨p, hp, -⟩ := hrun.1.1.owner
  cases hp

end Irip.Collaboration
