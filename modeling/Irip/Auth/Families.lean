import Irip.Auth.Commits

/-!
# `Auth.Families` — what a token family is safe from

`OneUsable` is the invariant; a family that was revoked stays `Closed`.
-/

namespace Irip.Auth

open Runs

variable {P : Platform}

/-! ## Commits -/

theorem allowed_of_ready {c : Call} {v : Reply} {d : Database} {ws : List Write} (h : Ready c (.ok v) (d, ws)) :
    AllowedAll ws ws d := by
  have hbumps : ∀ {id update vs}, Bumps d ws id update vs → (∀ d', AllowedAll ws vs d') → AllowedAll ws ws d := by
    rintro id update vs ⟨hws, u, hu, hversion⟩ hvs
    have hall : AllowedAll ws (.setUser id update :: vs) d := by
      refine ⟨fun u' hu' => ?_, hvs _⟩
      rw [hu] at hu'
      obtain rfl := Option.some.inj hu'
      omega
    exact hws ▸ hall
  cases c with
  | login email password createdIp userAgent =>
    obtain ⟨familyId, id, row, rfl, rfl, hnew, hfresh⟩ := h
    refine ⟨trivial, trivial, ⟨(fresh_iff.mp hfresh).1, by simp, .inl (by simp)⟩, trivial⟩
  | refresh token =>
    cases v with
    | tokens pair =>
      obtain ⟨oldId, old, newId, row, hrotation⟩ := h
      obtain ⟨now, rfl⟩ := hrotation.writes
      refine ⟨trivial, trivial, ⟨(fresh_iff.mp hrotation.fresh).1, by simp, .inr ?_⟩, trivial, trivial⟩
      exact ⟨oldId, old, hrotation.found, hrotation.family.symm⟩
    | raises e =>
      obtain ⟨oldId, old, ks, now, hsweep⟩ := h
      obtain rfl := hsweep.writes
      exact ⟨trivial, trivial, allowedAll_revokes _ now ks d⟩
    | done => exact h.elim
  | logout token =>
    obtain rfl | ⟨id, now, rfl⟩ := h
    · trivial
    · exact ⟨trivial, trivial⟩
  | disableUser id =>
    obtain ⟨version, now, ks, hb⟩ := h
    exact hbumps hb (allowedAll_revokes ws now ks)
  | changePassword id oldPassword newPassword =>
    obtain ⟨hash, version, now, hb⟩ := h
    exact hbumps hb (fun _ => trivial)
  | deleteAccount id =>
    obtain rfl | ⟨name, email, version, now, hb⟩ := h
    · trivial
    · exact hbumps hb (fun _ => trivial)

theorem holds_of_ready {c : Call} {v : Reply} {d : Database} {ws ws' : List Write} (h : Ready c (.ok v) (d, ws))
    (hapart : (strict P).Apart ws ws') : Holds ws' d ((engine P).view ws d) :=
  holds_view hapart (fun _ hw => hw) (allowed_of_ready h)

/-- Every call in flight is in order. -/
abbrev Sound (P : Platform) (p : Sys) : Prop := Server.Sound (strict P) Holds Ready p

theorem sound_step {p p' : Sys} {act : Step} (hp : Sound P p) (hreg : Regular P p act)
    (h : step P p act = some p') : Sound P p' :=
  hp.step_of_commits strict_conflict_comm Holds.refl (fun ws _ _ _ => Holds.trans ws)
    (fun _ _ _ _ _ hready hapart => holds_of_ready hready hapart) keeps_prog (strict_step hreg h)

/-- **What a commit finds.** -/
theorem ready_of_commit {p p' : Sys} {i : Nat} (hp : Sound P p) (h : step P p (.commit i) = some p') :
    ∃ c ws v, p.sessions[i]? = some ⟨c, ws, some (.ret v)⟩ ∧ Ready c (.ok v) (p.committed, ws) ∧
      p'.committed = (engine P).view ws p.committed :=
  hp.commit Holds.refl (show Server.step (strict P) (prog P) p (.commit i) = some p' from h)

theorem holds_commit {c : Call} {v : Reply} {d : Database} {ws : List Write} (h : Ready c (.ok v) (d, ws)) :
    Holds [] d ((engine P).view ws d) :=
  holds_of_ready (P := P) h fun _ _ _ hw' => absurd hw' List.not_mem_nil

theorem committed_invariant {I : Database → Prop}
    (hI : ∀ {c v d ws}, Ready c (.ok v) (d, ws) → SignedOut d ws → I d → I ((engine P).view ws d)) {p p' : Sys}
    {act : Step} (hp : Sound P p) (hreg : Regular P p act) (h : step P p act = some p') (hs : I p.committed) :
    I p'.committed := by
  cases act with
  | commit i =>
    obtain ⟨c, ws, v, hi, hready, hcommitted⟩ := ready_of_commit hp h
    rw [hcommitted]
    exact hI hready (hreg _ hi) hs
  | _ =>
    rw [Server.committed_step h (fun _ => by simp)]
    exact hs

/-! ## Observations -/

/-- The row a write locks. -/
def Write.locked : Write → Option Uuid
  | .locks id => some id
  | _ => none

/-- The refresh a transition commits: the session it has locked, and what it answers. -/
def refreshed (t : Transition Sys Step) : Option (Uuid × Reply) :=
  match t.act with
  | .commit i =>
    match t.pre.sessions[i]? with
    | some ⟨.refresh _, ws, some (.ret v)⟩ => (ws.findSome? Write.locked).map (fun k => (k, v))
    | _ => none
  | _ => none

/-- The family that a refresh finds rotated already. -/
def replayed (t : Transition Sys Step) : Option Uuid :=
  match refreshed t with
  | some (k, .raises _) => (t.pre.committed.sessions.get? k).map RefreshSession.familyId
  | _ => none

/-- The family for which a refresh answers a token pair. -/
def granted (t : Transition Sys Step) : Option Uuid :=
  match refreshed t with
  | some (k, .tokens _) => (t.pre.committed.sessions.get? k).map RefreshSession.familyId
  | _ => none

/-- The user a write changes. -/
def Write.changedUser : Write → Option Uuid
  | .setUser id _ => some id
  | _ => none

/-- The call that commits. -/
def committing (t : Transition Sys Step) : Option (Session Call Write Op Res Exn Reply) :=
  match t.act with
  | .commit i => t.pre.sessions[i]?
  | _ => none

/-- The call that commits disables the user, deletes him, or gives him a new password. -/
def Changes (id : Uuid) (t : Transition Sys Step) : Prop :=
  ∃ s ∈ committing t, ∃ w ∈ s.writes, w.changedUser = some id

/-- The session `k` has been issued to the user. -/
def Issued (k id : Uuid) (d : Database) : Prop := (d.sessions.get? k).map RefreshSession.userId = some id

/-- The session that is refreshed, and the token pair it gets. -/
def rotated (t : Transition Sys Step) : Option (Uuid × TokenPair) :=
  match refreshed t with
  | some (k, .tokens pair) => some (k, pair)
  | _ => none

/-- The session `k` is refreshed, and the access token carries the user's version. -/
def Renewed (k id : Uuid) (t : Transition Sys Step) : Prop :=
  ∃ e ∈ rotated t, e.1 = k ∧
    (t.post.committed.users.get? id).map AppUser.tokenVersion = some e.2.accessToken.tokenVersion

instance (id : Uuid) : DecidablePred (Changes id) := fun t =>
  inferInstanceAs (Decidable (∃ s ∈ committing t, ∃ w ∈ s.writes, w.changedUser = some id))

instance (k id : Uuid) (d : Database) : Decidable (Issued k id d) :=
  inferInstanceAs (Decidable ((d.sessions.get? k).map RefreshSession.userId = some id))

instance (k id : Uuid) : DecidablePred (Renewed k id) := fun t =>
  inferInstanceAs (Decidable (∃ e ∈ rotated t, e.1 = k ∧
    (t.post.committed.users.get? id).map AppUser.tokenVersion = some e.2.accessToken.tokenVersion))

/-- Each family has at most one usable session. -/
def OneUsable (d : Database) : Prop :=
  ∀ k r k' r', d.sessions.get? k = some r → d.sessions.get? k' = some r' → r.usable = true → r'.usable = true →
    r.familyId = r'.familyId → k = k'

/-- What a run owes to a token family. -/
structure FamilySafe (ts : List (Transition Sys Step)) : Prop where
  oneUsable : ∀ t ∈ ts, OneUsable t.post.committed
  replayed : ∀ familyId, After (fun t => replayed t = some familyId) (fun t => granted t ≠ some familyId) ts
  changed : ∀ k id, After (fun t => Changes id t ∧ Issued k id t.pre.committed) (fun t => ¬ Renewed k id t) ts

/-! ## Invariants -/

section Invariants

variable {c : Call} {v : Reply} {d : Database} {ws : List Write}

variable {id oldId k : Uuid} {row old : RefreshSession}

theorem of_view {r' : RefreshSession} (h : ((engine P).view ws d).sessions.get? id = some r') :
    (∃ row, .insertSession id row ∈ ws ∧ row.Precedes r') ∨ ∃ r, d.sessions.get? id = some r ∧ r.Precedes r' := by
  induction ws generalizing d with
  | nil => exact .inr ⟨r', h, .refl r'⟩
  | cons w ws ih =>
    rcases ih h with ⟨row, hmem, hle⟩ | ⟨r, hr, hle⟩
    · exact .inl ⟨row, List.mem_cons_of_mem _ hmem, hle⟩
    · have hw : w.onSession id (d.sessions.get? id) = some r := by
        rw [← session_apply]
        exact hr
      rcases of_onSession hw with rfl | ⟨r₀, hr₀, hle₀⟩
      · exact .inl ⟨r, List.mem_cons_self, hle⟩
      · exact .inr ⟨r₀, hr₀, hle₀.trans hle⟩

theorem insert_of_ready (h : Ready c (.ok v) (d, ws)) (hmem : .insertSession id row ∈ ws) :
    (∀ id' row', .insertSession id' row' ∈ ws → id' = id) ∧
      (d.fresh row.familyId = true ∨ ∃ oldId old pair, v = .tokens pair ∧ Rotation d ws oldId old id row pair) := by
  have hbumps : ∀ {id' update ks now}, ¬ Bumps d ws id' update (List.map (fun k => .revokes k now) ks) := by
    rintro id' update ks now ⟨rfl, _⟩
    simp at hmem
  have hbumps' : ∀ {id' update}, ¬ Bumps d ws id' update [] := by
    rintro id' update ⟨rfl, _⟩
    simp at hmem
  cases c with
  | login email password createdIp userAgent =>
    obtain ⟨familyId, id', row', rfl, rfl, hnew, _⟩ := h
    obtain ⟨rfl, rfl⟩ : id = id' ∧ row = row' := by simpa using hmem
    exact ⟨by simp, .inl hnew⟩
  | refresh token =>
    cases v with
    | tokens pair =>
      obtain ⟨oldId, old, newId, row', hrotation⟩ := h
      obtain ⟨now, rfl⟩ := hrotation.writes
      obtain ⟨rfl, rfl⟩ : id = newId ∧ row = row' := by simpa using hmem
      exact ⟨by simp, .inr ⟨oldId, old, pair, rfl, hrotation⟩⟩
    | raises e =>
      obtain ⟨oldId, old, ks, now, hsweep⟩ := h
      obtain rfl := hsweep.writes
      simp at hmem
    | done => exact h.elim
  | logout token =>
    obtain rfl | ⟨id', now, rfl⟩ := h
    · cases hmem
    · simp at hmem
  | disableUser id' =>
    obtain ⟨version, now, ks, hb⟩ := h
    exact absurd hb hbumps
  | changePassword id' oldPassword newPassword =>
    obtain ⟨hash, version, now, hb⟩ := h
    exact absurd hb hbumps'
  | deleteAccount id' =>
    obtain rfl | ⟨name, email, version, now, hb⟩ := h
    · cases hmem
    · exact absurd hb hbumps'

theorem Rotation.view_old {newId : Uuid} {pair : TokenPair} (h : Rotation d ws oldId old newId row pair) :
    ∃ r, ((engine P).view ws d).sessions.get? oldId = some r ∧ r.usable = false := by
  obtain ⟨now, rfl⟩ := h.writes
  have hne : ¬ oldId = newId := by
    rintro rfl
    have hfound := h.found
    rw [(fresh_iff.mp h.fresh).1] at hfound
    cases hfound
  refine ⟨old.rotate newId now, ?_, rfl⟩
  rw [session_view, h.found]
  simp [Write.onSession, hne]

/-! ### One usable session -/

theorem oneUsable_of_ready (h : Ready c (.ok v) (d, ws)) (hd : OneUsable d) :
    OneUsable ((engine P).view ws d) := by
  -- a new session and an old one are not usable both
  have hmixed : ∀ {k k' row r r' s'}, .insertSession k row ∈ ws → row.Precedes r' → d.sessions.get? k' = some r →
      ((engine P).view ws d).sessions.get? k' = some s' → r.Precedes s' → s'.usable = true →
      r'.familyId = s'.familyId → False := by
    intro k k' row r r' s' hmem hle hr hs' hle' husable hfamily
    have hsame : r.familyId = row.familyId := hle'.familyId.symm.trans (hfamily.symm.trans hle.familyId)
    obtain ⟨-, hnew | ⟨oldId, old, pair, -, hrotation⟩⟩ := insert_of_ready h hmem
    · exact (fresh_iff.mp hnew).2 k' r hr hsame
    · have hid : oldId = k' :=
        hd oldId old k' r hrotation.found hr hrotation.usable (hle'.usable husable)
          (hrotation.family.symm.trans hsame.symm)
      obtain ⟨s, hs, hunusable⟩ := hrotation.view_old (P := P)
      rw [hid, hs'] at hs
      obtain rfl := Option.some.inj hs
      rw [husable] at hunusable
      cases hunusable
  intro k r' k' s' hr' hs' husable husable' hfamily
  rcases of_view hr' with ⟨row, hmem, hle⟩ | ⟨r, hr, hle⟩
  · rcases of_view hs' with ⟨row', hmem', _⟩ | ⟨s, hs, hle'⟩
    · exact (insert_of_ready h hmem).1 k' row' hmem' |>.symm
    · exact (hmixed hmem hle hs hs' hle' husable' hfamily).elim
  · rcases of_view hs' with ⟨row', hmem', hle'⟩ | ⟨s, hs, hle'⟩
    · exact (hmixed hmem' hle' hr hr' hle husable hfamily.symm).elim
    · exact hd k r k' s hr hs (hle.usable husable) (hle'.usable husable')
        (hle.familyId.symm.trans (hfamily.trans hle'.familyId))

/-! ### A revoked family -/

/-- The sessions of the family are all revoked, and there are some. -/
structure Closed (familyId : Uuid) (d : Database) : Prop where
  some_ : ∃ k r, d.sessions.get? k = some r ∧ r.familyId = familyId
  all : ∀ k r, d.sessions.get? k = some r → r.familyId = familyId → r.revokedAt.isSome = true

theorem closed_of_ready {familyId : Uuid} (h : Ready c (.ok v) (d, ws)) (hd : Closed familyId d) :
    Closed familyId ((engine P).view ws d) := by
  obtain ⟨k, r, hr, hfamily⟩ := hd.some_
  constructor
  · obtain ⟨r', hr', hle⟩ := (holds_commit (P := P) h).session k r hr
    exact ⟨k, r', hr', hle.familyId.trans hfamily⟩
  · intro k' s' hs' hfamily'
    rcases of_view hs' with ⟨row, hmem, hle⟩ | ⟨s, hs, hle⟩
    · have hrow : row.familyId = familyId := hle.familyId.symm.trans hfamily'
      obtain ⟨-, hnew | ⟨oldId, old, pair, -, hrotation⟩⟩ := insert_of_ready h hmem
      · exact absurd (hfamily.trans hrow.symm) ((fresh_iff.mp hnew).2 k r hr)
      · have hrevoked := hd.all oldId old hrotation.found (hrotation.family.symm.trans hrow)
        have husable := hrotation.usable
        unfold RefreshSession.usable at husable
        simp_all
    · exact hle.revoked (hd.all k' s hs (hle.familyId.symm.trans hfamily'))

theorem Sweep.closed {ks : List Uuid} {now : Time}
    (h : Sweep d ws oldId old ks now) : Closed old.familyId ((engine P).view ws d) := by
  have hview : ∀ k, ((engine P).view ws d).sessions.get? k =
      if k ∈ ks then (d.sessions.get? k).map (fun r => r.revoke now) else d.sessions.get? k := by
    intro k
    rw [session_view, h.writes, List.foldl_append, foldl_revokes]
    rfl
  constructor
  · refine ⟨oldId, if oldId ∈ ks then old.revoke now else old, ?_, ?_⟩
    · rw [hview, h.found]
      split <;> rfl
    · split <;> rfl
  · intro k r hr hfamily
    rw [hview] at hr
    split at hr
    · obtain ⟨r₀, hr₀, rfl⟩ := Option.map_eq_some_iff.mp hr
      cases hrevoked : r₀.revokedAt <;> simp [RefreshSession.revoke, hrevoked]
    · next hk => exact (h.all k r hr hfamily).resolve_left hk

/-! ### A user who was stopped -/

/-- The session is revoked, or its user is disabled. -/
structure Barred (k id : Uuid) (d : Database) : Prop where
  barred : ∃ r, d.sessions.get? k = some r ∧ r.userId = id ∧
    (r.revokedAt.isSome = true ∨ ∃ u, d.users.get? id = some u ∧ u.status = .disabled)

theorem disabled_view (hws : ∀ w ∈ ws, w.stopped ≠ some id) {u : AppUser}
    (hu : d.users.get? id = some u) (hstatus : u.status = .disabled) :
    ∃ u', ((engine P).view ws d).users.get? id = some u' ∧ u'.status = .disabled := by
  induction ws generalizing d u with
  | nil => exact ⟨u, hu, hstatus⟩
  | cons w ws ih =>
    have hhead : ∃ u', (w.apply d).users.get? id = some u' ∧ u'.status = .disabled := by
      rw [user_apply, hu]
      cases w with
      | setUser id' update =>
        by_cases hid : id = id'
        · refine ⟨update.apply u, by simp [Write.onUser, hid], ?_⟩
          have hstop := hws _ List.mem_cons_self
          cases update with
          | disabled version now => rfl
          | password hash version now | deleted name email version now =>
              exact absurd (by simp [Write.stopped, hid]) hstop
        · exact ⟨u, by simp [Write.onUser, hid], hstatus⟩
      | _ => exact ⟨u, rfl, hstatus⟩
    obtain ⟨u', hu', hstatus'⟩ := hhead
    exact ih (fun w hw => hws w (List.mem_cons_of_mem _ hw)) hu' hstatus'

theorem revoked_of_signedOut {r : RefreshSession} (h : SignedOut d ws) {w : Write} (hw : w ∈ ws)
    (hstop : w.stopped = some id) (hr : d.sessions.get? k = some r) (huser : r.userId = id) :
    r.revokedAt.isSome = true :=
  h w hw id hstop (k, r) (Dict.get?_eq_some_iff.mp hr) huser

theorem barred_of_ready (h : Ready c (.ok v) (d, ws)) (hout : SignedOut d ws) (hd : Barred k id d) :
    Barred k id ((engine P).view ws d) := by
  obtain ⟨r, hr, huser, hbar⟩ := hd.barred
  obtain ⟨r', hr', hle⟩ := (holds_commit (P := P) h).session k r hr
  refine ⟨r', hr', hle.userId.trans huser, ?_⟩
  rcases hbar with hrevoked | ⟨u, hu, hstatus⟩
  · exact .inl (hle.revoked hrevoked)
  · by_cases hstop : ∃ w ∈ ws, w.stopped = some id
    · obtain ⟨w, hw, hstop⟩ := hstop
      exact .inl (hle.revoked (revoked_of_signedOut hout hw hstop hr huser))
    · refine .inr (disabled_view (fun w hw hw' => hstop ⟨w, hw, hw'⟩) hu hstatus)

theorem bumps_of_disabled {version : Int} {now : Time} (h : Ready c (.ok v) (d, ws))
    (hmem : .setUser id (.disabled version now) ∈ ws) :
    ∃ ks : List Uuid, Bumps d ws id (.disabled version now) (ks.map (fun k => .revokes k now)) := by
  cases c with
  | login email password createdIp userAgent =>
    obtain ⟨familyId, id', row', rfl, -⟩ := h
    simp at hmem
  | refresh token =>
    cases v with
    | tokens pair =>
      obtain ⟨oldId, old, newId, row', hrotation⟩ := h
      obtain ⟨now, rfl⟩ := hrotation.writes
      simp at hmem
    | raises e =>
      obtain ⟨oldId, old, ks, now, hsweep⟩ := h
      obtain rfl := hsweep.writes
      simp at hmem
    | done => exact h.elim
  | logout token =>
    obtain rfl | ⟨id', now, rfl⟩ := h
    · cases hmem
    · simp at hmem
  | disableUser id' =>
    obtain ⟨version', now', ks, rfl, hu⟩ := h
    obtain ⟨rfl, rfl, rfl⟩ : id = id' ∧ version = version' ∧ now = now' := by simpa using hmem
    exact ⟨ks, rfl, hu⟩
  | changePassword id' oldPassword newPassword =>
    obtain ⟨hash, version, now, rfl, -⟩ := h
    simp at hmem
  | deleteAccount id' =>
    obtain rfl | ⟨name, email, version, now, rfl, -⟩ := h
    · cases hmem
    · simp at hmem

theorem barred_of_changes (h : Ready c (.ok v) (d, ws)) (hout : SignedOut d ws) {w : Write}
    (hw : w ∈ ws) (hchange : w.changedUser = some id) (hissued : Issued k id d) :
    Barred k id ((engine P).view ws d) := by
  obtain ⟨r, hr, huser⟩ := Option.map_eq_some_iff.mp hissued
  obtain ⟨r', hr', hle⟩ := (holds_commit (P := P) h).session k r hr
  refine ⟨r', hr', hle.userId.trans huser, ?_⟩
  cases w with
  | setUser id' update =>
    obtain rfl := Option.some.inj hchange
    cases update with
    | disabled version now =>
      right
      obtain ⟨ks, rfl, x, hx, -⟩ := bumps_of_disabled h hw
      have hset : ((Write.setUser id' (.disabled version now)).apply d).users.get? id'
          = some ((UserUpdate.disabled version now).apply x) := by
        rw [user_apply, hx]
        simp [Write.onUser]
      -- the revocations that follow leave the user alone
      refine disabled_view (d := (Write.setUser id' (.disabled version now)).apply d) ?_ hset rfl
      intro w hw
      obtain ⟨k', -, rfl⟩ := List.mem_map.mp hw
      simp [Write.stopped]
    | password hash version now | deleted name email version now =>
        exact .inl (hle.revoked (revoked_of_signedOut hout hw rfl hr huser))
  | _ => cases hchange

theorem Rotation.version_ne {newId : Uuid} {pair : TokenPair}
    (h : Rotation d ws oldId old newId row pair) (hbarred : Barred oldId id d) :
    (((engine P).view ws d).users.get? id).map AppUser.tokenVersion ≠ some pair.accessToken.tokenVersion := by
  obtain ⟨r, hr, huser, hbar⟩ := hbarred.barred
  rw [h.found] at hr
  obtain rfl := Option.some.inj hr
  obtain ⟨u, u', hactive, hversion, hu', hle⟩ := h.version
  have husers : ((engine P).view ws d).users.get? id = some u' := by
    obtain ⟨now, rfl⟩ := h.writes
    rw [← huser]
    exact hu'
  rw [husers, hversion]
  intro heq
  have hsame : u'.tokenVersion = u.tokenVersion := Option.some.inj heq
  rcases hbar with hrevoked | ⟨x, hx, hstatus⟩
  · have husable := h.usable
    unfold RefreshSession.usable at husable
    simp_all
  · rw [huser, hx] at hu'
    obtain rfl := Option.some.inj hu'
    rcases hle with rfl | hlt
    · exact hactive hstatus
    · omega

end Invariants

/-! ## Runs -/

theorem refreshed_eq_some {t : Transition Sys Step} {k : Uuid} {v : Reply} (h : refreshed t = some (k, v)) :
    ∃ i token ws, t.act = .commit i ∧ t.pre.sessions[i]? = some ⟨.refresh token, ws, some (.ret v)⟩ ∧
      ws.findSome? Write.locked = some k := by
  unfold refreshed at h
  split at h
  · next i hact =>
      split at h
      · next token ws v' hi =>
          obtain ⟨k', hk', heq⟩ := Option.map_eq_some_iff.mp h
          obtain ⟨rfl, rfl⟩ := Prod.mk.inj heq
          exact ⟨i, token, ws, hact, hi, hk'⟩
      · cases h
  · cases h

section Refreshes

variable {t : Transition Sys Step} {k : Uuid}

theorem ready_of_refreshed {v : Reply} (hp : Sound P t.pre) (h : step P t.pre t.act = some t.post)
    (href : refreshed t = some (k, v)) :
    ∃ token ws, ws.findSome? Write.locked = some k ∧ Ready (.refresh token) (.ok v) (t.pre.committed, ws) ∧
      t.post.committed = (engine P).view ws t.pre.committed := by
  obtain ⟨i, token, ws, hact, hi, hlocked⟩ := refreshed_eq_some href
  rw [hact] at h
  obtain ⟨c, ws', v', hi', hready, hcommitted⟩ := ready_of_commit hp h
  rw [hi] at hi'
  injection hi' with hsession
  injection hsession with hcall hwrites hrest
  obtain rfl : v = v' := Prog.ret.inj (Option.some.inj hrest)
  subst hcall hwrites
  exact ⟨token, ws, hlocked, hready, hcommitted⟩

theorem rotation_of_refreshed {pair : TokenPair} (hp : Sound P t.pre) (h : step P t.pre t.act = some t.post)
    (href : refreshed t = some (k, .tokens pair)) :
    ∃ old newId row ws, Rotation t.pre.committed ws k old newId row pair ∧
      t.post.committed = (engine P).view ws t.pre.committed := by
  obtain ⟨token, ws, hlocked, ⟨oldId, old, newId, row, hrotation⟩, hcommitted⟩ := ready_of_refreshed hp h href
  obtain ⟨now, hws⟩ := hrotation.writes
  obtain rfl : oldId = k := by
    rw [show ws = _ from hws] at hlocked
    exact Option.some.inj hlocked
  exact ⟨old, newId, row, ws, hrotation, hcommitted⟩

theorem closed_of_replayed {familyId : Uuid} (hp : Sound P t.pre) (h : step P t.pre t.act = some t.post)
    (hreplayed : replayed t = some familyId) : Closed familyId t.post.committed := by
  unfold replayed at hreplayed
  split at hreplayed
  · next k e href =>
      obtain ⟨token, ws, hlocked, ⟨oldId, old, ks, now, hsweep⟩, hcommitted⟩ := ready_of_refreshed hp h href
      obtain rfl : oldId = k := by
        rw [show ws = _ from hsweep.writes] at hlocked
        exact Option.some.inj hlocked
      rw [show t.pre.committed.sessions.get? oldId = _ from hsweep.found] at hreplayed
      obtain rfl := Option.some.inj hreplayed
      rw [hcommitted]
      exact hsweep.closed
  · cases hreplayed

theorem granted_ne_of_closed {familyId : Uuid} (hp : Sound P t.pre) (h : step P t.pre t.act = some t.post)
    (hclosed : Closed familyId t.pre.committed) : granted t ≠ some familyId := by
  intro hgranted
  unfold granted at hgranted
  split at hgranted
  · next k pair href =>
      obtain ⟨old, newId, row, ws, hrotation, -⟩ := rotation_of_refreshed hp h href
      rw [hrotation.found] at hgranted
      have hrevoked := hclosed.all k old hrotation.found (Option.some.inj hgranted)
      have husable := hrotation.usable
      unfold RefreshSession.usable at husable
      simp_all
  · cases hgranted

theorem barred_of_transition {id : Uuid} (hp : Sound P t.pre) (hreg : Regular P t.pre t.act)
    (h : step P t.pre t.act = some t.post) (hchanges : Changes id t) (hissued : Issued k id t.pre.committed) :
    Barred k id t.post.committed := by
  obtain ⟨s, hs, w, hw, hchange⟩ := hchanges
  unfold committing at hs
  split at hs
  · next i hact =>
      rw [hact] at h hreg
      obtain ⟨c, ws, v, hi, hready, hcommitted⟩ := ready_of_commit hp h
      have hout := hreg s hs
      rw [show t.pre.sessions[i]? = some s from hs] at hi
      obtain rfl := Option.some.inj hi
      rw [hcommitted]
      exact barred_of_changes hready hout hw hchange hissued
  · cases hs

theorem not_renewed_of_barred {id : Uuid} (hp : Sound P t.pre) (h : step P t.pre t.act = some t.post)
    (hbarred : Barred k id t.pre.committed) : ¬ Renewed k id t := by
  rintro ⟨e, he, rfl, hversion⟩
  unfold rotated at he
  split at he
  · next k' pair href =>
      obtain rfl := Option.some.inj he
      obtain ⟨old, newId, row, ws, hrotation, hcommitted⟩ := rotation_of_refreshed hp h href
      rw [hcommitted] at hversion
      exact hrotation.version_ne hbarred hversion
  · cases he

end Refreshes

theorem sound_start (users : Dict Uuid AppUser) : Sound P (start users) where
  inOrder := by
    intro i s hs
    cases hs
  apart := by
    intro i j s t _ hs
    cases hs

/-- **Token families are safe in undisturbed runs.** -/
theorem familySafe_of_regular {users : Dict Uuid AppUser} {ts : List (Transition Sys Step)} {p : Sys}
    (hr : Run (step P) (start users) ts p) (hreg : ∀ t ∈ ts, Regular P t.pre t.act) : FamilySafe ts := by
  have hstep : ∀ t ∈ ts, step P t.pre t.act = some t.post := fun t ht => hr.step_of_mem ht
  have hsound : ∀ t ∈ ts, Sound P t.pre := fun t ht =>
    (hr.invariant (sound_start users) (fun t ht hp => sound_step hp (hreg t ht) (hstep t ht)) t ht).1
  -- what survives a commit survives a transition of the run
  have hkeep : ∀ {I : Database → Prop}, (∀ {c v d ws}, Ready c (.ok v) (d, ws) → SignedOut d ws → I d →
      I ((engine P).view ws d)) → ∀ t ∈ ts, I t.pre.committed → I t.post.committed :=
    fun hI t ht => committed_invariant hI (hsound t ht) (hreg t ht) (hstep t ht)
  refine ⟨?_, ?_, ?_⟩
  · intro t ht
    have hstart : OneUsable (start users).committed := by
      intro k r k' r' hk
      cases hk
    refine (hr.invariant (I := fun p => OneUsable p.committed) hstart ?_ t ht).2
    exact hkeep fun hready _ => oneUsable_of_ready hready
  · intro familyId
    refine hr.after (J := fun p => Closed familyId p.committed) ?_ ?_
    · intro t ht hreplayed
      exact closed_of_replayed (hsound t ht) (hstep t ht) hreplayed
    · intro t ht hclosed
      refine ⟨hkeep (fun hready _ => closed_of_ready hready) t ht hclosed, ?_⟩
      exact granted_ne_of_closed (hsound t ht) (hstep t ht) hclosed
  · intro k id
    refine hr.after (J := fun p => Barred k id p.committed) ?_ ?_
    · rintro t ht ⟨hchanges, hissued⟩
      exact barred_of_transition (hsound t ht) (hreg t ht) (hstep t ht) hchanges hissued
    · intro t ht hbarred
      refine ⟨hkeep barred_of_ready t ht hbarred, ?_⟩
      exact not_renewed_of_barred (hsound t ht) (hstep t ht) hbarred

/-! ### Three runs -/

/-- Passwords as they are, for the runs below. -/
def plain : Platform := ⟨fun password _ => password, fun hash password => hash == password, id⟩

/-- One user. -/
def oneUser : Dict Uuid AppUser := Dict.ofList [("user", { email := "ada@lab", passwordHash := "old" })]

/-- A login, from the call to its commit. -/
def logsIn (i : Nat) (familyId sessionId token : String) : List Step :=
  [.call (.login "ada@lab" "old" none none), .step i {}, .step i { text := token }, .step i { id := familyId },
   .step i { id := sessionId }, .step i {}, .step i {}, .step i {}, .commit i]

/-- A refresh that rotates, after its call. -/
def rotates (i : Nat) (sessionId token : String) : List Step :=
  [.step i {}, .step i {}, .step i { text := token }, .step i { id := sessionId }, .step i {}, .step i {}, .step i {},
   .step i {}, .commit i]

/-- A login, a refresh, the same token once more, and the next one. -/
def replay : List Step :=
  logsIn 0 "family" "s0" "t0" ++ .call (.refresh "t0") :: rotates 1 "s1" "t1" ++
    [.call (.refresh "t0"), .step 2 {}, .step 2 {}, .step 2 {}, .step 2 {}, .commit 2,
     .call (.refresh "t1"), .step 3 {}, .step 3 {}, .abort 3]

theorem familySafe_replay : (play (step plain) (start oneUser) replay).length = replay.length ∧
    FamilySafe (play (step plain) (start oneUser) replay) :=
  ⟨by decide +kernel, familySafe_of_regular (play_run (start oneUser) replay) (by decide +kernel)⟩

/-- The token `t1` is rotated while the replay of `t0` revokes the family. -/
def overlap : List Step :=
  logsIn 0 "family" "s0" "t0" ++ .call (.refresh "t0") :: rotates 1 "s1" "t1" ++
    [.call (.refresh "t1"), .call (.refresh "t0"), .step 2 {}, .step 2 {}, .step 2 { text := "t2" },
     .step 2 { id := "s2" }, .step 2 {}, .step 3 {}, .step 3 {}, .step 3 {}, .step 2 {}, .step 2 {}, .step 2 {},
     .commit 2, .step 3 {}, .commit 3] ++ .call (.refresh "t2") :: rotates 4 "s3" "t3"

/-- The password is changed between a login and a refresh. -/
def outlived : List Step :=
  logsIn 0 "family" "s0" "t0" ++
    [.call (.changePassword "user" "old" "new"), .step 1 {}, .step 1 {}, .step 1 {}, .step 1 {}, .commit 1] ++
    .call (.refresh "t0") :: rotates 2 "s1" "t1"

/-- **A family is not safe in either.** -/
theorem not_familySafe : ¬ FamilySafe (play (step plain) (start oneUser) overlap) ∧
    ¬ FamilySafe (play (step plain) (start oneUser) outlived) := by
  constructor
  · intro hsafe
    exact absurd (hsafe.replayed "family") (by decide +kernel)
  · intro hsafe
    exact absurd (hsafe.changed "s0" "user") (by decide +kernel)

end Irip.Auth
