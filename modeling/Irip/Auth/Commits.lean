import Irip.Auth.Transactions

/-!
# `Auth.Commits` — what the calls of the authentication service commit

A login, a rotation and a replay write in ways of their own: `Opening`, `Rotation` and `Sweep`.
-/

namespace Irip.Auth

variable {P : Platform}

/-! ## Postcondition -/

/-- The writes of a login: the first session of a new family. -/
structure Opening (d : Database) (ws : List Write) (familyId id : Uuid) (row : RefreshSession) : Prop where
  writes : ws = [.draws familyId, .draws id, .insertSession id row]
  family : row.familyId = familyId
  new : d.fresh familyId = true
  fresh : d.fresh id = true

/-- The writes of a refresh that answers a token pair: a usable session makes room for the next of its family. The
access token carries the version of a user who was not disabled when he was read. -/
structure Rotation (d : Database) (ws : List Write) (oldId : Uuid) (old : RefreshSession) (newId : Uuid)
    (row : RefreshSession) (pair : TokenPair) : Prop where
  writes : ∃ now, ws = [.locks oldId, .draws newId, .insertSession newId row, .rotates oldId newId now]
  found : d.sessions.get? oldId = some old
  usable : old.usable = true
  family : row.familyId = old.familyId
  user : row.userId = old.userId
  fresh : d.fresh newId = true
  version : ∃ u u' : AppUser, u.status ≠ .disabled ∧ pair.accessToken.tokenVersion = u.tokenVersion ∧
    d.users.get? old.userId = some u' ∧ u.Precedes u'

/-- The writes of a refresh that finds its session rotated: the sessions of the family that were not revoked. -/
structure Sweep (d : Database) (ws : List Write) (oldId : Uuid) (old : RefreshSession) (ks : List Uuid) (now : Time) :
    Prop where
  writes : ws = [.locks oldId, .sweeps old.familyId] ++ ks.map (fun k => .revokes k now)
  found : d.sessions.get? oldId = some old
  rotated : old.replacedBy.isSome = true
  all : ∀ k r, d.sessions.get? k = some r → r.familyId = old.familyId → k ∈ ks ∨ r.revokedAt.isSome = true

/-- A user is written with the next version. -/
def Bumps (d : Database) (ws : List Write) (id : Uuid) (update : UserUpdate) (vs : List Write) : Prop :=
  ws = .setUser id update :: vs ∧ ∃ u, d.users.get? id = some u ∧ update.tokenVersion = u.tokenVersion + 1

/-- The writes of a call that has come to its end. -/
def Ready : Call → Except Exn Reply → Database × List Write → Prop
  | _, .error _, _ => True
  | .login _ _ _ _, .ok _, x => ∃ familyId id row, Opening x.1 x.2 familyId id row
  | .refresh _, .ok (.tokens pair), x => ∃ oldId old newId row, Rotation x.1 x.2 oldId old newId row pair
  | .refresh _, .ok (.raises _), x => ∃ oldId old ks now, Sweep x.1 x.2 oldId old ks now
  | .refresh _, .ok .done, _ => False
  | .logout _, .ok _, x => x.2 = [] ∨ ∃ id now, x.2 = [.revokes id now]
  | .disableUser id, .ok _, x =>
    ∃ version now, ∃ ks : List Uuid, Bumps x.1 x.2 id (.disabled version now) (ks.map (fun k => .revokes k now))
  | .changePassword id _ _, .ok _, x => ∃ hash version now, Bumps x.1 x.2 id (.password hash version now) []
  | .deleteAccount id, .ok _, x =>
    x.2 = [] ∨ ∃ name email version now, Bumps x.1 x.2 id (.deleted name email version now) []

/-! ## Programs -/

section Programs

variable {c : Call} {d : Database} {ws : List Write}

/-- The programs of the service, under what a transaction relies on. -/
abbrev Keeps (P : Platform) (c : Call) (q : M Reply) (d : Database) (ws : List Write) : Prop :=
  Server.InOrder (strict P) Holds Ready c q d ws

theorem Keeps.ask {o : Op} {k : Res o → M Reply}
    (h : ∀ d', Holds ws d d' → ∀ a r new, handle P o a ((engine P).view ws d') = some (r, new) →
      current ((engine P).view ws d') o = true → Keeps P c (k r) d' (ws ++ new)) : Keeps P c (.op o k) d ws := by
  refine Server.InOrder.op fun d' hholds a r new hhandle => ?_
  have hstrict : (if current ((engine P).view ws d') o then handle P o a ((engine P).view ws d') else none)
      = some (r, new) := hhandle
  split at hstrict
  · next hcurrent => exact h d' hholds a r new hstrict hcurrent
  · cases hstrict

theorem Keeps.read {o : Op} {k : Res o → M Reply}
    (hread : ∀ a d r new, handle P o a d = some (r, new) → new = [])
    (h : ∀ d', Holds ws d d' → ∀ a r, handle P o a ((engine P).view ws d') = some (r, []) →
      Keeps P c (k r) d' ws) : Keeps P c (.op o k) d ws := by
  refine Keeps.ask fun d' hd a r new hhandle _ => ?_
  obtain rfl := hread a _ r new hhandle
  rw [List.append_nil]
  exact h d' hd a r hhandle

theorem Keeps.raise {e : Exn} : Keeps P c (.raise e) d ws := fun _ _ => trivial

theorem Keeps.ret {v : Reply} (h : ∀ d', Holds ws d d' → Ready c (.ok v) (d', ws)) : Keeps P c (.ret v) d ws :=
  Server.InOrder.ret h

theorem Keeps.now {k : Time → M Reply} (h : ∀ d', Holds ws d d' → ∀ now, Keeps P c (k now) d' ws) :
    Keeps P c (.op .now k) d ws :=
  Keeps.read (fun _ _ _ _ => written_eq) (fun d' hd _ now _ => h d' hd now)

theorem Keeps.token {k : String → M Reply} (h : ∀ d', Holds ws d d' → ∀ token, Keeps P c (k token) d' ws) :
    Keeps P c (.op .generateRefreshToken k) d ws :=
  Keeps.read (fun _ _ _ _ => written_eq) (fun d' hd _ token _ => h d' hd token)

variable {id : Uuid}

theorem Keeps.findUser {k : Option AppUser → M Reply}
    (h : ∀ d', Holds ws d d' → Keeps P c (k (((engine P).view ws d').users.get? id)) d' ws) :
    Keeps P c (.op (.findUserById id) k) d ws := by
  refine Keeps.read (fun _ _ _ _ => written_eq) fun d' hd a r hr => ?_
  obtain ⟨rfl, -⟩ := answer_inj hr
  exact h d' hd

theorem Keeps.newId {k : Uuid → M Reply}
    (h : ∀ d', Holds ws d d' → ∀ id, ((engine P).view ws d').fresh id = true →
      Keeps P c (k id) d' (ws ++ [.draws id])) : Keeps P c (.op .newId k) d ws := by
  refine Keeps.ask fun d' hd a r new hhandle _ => ?_
  simp only [handle] at hhandle
  split at hhandle
  · next hfresh =>
      obtain ⟨rfl, rfl⟩ := answer_inj hhandle
      exact h d' hd a.id hfresh
  · cases hhandle

theorem keeps_createRefreshSession {row : RefreshSession} {f : Unit → M Reply}
    (h : ∀ d', Holds ws d d' → Keeps P c (f ()) d' (ws ++ [.insertSession id row])) :
    Keeps P c (createRefreshSession id row >>= f) d ws := by
  show Keeps P c (.op (.createRefreshSession id row) fun created => Prog.lift created >>= f) d ws
  refine Keeps.ask fun d' hd a r new hhandle _ => ?_
  simp only [handle] at hhandle
  split at hhandle
  · obtain ⟨rfl, rfl⟩ := answer_inj hhandle
    exact h d' hd
  · obtain ⟨rfl, rfl⟩ := answer_inj hhandle
    exact Keeps.raise

theorem keeps_flushUser {update : UserUpdate} {f : Unit → M Reply}
    (h : ∀ d', Holds ws d d' → (∃ u, ((engine P).view ws d').users.get? id = some u ∧
      update.tokenVersion = u.tokenVersion + 1) → Keeps P c (f ()) d' (ws ++ [.setUser id update])) :
    Keeps P c (flushUser id update >>= f) d ws := by
  show Keeps P c (.op (.flushUser id update) fun flushed => Prog.lift flushed >>= f) d ws
  refine Keeps.ask fun d' hd a r new hhandle hcurrent => ?_
  simp only [handle] at hhandle
  split at hhandle
  · obtain ⟨rfl, rfl⟩ := answer_inj hhandle
    exact Keeps.raise
  · obtain ⟨rfl, rfl⟩ := answer_inj hhandle
    refine h d' hd ?_
    cases hu : ((engine P).view ws d').users.get? id with
    | none => simp [current, hu] at hcurrent
    | some u => exact ⟨u, rfl, by simpa [current, hu] using hcurrent⟩

/-! ### Revocations -/

theorem keeps_revokeRows_raise {now : Time} {ks : List Uuid} {e : Exn} :
    Keeps P c (revokeRows now ks >>= fun _ => .raise e) d ws := by
  induction ks generalizing d ws with
  | nil => exact Keeps.raise
  | cons k ks ih => exact Keeps.ask fun d' _ a r new _ _ => ih

/-- Writes that leave the sessions alone. -/
def Inert (ws : List Write) : Prop := ∀ id x, ws.foldl (fun r w => w.onSession id r) x = x

theorem foldl_revokes (id : Uuid) (now : Time) (ks : List Uuid) (x : Option RefreshSession) :
    (ks.map (fun k => Write.revokes k now)).foldl (fun r w => w.onSession id r) x =
      if id ∈ ks then x.map (fun r => r.revoke now) else x := by
  induction ks generalizing x with
  | nil => rfl
  | cons k ks ih =>
    rw [List.map_cons, List.foldl_cons, ih, Write.onSession]
    by_cases hk : id = k
    · subst hk
      by_cases hmem : id ∈ ks
      · cases x with
        | none => simp
        | some r => cases hr : r.revokedAt <;> simp [hmem, RefreshSession.revoke, hr]
      · simp [hmem]
    · simp [hk]

/-- **The rows of an UPDATE.** After it, each row that was found has been revoked, by this call or before it. -/
theorem keeps_revokeRows {base : List Write} (hbase : Inert base) {now : Time} {ks todo : List Uuid}
    {f : Unit → M Reply} (hrows : ∀ k ∈ todo, ∃ r, d.sessions.get? k = some r)
    (h : ∀ d' ks', Holds (base ++ ks.map (fun k => .revokes k now)) d d' → ks ⊆ ks' →
      (∀ k ∈ todo, k ∈ ks' ∨ ∃ r, d'.sessions.get? k = some r ∧ r.revokedAt.isSome = true) →
      Keeps P c (f ()) d' (base ++ ks'.map (fun k => .revokes k now))) :
    Keeps P c (revokeRows now todo >>= f) d (base ++ ks.map (fun k => .revokes k now)) := by
  induction todo generalizing d ks with
  | nil => exact h d ks (.refl _ d) (fun _ hk => hk) (List.forall_mem_nil _)
  | cons k todo ih =>
    refine Keeps.ask fun d₁ h₁ a u new hhandle _ => ?_
    obtain ⟨-, rfl⟩ := answer_inj hhandle
    have hrows₁ : ∀ k' ∈ k :: todo, ∃ r, d₁.sessions.get? k' = some r := by
      intro k' hk'
      obtain ⟨r, hr⟩ := hrows k' hk'
      obtain ⟨r', hr', _⟩ := h₁.session k' r hr
      exact ⟨r', hr'⟩
    have htail : ∀ k' ∈ todo, ∃ r, d₁.sessions.get? k' = some r := fun k' hk' =>
      hrows₁ k' (List.mem_cons_of_mem _ hk')
    obtain ⟨r, hr⟩ := hrows₁ k List.mem_cons_self
    have hview : ((engine P).view (base ++ ks.map (fun k => .revokes k now)) d₁).sessions.get? k =
        if k ∈ ks then some (r.revoke now) else some r := by
      rw [session_view, List.foldl_append, hbase, foldl_revokes, hr]
      rfl
    by_cases hfree : k ∉ ks ∧ r.revokedAt = none
    · -- the row is revoked here
      obtain ⟨hk, hrevoked⟩ := hfree
      rw [hview, if_neg hk]
      simp only [hrevoked, Option.any_some, Option.isNone_none, if_true]
      have happend : base ++ ks.map (fun k => Write.revokes k now) ++ [.revokes k now] =
          base ++ (ks ++ [k]).map (fun k => .revokes k now) := by simp
      rw [happend]
      refine ih htail fun d' ks' hd hks hall => ?_
      refine h d' ks' (h₁.trans _ (by rw [← happend] at hd; exact hd.of_append))
        (fun x hx => hks (List.mem_append_left _ hx)) fun k' hk' => ?_
      rcases List.mem_cons.mp hk' with rfl | hk'
      · exact .inl (hks (List.mem_append_right _ List.mem_cons_self))
      · exact hall k' hk'
    · -- it was revoked before
      have hdone : k ∈ ks ∨ r.revokedAt.isSome = true := by
        by_cases hk : k ∈ ks
        · exact .inl hk
        · right
          rw [← Option.ne_none_iff_isSome]
          exact fun hnone => hfree ⟨hk, hnone⟩
      have hskip : (((engine P).view (base ++ ks.map (fun k => .revokes k now)) d₁).sessions.get? k).any
          (fun r => r.revokedAt.isNone) = false := by
        rw [hview]
        rcases hdone with hk | hsome
        · rw [if_pos hk]
          cases hr' : r.revokedAt <;> simp [RefreshSession.revoke, hr']
        · obtain ⟨t, ht⟩ := Option.isSome_iff_exists.mp hsome
          split
          · simp [RefreshSession.revoke, ht]
          · simp [ht]
      rw [hskip]
      simp only [Bool.false_eq_true, if_false, List.append_nil]
      refine ih htail fun d' ks' hd hks hall => ?_
      refine h d' ks' (h₁.trans _ hd) hks fun k' hk' => ?_
      rcases List.mem_cons.mp hk' with rfl | hk'
      · rcases hdone with hk | hsome
        · exact .inl (hks hk)
        · obtain ⟨r', hr', hle⟩ := hd.session k' r hr
          exact .inr ⟨r', hr', hle.revoked hsome⟩
      · exact hall k' hk'

/-! ### Calls -/

theorem keeps_authenticate {email password : String} {f : Uuid × AppUser → M Reply}
    (h : ∀ d', Holds ws d d' → ∀ found, Keeps P c (f found) d' ws) :
    Keeps P c (authenticate P email password >>= f) d ws := by
  refine Keeps.read (fun _ _ _ _ => written_eq) fun d₁ h₁ a found _ => ?_
  cases found with
  | none => exact Keeps.raise
  | some entry =>
    obtain ⟨userId, user⟩ := entry
    show Keeps P c ((if !P.verifyPassword user.passwordHash password then Prog.raise _
      else if user.status = .disabled then Prog.raise _ else .ret (userId, user)) >>= f) d₁ ws
    split
    · exact Keeps.raise
    · split
      · exact Keeps.raise
      · exact h d₁ h₁ (userId, user)

theorem keeps_login {email password : String} {createdIp userAgent : Option String} :
    Keeps P (.login email password createdIp userAgent) (login P email password createdIp userAgent) d [] := by
  refine keeps_authenticate fun d₁ _ found => ?_
  refine Keeps.token fun d₂ _ token => ?_
  refine Keeps.newId fun d₃ _ familyId hfamily => ?_
  refine Keeps.newId fun d₄ h₄ id hid => ?_
  refine Keeps.now fun d₅ h₅ now => ?_
  refine keeps_createRefreshSession fun d₆ h₆ => ?_
  refine Keeps.now fun d₇ h₇ issued => ?_
  refine Keeps.ret fun d' hd => ?_
  -- the two identifiers stay unused until the transaction ends
  have hlate := (h₅.trans _ h₆).trans _ (h₇.trans _ hd).of_append
  have hnew : d'.fresh familyId = true := by
    refine (h₄.trans _ hlate.of_append).drawn familyId ?_ hfamily
    simp [taken, Write.keys]
  have hfresh : d'.fresh id = true := by
    refine hlate.drawn id ?_ hid
    simp [taken, Write.keys]
  exact ⟨familyId, id, _, rfl, rfl, hnew, hfresh⟩

theorem keeps_rotate {token : String} {oldId : Uuid} {old : RefreshSession} {now : Time}
    (hold : d.sessions.get? oldId = some old) (husable : old.usable = true) :
    Keeps P (.refresh token) (rotate oldId old now) d [.locks oldId] := by
  refine Keeps.token fun d₁ h₁ newToken => ?_
  refine Keeps.newId fun d₂ h₂ newId hid => ?_
  refine keeps_createRefreshSession fun d₃ h₃ => ?_
  refine Keeps.ask fun d₄ h₄ a rotated new hhandle _ => ?_
  obtain ⟨-, rfl⟩ := answer_inj hhandle
  refine Keeps.findUser fun d₅ h₅ => ?_
  have huser : ∀ row, ((engine P).view ([.locks oldId] ++ [.draws newId] ++ [.insertSession newId row]
      ++ [.rotates oldId newId now]) d₅).users.get? old.userId = d₅.users.get? old.userId := fun _ => rfl
  rw [huser]
  cases hread : d₅.users.get? old.userId with
  | none => exact Keeps.raise
  | some user =>
    show Keeps P _ (if user.status = .disabled then _ else _) _ _
    split
    · exact Keeps.ask fun d₆ _ a ks new _ _ => keeps_revokeRows_raise
    · next hstatus =>
      refine Keeps.now fun d₆ h₆ issued => ?_
      refine Keeps.ret fun d' hd => ?_
      have hlate := (h₆.trans _ hd)
      have hrest := ((h₃.trans _ h₄.of_append).trans _ (h₅.trans _ hlate).of_append.of_append)
      refine ⟨oldId, old, newId, _, ⟨now, rfl⟩, ?_, husable, rfl, rfl, ?_, ?_⟩
      · have hheld := ((h₁.trans _ h₂).trans _ hrest.of_append).heldSession oldId (by simp [taken, Write.keys])
        exact hheld.trans hold
      · exact hrest.drawn newId (by simp [taken, Write.keys]) hid
      · obtain ⟨u', hu', hle⟩ := hlate.user old.userId user hread
        exact ⟨user, u', hstatus, rfl, hu', hle⟩

theorem keeps_refresh {token : String} : Keeps P (.refresh token) (refresh token) d [] := by
  refine Keeps.ask fun d₁ _ a found new hhandle _ => ?_
  obtain ⟨rfl, rfl⟩ := answer_inj hhandle
  refine Keeps.now fun d₂ h₂ now => ?_
  cases hfound : ((engine P).view [] d₁).findSession (computeRefreshDigest token) with
  | none => exact Keeps.raise
  | some entry =>
    obtain ⟨oldId, old⟩ := entry
    rw [hfound] at h₂
    have hlocked : d₂.sessions.get? oldId = some old := by
      have hread := (Dict.get?_of_findBy hfound).1
      exact (h₂.heldSession oldId (by simp [taken, Write.keys])).trans hread
    show Keeps P _ (if old.replacedBy.isSome then _ else if old.revokedAt.isSome then _
      else if old.expiresAt < now then _ else _) _ _
    split
    · next hreplaced =>
      -- a replay: the family is revoked and the transaction committed
      refine Keeps.ask fun d₃ h₃ a ks new hhandle _ => ?_
      obtain ⟨rfl, rfl⟩ := answer_inj hhandle
      have hbase : Inert ([.locks oldId] ++ [.sweeps old.familyId]) := fun _ _ => rfl
      have hrow₃ : d₃.sessions.get? oldId = some old :=
        (h₃.heldSession oldId (by simp [taken, Write.keys])).trans hlocked
      refine @keeps_revokeRows _ _ _ _ hbase _ [] _ _ ?_ ?_
      · intro k hk
        obtain ⟨r, hr, _⟩ := Dict.mem_keysWhere.mp hk
        exact ⟨r, hr⟩
      · intro d₄ ks' h₄ _ hall
        refine Keeps.ret fun d' hd => ?_
        refine ⟨oldId, old, ks', now, rfl, ?_, hreplaced, ?_⟩
        · have hheld := (h₄.of_append.trans _ hd.of_append).heldSession oldId (by simp [taken, Write.keys])
          exact hheld.trans hrow₃
        · intro k r' hr' hfamily
          -- nobody has added a session to the family meanwhile
          obtain ⟨r₄, hr₄, hle₄⟩ := hd.of_append.swept old.familyId (by simp) k r' hr' hfamily
          obtain ⟨r₃, hr₃, hle₃⟩ := h₄.of_append.swept old.familyId (by simp) k r₄ hr₄
            (hle₄.familyId.symm.trans hfamily)
          by_cases hrevoked : r₃.revokedAt.isSome = true
          · exact .inr (hle₄.revoked (hle₃.revoked hrevoked))
          · have hmem : k ∈ ((engine P).view [.locks oldId] d₃).sessions.keysWhere
                (fun r => r.familyId = old.familyId && r.revokedAt.isNone) := by
              refine Dict.mem_keysWhere.mpr ⟨r₃, hr₃, ?_⟩
              rw [Bool.and_eq_true, decide_eq_true_eq]
              refine ⟨hle₃.familyId.symm.trans (hle₄.familyId.symm.trans hfamily), ?_⟩
              cases hr : r₃.revokedAt <;> simp_all
            rcases hall k hmem with hk | ⟨r, hr, hsome⟩
            · exact .inl hk
            · obtain ⟨r'', hr'', hle⟩ := hd.session k r hr
              rw [hr'] at hr''
              obtain rfl := Option.some.inj hr''
              exact .inr (hle.revoked hsome)
    · next hreplaced =>
      split
      · exact Keeps.raise
      · next hrevoked =>
        split
        · exact Keeps.raise
        · refine keeps_rotate hlocked ?_
          unfold RefreshSession.usable
          cases hr : old.revokedAt <;> cases hb : old.replacedBy <;> simp_all

theorem keeps_logout {token : String} : Keeps P (.logout token) (logout token) d [] := by
  refine Keeps.read (fun _ _ _ _ => written_eq) fun d₁ _ a found _ => ?_
  cases found with
  | none => exact Keeps.ret fun _ _ => .inl rfl
  | some entry =>
    obtain ⟨id, old⟩ := entry
    show Keeps P _ (if old.revokedAt.isNone then _ else _) _ _
    split
    · refine Keeps.now fun d₂ _ now => ?_
      refine Keeps.ask fun d₃ _ a u new hhandle _ => ?_
      obtain ⟨-, rfl⟩ := answer_inj hhandle
      refine Keeps.ret fun d' _ => ?_
      split
      · exact .inr ⟨id, now, rfl⟩
      · exact .inl rfl
    · exact Keeps.ret fun _ _ => .inl rfl

theorem Bumps.of_holds {update : UserUpdate} {vs : List Write} {d' : Database}
    (hu : ∃ u, d.users.get? id = some u ∧ update.tokenVersion = u.tokenVersion + 1)
    (hd : Holds [.setUser id update] d d') : Bumps d' (.setUser id update :: vs) id update vs := by
  obtain ⟨u, hu, hversion⟩ := hu
  exact ⟨rfl, u, (hd.heldUser id (by simp [taken, Write.keys])).trans hu, hversion⟩

theorem keeps_disableUser : Keeps P (.disableUser id) (disableUser id) d [] := by
  refine Keeps.now fun d₁ _ now => ?_
  refine Keeps.findUser fun d₂ _ => ?_
  cases ((engine P).view [] d₂).users.get? id with
  | none => exact Keeps.raise
  | some user =>
    refine keeps_flushUser fun d₃ _ hu => ?_
    refine Keeps.ask fun d₄ h₄ a ks new hhandle _ => ?_
    obtain ⟨rfl, rfl⟩ := answer_inj hhandle
    have hbase : Inert [.setUser id (.disabled (user.tokenVersion + 1) now)] := fun _ _ => rfl
    refine @keeps_revokeRows _ _ _ _ hbase _ [] _ _ ?_ ?_
    · intro k hk
      obtain ⟨r, hr, _⟩ := Dict.mem_keysWhere.mp hk
      exact ⟨r, hr⟩
    · intro d₅ ks' h₅ _ _
      refine Keeps.ret fun d' hd => ?_
      have hlate := (h₄.trans _ (h₅.of_append.trans _ hd.of_append))
      exact ⟨_, now, ks', Bumps.of_holds hu hlate⟩

theorem keeps_changePassword {oldPassword newPassword : String} :
    Keeps P (.changePassword id oldPassword newPassword) (changePassword P id oldPassword newPassword) d [] := by
  refine Keeps.findUser fun d₁ _ => ?_
  cases ((engine P).view [] d₁).users.get? id with
  | none => exact Keeps.raise
  | some user =>
    show Keeps P _ (if !P.verifyPassword user.passwordHash oldPassword then _ else _) _ _
    split
    · exact Keeps.raise
    · refine Keeps.read (fun _ _ _ _ => written_eq) fun d₂ _ a hash _ => ?_
      refine Keeps.now fun d₃ _ now => ?_
      refine keeps_flushUser fun d₄ _ hu => ?_
      exact Keeps.ret fun d' hd => ⟨hash, _, now, Bumps.of_holds hu hd⟩

theorem keeps_deleteAccount : Keeps P (.deleteAccount id) (deleteAccount id) d [] := by
  refine Keeps.findUser fun d₁ _ => ?_
  cases ((engine P).view [] d₁).users.get? id with
  | none => exact Keeps.ret fun _ _ => .inl rfl
  | some user =>
    refine Keeps.now fun d₂ _ now => ?_
    refine keeps_flushUser fun d₃ _ hu => ?_
    exact Keeps.ret fun d' hd => .inr ⟨_, _, _, now, Bumps.of_holds hu hd⟩

/-- **Every call is in order.** -/
theorem keeps_prog (c : Call) (d : Database) : Keeps P c (prog P c) d [] := by
  cases c with
  | login email password createdIp userAgent => exact keeps_login
  | refresh token => exact keeps_refresh
  | logout token => exact keeps_logout
  | disableUser id => exact keeps_disableUser
  | changePassword id oldPassword newPassword => exact keeps_changePassword
  | deleteAccount id => exact keeps_deleteAccount

end Programs

end Irip.Auth
