import Irip.Auth.Service

/-!
# `Auth.Transactions` — what a call of the authentication service relies on

`Holds` is what a transaction can rely on while others commit, and what is `Allowed` leaves it.
-/

namespace Irip.Auth

variable {P : Platform}

/-! ## Undisturbed runs -/

/-- The statement a call comes to next. -/
def nextOp : Option (M Reply) → Option Op
  | some (.op o _) => some o
  | _ => none

/-- The family whose UPDATE a write begins. -/
def Write.sweptFamily : Write → Option Uuid
  | .sweeps familyId => some familyId
  | _ => none

/-- The family a write adds a session to. -/
def Write.grownFamily : Write → Option Uuid
  | .insertSession _ row => some row.familyId
  | _ => none

/-- The user a write gives a new password or deletes. -/
def Write.stopped : Write → Option Uuid
  | .setUser id (.password _ _ _) => some id
  | .setUser id (.deleted _ _ _ _) => some id
  | _ => none

/-- The statement `o` of session `i` disturbs nobody: no session is added to a family while that family is being
revoked, and a user is written as the call has read him. -/
def Undisturbed (P : Platform) (p : Sys) (i : Nat) (ws : List Write) : Op → Prop
  | .createRefreshSession _ row =>
    ∀ e ∈ p.sessions.zipIdx, e.2 ≠ i → ∀ w ∈ e.1.writes, w.sweptFamily ≠ some row.familyId
  | .unrevokedOfFamily familyId =>
    ∀ e ∈ p.sessions.zipIdx, e.2 ≠ i → ∀ w ∈ e.1.writes, w.grownFamily ≠ some familyId
  | .flushUser id update =>
    (((engine P).view ws p.committed).users.get? id).map (fun u => u.tokenVersion + 1) = some update.tokenVersion
  | _ => True

/-- Whom the writes give a new password or delete, all his sessions are revoked already. -/
def SignedOut (d : Database) (ws : List Write) : Prop :=
  ∀ w ∈ ws, ∀ id ∈ w.stopped, ∀ e ∈ d.sessions.entries, e.2.userId = id → e.2.revokedAt.isSome = true

/-- What may disturb a call does not happen. -/
def Regular (P : Platform) (p : Sys) : Step → Prop
  | .step i _ => ∀ s ∈ p.sessions[i]?, ∀ o ∈ nextOp s.rest, Undisturbed P p i s.writes o
  | .commit i => ∀ s ∈ p.sessions[i]?, SignedOut p.committed s.writes
  | _ => True

instance (p : Sys) (i : Nat) (ws : List Write) : DecidablePred (Undisturbed P p i ws)
  | .createRefreshSession _ row =>
    inferInstanceAs (Decidable (∀ e ∈ p.sessions.zipIdx, e.2 ≠ i → ∀ w ∈ e.1.writes,
      w.sweptFamily ≠ some row.familyId))
  | .unrevokedOfFamily familyId =>
    inferInstanceAs (Decidable (∀ e ∈ p.sessions.zipIdx, e.2 ≠ i → ∀ w ∈ e.1.writes, w.grownFamily ≠ some familyId))
  | .flushUser id update =>
    inferInstanceAs (Decidable ((((engine P).view ws p.committed).users.get? id).map (fun u => u.tokenVersion + 1)
      = some update.tokenVersion))
  | .newId | .now | .generateRefreshToken | .hashPassword _ | .findUserByEmail _ | .findUserById _
  | .findSessionByDigest _ | .findSessionByDigestForUpdate _ | .rotateSession _ _ _ | .unrevokedOfUser _
  | .revokeSession _ _ => .isTrue trivial

instance (d : Database) (ws : List Write) : Decidable (SignedOut d ws) :=
  inferInstanceAs (Decidable (∀ w ∈ ws, ∀ id ∈ w.stopped, ∀ e ∈ d.sessions.entries, e.2.userId = id →
    e.2.revokedAt.isSome = true))

instance (p : Sys) : DecidablePred (Regular P p)
  | .step i _ =>
    inferInstanceAs (Decidable (∀ s ∈ p.sessions[i]?, ∀ o ∈ nextOp s.rest, Undisturbed P p i s.writes o))
  | .commit i => inferInstanceAs (Decidable (∀ s ∈ p.sessions[i]?, SignedOut p.committed s.writes))
  | .call _ => .isTrue trivial
  | .abort _ => .isTrue trivial

/-- A session that is added to a family, and the beginning of an UPDATE of that family. -/
def clash : Write → Write → Bool
  | .insertSession _ row, .sweeps familyId => row.familyId = familyId
  | .sweeps familyId, .insertSession _ row => row.familyId = familyId
  | _, _ => false

/-- The statement finds the user as its call has read him. -/
def current (d : Database) : Op → Bool
  | .flushUser id update => (d.users.get? id).any (fun u => update.tokenVersion = u.tokenVersion + 1)
  | _ => true

/-- The database, if it made what is not regular wait. -/
def strict (P : Platform) : Engine Database Write Answer Op Res where
  apply := Write.apply
  conflict := fun w w' => conflict w w' || clash w w'
  handle := fun o a d => if current d o then handle P o a d else none

theorem conflict_comm (w w' : Write) : conflict w w' = conflict w' w := by
  rw [Bool.eq_iff_iff]
  simp only [conflict, List.any_eq_true, decide_eq_true_eq]
  exact ⟨fun ⟨k, h, h'⟩ => ⟨k, h', h⟩, fun ⟨k, h, h'⟩ => ⟨k, h', h⟩⟩

theorem clash_comm (w w' : Write) : clash w w' = clash w' w := by
  cases w <;> cases w' <;> rfl

theorem strict_conflict_comm (w w' : Write) : (strict P).conflict w w' = (strict P).conflict w' w := by
  show (conflict w w' || clash w w') = (conflict w' w || clash w' w)
  rw [conflict_comm, clash_comm]

section Statements

variable {o : Op} {a : Answer} {d : Database} {r : Res o} {new : List Write}

theorem insert_of_handle {id : Uuid} {row : RefreshSession} (h : handle P o a d = some (r, new))
    (hmem : .insertSession id row ∈ new) : o = .createRefreshSession id row := by
  cases o <;> simp only [handle] at h <;> (try split at h) <;> (try cases h) <;> (try simp at hmem)
  · obtain ⟨rfl, rfl⟩ := hmem
    rfl
  · next digest =>
      cases hfound : d.findSession digest <;> simp [hfound] at hmem

theorem sweeps_of_handle {familyId : Uuid} (h : handle P o a d = some (r, new))
    (hmem : .sweeps familyId ∈ new) : o = .unrevokedOfFamily familyId := by
  cases o <;> simp only [handle] at h <;> (try split at h) <;> (try cases h) <;> (try simp at hmem)
  · next digest =>
      cases hfound : d.findSession digest <;> simp [hfound] at hmem
  · rw [hmem]

theorem not_clash_of_undisturbed {p : Sys} {i j : Nat} {ws : List Write}
    {t : Session Call Write Op Res Exn Reply} (hreg : Undisturbed P p i ws o)
    (h : handle P o a d = some (r, new)) (hji : j ≠ i) (hj : p.sessions[j]? = some t) {w w' : Write}
    (hw : w ∈ t.writes) (hw' : w' ∈ new) : clash w w' = false := by
  have hmem : (t, j) ∈ p.sessions.zipIdx := List.mem_zipIdx_iff_getElem?.mpr hj
  by_contra hclash
  rw [Bool.not_eq_false] at hclash
  cases w' with
  | insertSession id row =>
    obtain rfl := insert_of_handle h hw'
    cases w with
    | sweeps familyId =>
      have hfamily : row.familyId = familyId := of_decide_eq_true hclash
      exact hreg (t, j) hmem hji _ hw (congrArg some hfamily.symm)
    | _ => cases hclash
  | sweeps familyId =>
    obtain rfl := sweeps_of_handle h hw'
    cases w with
    | insertSession id row =>
      have hfamily : row.familyId = familyId := of_decide_eq_true hclash
      exact hreg (t, j) hmem hji _ hw (congrArg some hfamily)
    | _ => cases hclash
  | _ => cases w <;> cases hclash

theorem current_of_undisturbed {p : Sys} {i : Nat} {ws : List Write} (hreg : Undisturbed P p i ws o) :
    current ((engine P).view ws p.committed) o = true := by
  cases o with
  | flushUser id update =>
    obtain ⟨u, hu, hversion⟩ := Option.map_eq_some_iff.mp hreg
    simp [current, hu, hversion]
  | _ => rfl

end Statements

/-- **A regular step is one that the strict database takes as well.** -/
theorem strict_step {p p' : Sys} {act : Step} (hreg : Regular P p act) (h : step P p act = some p') :
    Server.step (strict P) (prog P) p act = some p' := by
  cases act with
  | step i a =>
    obtain ⟨c, ws, o, k, r, new, hi, hr, hfree, rfl⟩ := Server.step_step h
    have hundisturbed : Undisturbed P p i ws o := hreg _ hi o rfl
    have hcurrent : (strict P).handle o a ((strict P).view ws p.committed) = some (r, new) := by
      show (if current ((engine P).view ws p.committed) o then _ else _) = _
      rw [if_pos (current_of_undisturbed hundisturbed)]
      exact hr
    have hblocked : Server.blocked (strict P) p i new = false := by
      by_contra hblocked
      rw [Bool.not_eq_false, Server.blocked, List.any_eq_true] at hblocked
      obtain ⟨⟨t, j⟩, hmem, hany⟩ := hblocked
      have hj := List.mem_zipIdx_iff_getElem?.mp hmem
      simp only [Bool.and_eq_true, bne_iff_ne, ne_eq, List.any_eq_true] at hany
      obtain ⟨hji, w, hw, w', hw', hconflict⟩ := hany
      have hapart := Server.apart_of_free hfree hji hj w hw w' hw'
      have hclash := not_clash_of_undisturbed hundisturbed hr hji hj hw hw'
      have hno : (strict P).conflict w w' = false := by
        show (conflict w w' || clash w w') = false
        rw [Bool.or_eq_false_iff]
        exact ⟨hapart, hclash⟩
      rw [hno] at hconflict
      cases hconflict
    simp only [Server.step, hi, hcurrent, hblocked]
    rfl
  | _ => exact h

/-! ## Rely -/

/-- A session as it may be later. -/
structure RefreshSession.Precedes (r r' : RefreshSession) : Prop where
  familyId : r'.familyId = r.familyId
  userId : r'.userId = r.userId
  revoked : r.revokedAt.isSome = true → r'.revokedAt.isSome = true
  replaced : r.replacedBy.isSome = true → r'.replacedBy.isSome = true

/-- A user as he may be later. -/
def AppUser.Precedes (u u' : AppUser) : Prop := u' = u ∨ u.tokenVersion < u'.tokenVersion

theorem RefreshSession.Precedes.refl (r : RefreshSession) : r.Precedes r :=
  ⟨rfl, rfl, fun h => h, fun h => h⟩

variable {r r' : RefreshSession} {ws ws' : List Write} {w : Write}

theorem RefreshSession.Precedes.trans {r'' : RefreshSession} (h : r.Precedes r') (h' : r'.Precedes r'') :
    r.Precedes r'' :=
  ⟨h'.familyId.trans h.familyId, h'.userId.trans h.userId, fun hr => h'.revoked (h.revoked hr),
    fun hr => h'.replaced (h.replaced hr)⟩

theorem RefreshSession.Precedes.usable (h : r.Precedes r') (hr' : r'.usable = true) : r.usable = true := by
  obtain ⟨hrevoked, hreplaced⟩ := Bool.and_eq_true_iff.mp hr'
  have hopen : ∀ {α : Type} {x y : Option α}, (x.isSome = true → y.isSome = true) → y.isNone = true →
      x.isNone = true := by
    intro α x y hxy hy
    cases x with
    | none => rfl
    | some a =>
      have hsome := hxy rfl
      rw [Option.isNone_iff_eq_none.mp hy] at hsome
      cases hsome
  exact Bool.and_eq_true_iff.mpr ⟨hopen h.revoked hrevoked, hopen h.replaced hreplaced⟩

theorem AppUser.Precedes.trans {u u' u'' : AppUser} (h : u.Precedes u') (h' : u'.Precedes u'') : u.Precedes u'' := by
  obtain rfl | hlt := h
  · exact h'
  · obtain rfl | hlt' := h'
    · exact .inr hlt
    · exact .inr (by omega)

/-- What a transaction that has written `ws` can rely on from one moment to the next: rows stay, what is revoked stays
revoked, and the version of a user grows whenever he changes; nobody else touches a row it has taken, uses an
identifier it has drawn, or adds a session to a family it is revoking. -/
structure Holds (ws : List Write) (d d' : Database) : Prop where
  session : ∀ id r, d.sessions.get? id = some r → ∃ r', d'.sessions.get? id = some r' ∧ r.Precedes r'
  user : ∀ id u, d.users.get? id = some u → ∃ u', d'.users.get? id = some u' ∧ u.Precedes u'
  heldSession : ∀ id, RowKey.session id ∈ taken ws → d'.sessions.get? id = d.sessions.get? id
  heldUser : ∀ id, RowKey.user id ∈ taken ws → d'.users.get? id = d.users.get? id
  drawn : ∀ id, RowKey.drawn id ∈ taken ws → d.fresh id = true → d'.fresh id = true
  swept : ∀ familyId, .sweeps familyId ∈ ws → ∀ id r', d'.sessions.get? id = some r' →
    r'.familyId = familyId → ∃ r, d.sessions.get? id = some r ∧ r.Precedes r'

theorem Holds.refl (ws : List Write) (d : Database) : Holds ws d d where
  session _ r h := ⟨r, h, .refl r⟩
  user _ u h := ⟨u, h, .inl rfl⟩
  heldSession _ _ := rfl
  heldUser _ _ := rfl
  drawn _ _ h := h
  swept _ _ _ r h _ := ⟨r, h, .refl r⟩

theorem Holds.trans (ws : List Write) {d d' d'' : Database} (h : Holds ws d d') (h' : Holds ws d' d'') :
    Holds ws d d'' where
  session id r hr := by
    obtain ⟨r', hr', hle⟩ := h.session id r hr
    obtain ⟨r'', hr'', hle'⟩ := h'.session id r' hr'
    exact ⟨r'', hr'', hle.trans hle'⟩
  user id u hu := by
    obtain ⟨u', hu', hle⟩ := h.user id u hu
    obtain ⟨u'', hu'', hle'⟩ := h'.user id u' hu'
    exact ⟨u'', hu'', hle.trans hle'⟩
  heldSession id hid := (h'.heldSession id hid).trans (h.heldSession id hid)
  heldUser id hid := (h'.heldUser id hid).trans (h.heldUser id hid)
  drawn id hid hfresh := h'.drawn id hid (h.drawn id hid hfresh)
  swept familyId hsweep id r'' hr'' hfamily := by
    obtain ⟨r', hr', hle'⟩ := h'.swept familyId hsweep id r'' hr'' hfamily
    obtain ⟨r, hr, hle⟩ := h.swept familyId hsweep id r' hr' (hle'.familyId.symm.trans hfamily)
    exact ⟨r, hr, hle.trans hle'⟩

theorem mem_taken_append {k : RowKey} : k ∈ taken (ws ++ ws') ↔ k ∈ taken ws ∨ k ∈ taken ws' := by
  rw [taken, List.flatMap_append, List.mem_append]
  rfl

theorem Holds.of_append {d d' : Database} (h : Holds (ws ++ ws') d d') : Holds ws d d' where
  session := h.session
  user := h.user
  heldSession id hid := h.heldSession id (mem_taken_append.mpr (.inl hid))
  heldUser id hid := h.heldUser id (mem_taken_append.mpr (.inl hid))
  drawn id hid := h.drawn id (mem_taken_append.mpr (.inl hid))
  swept familyId hsweep := h.swept familyId (List.mem_append_left _ hsweep)

theorem fresh_iff {d : Database} {id : Uuid} :
    d.fresh id = true ↔ d.sessions.get? id = none ∧ ∀ k r, d.sessions.get? k = some r → r.familyId ≠ id := by
  unfold Database.fresh
  rw [Bool.and_eq_true, Option.isNone_iff_eq_none, Bool.not_eq_true', Dict.anyRow_eq_false_iff]
  simp only [decide_eq_false_iff_not, ne_eq]

/-! ### What a write leaves of it -/

/-- A write a transaction that has written `ws` may commit: it adds a session under an identifier it has drawn, to a
family it has drawn or that there is, and gives a user a greater version. -/
def Allowed (ws : List Write) (d : Database) : Write → Prop
  | .insertSession id row =>
    d.sessions.get? id = none ∧ .draws id ∈ ws ∧
      (.draws row.familyId ∈ ws ∨ ∃ k r, d.sessions.get? k = some r ∧ r.familyId = row.familyId)
  | .setUser id update => ∀ u, d.users.get? id = some u → u.tokenVersion < update.tokenVersion
  | _ => True

theorem revoke_precedes (r : RefreshSession) (now : Time) : r.Precedes (r.revoke now) :=
  ⟨rfl, rfl, fun h => by
    obtain ⟨t, ht⟩ := Option.isSome_iff_exists.mp h
    simp [RefreshSession.revoke, ht], fun h => h⟩

theorem rotate_precedes (r : RefreshSession) (newId : Uuid) (now : Time) : r.Precedes (r.rotate newId now) :=
  ⟨rfl, rfl, fun _ => rfl, fun _ => rfl⟩

theorem onSession_precedes {id : Uuid} (hw : ∀ row, w ≠ .insertSession id row) :
    ∃ r', w.onSession id (some r) = some r' ∧ r.Precedes r' := by
  cases w with
  | insertSession id' row =>
    have hne : ¬ id = id' := fun h => hw row (h ▸ rfl)
    exact ⟨r, by simp [Write.onSession, hne], .refl r⟩
  | rotates id' newId now =>
    by_cases h : id = id'
    · exact ⟨r.rotate newId now, by simp [Write.onSession, h], rotate_precedes r newId now⟩
    · exact ⟨r, by simp [Write.onSession, h], .refl r⟩
  | revokes id' now =>
    by_cases h : id = id'
    · exact ⟨r.revoke now, by simp [Write.onSession, h], revoke_precedes r now⟩
    · exact ⟨r, by simp [Write.onSession, h], .refl r⟩
  | _ => exact ⟨r, rfl, .refl r⟩

theorem of_onSession {id : Uuid} {x : Option RefreshSession} (h : w.onSession id x = some r') :
    w = .insertSession id r' ∨ ∃ r, x = some r ∧ r.Precedes r' := by
  cases w with
  | insertSession id' row =>
    by_cases hid : id = id'
    · left
      rw [Write.onSession, if_pos hid] at h
      rw [hid, Option.some.inj h]
    · right
      rw [Write.onSession, if_neg hid] at h
      exact ⟨r', h, .refl r'⟩
  | rotates id' newId now =>
    right
    rw [Write.onSession] at h
    split at h
    · obtain ⟨r, hr, rfl⟩ := Option.map_eq_some_iff.mp h
      exact ⟨r, hr, rotate_precedes r newId now⟩
    · exact ⟨r', h, .refl r'⟩
  | revokes id' now =>
    right
    rw [Write.onSession] at h
    split at h
    · obtain ⟨r, hr, rfl⟩ := Option.map_eq_some_iff.mp h
      exact ⟨r, hr, revoke_precedes r now⟩
    · exact ⟨r', h, .refl r'⟩
  | _ => exact .inr ⟨r', h, .refl r'⟩

theorem onSession_of_not_taken {id : Uuid} (h : RowKey.session id ∉ w.keys) (x : Option RefreshSession) :
    w.onSession id x = x := by
  cases w with
  | insertSession id' row | rotates id' newId now | revokes id' now =>
    have hne : ¬ id = id' := fun hid => h (by simp [Write.keys, hid])
    exact if_neg hne
  | _ => rfl

theorem not_taken_of_apart (hapart : ∀ w' ∈ ws, (strict P).conflict w w' = false)
    {k : RowKey} (hk : k ∈ taken ws) : k ∉ w.keys := by
  intro hw
  obtain ⟨w', hw', hk'⟩ := List.mem_flatMap.mp hk
  have hfalse : (conflict w w' || clash w w') = false := hapart w' hw'
  have htrue : conflict w w' = true := List.any_eq_true.mpr ⟨k, hw, decide_eq_true hk'⟩
  rw [htrue, Bool.true_or] at hfalse
  cases hfalse

/-- **What another transaction commits is within what this one relies on.** -/
theorem holds_apply {d : Database} (hallowed : Allowed ws d w)
    (hws : (strict P).Apart ws ws') (hw : w ∈ ws) : Holds ws' d (w.apply d) := by
  have hapart := hws w hw
  have hkey : ∀ {k}, k ∈ taken ws' → k ∉ w.keys := not_taken_of_apart hapart
  -- an identifier this transaction has drawn the other one has not
  have hnotdrawn : ∀ {id}, RowKey.drawn id ∈ taken ws' → .draws id ∉ ws := by
    intro id hid hmem
    exact not_taken_of_apart (hws _ hmem) hid (by simp [Write.keys])
  constructor
  · intro id r hr
    rw [session_apply, hr]
    refine onSession_precedes ?_
    rintro row rfl
    rw [hallowed.1] at hr
    cases hr
  · intro id u hu
    rw [user_apply, hu]
    cases w with
    | setUser id' update =>
      by_cases hid : id = id'
      · subst hid
        refine ⟨update.apply u, by simp [Write.onUser], .inr ?_⟩
        rw [UserUpdate.tokenVersion_apply]
        exact hallowed u hu
      · exact ⟨u, by simp [Write.onUser, hid], .inl rfl⟩
    | _ => exact ⟨u, rfl, .inl rfl⟩
  · intro id hid
    rw [session_apply]
    exact onSession_of_not_taken (hkey hid) _
  · intro id hid
    rw [user_apply]
    cases w with
    | setUser id' update =>
      have hne : ¬ id = id' := fun h => hkey hid (by simp [Write.keys, h])
      simp [Write.onUser, hne]
    | _ => rfl
  · intro id hid hfresh
    obtain ⟨hnone, hfamily⟩ := fresh_iff.mp hfresh
    refine fresh_iff.mpr ⟨?_, ?_⟩
    · rw [session_apply, hnone]
      cases hget : w.onSession id none with
      | none => rfl
      | some r' =>
        obtain rfl | ⟨r, hr, _⟩ := of_onSession hget
        · exact absurd hallowed.2.1 (hnotdrawn hid)
        · cases hr
    · intro k r' hr'
      rw [session_apply] at hr'
      obtain rfl | ⟨r, hr, hle⟩ := of_onSession hr'
      · rintro rfl
        obtain hmem | ⟨k', r, hr, hf⟩ := hallowed.2.2
        · exact hnotdrawn hid hmem
        · exact hfamily k' r hr hf
      · rw [hle.familyId]
        exact hfamily k r hr
  · intro familyId hsweep id r' hr' hf
    rw [session_apply] at hr'
    obtain rfl | hold := of_onSession hr'
    · have hclash : (conflict (.insertSession id r') (.sweeps familyId)
          || clash (.insertSession id r') (.sweeps familyId)) = false := hapart _ hsweep
      simp [clash, hf] at hclash
    · exact hold

/-- Each write of a list is allowed where it comes. -/
def AllowedAll (ws : List Write) : List Write → Database → Prop
  | [], _ => True
  | w :: vs, d => Allowed ws d w ∧ AllowedAll ws vs (w.apply d)

theorem holds_view (hws : (strict P).Apart ws ws') {vs : List Write} (hvs : ∀ w ∈ vs, w ∈ ws)
    {d : Database} (hallowed : AllowedAll ws vs d) : Holds ws' d ((strict P).view vs d) := by
  induction vs generalizing d with
  | nil => exact .refl ws' d
  | cons w vs ih =>
    have hhead := holds_apply hallowed.1 hws (hvs w List.mem_cons_self)
    exact hhead.trans ws' (ih (fun v hv => hvs v (List.mem_cons_of_mem _ hv)) hallowed.2)

theorem allowedAll_revokes (ws : List Write) (now : Time) (ks : List Uuid) (d : Database) :
    AllowedAll ws (ks.map (fun k => .revokes k now)) d := by
  induction ks generalizing d with
  | nil => trivial
  | cons k ks ih => exact ⟨trivial, ih _⟩

end Irip.Auth
