import Irip.Departments.Service

/-!
# `Departments.Transactions` — what a call of the department service relies on and commits

`Holds` is what a transaction can rely on while others commit; a call writes one row.
-/

namespace Irip.Departments

/-! ## Rely -/

/-- What a transaction that has written `ws` can rely on: nobody else touches a row it has written, deletes a parent it
refers to, or puts a department below one it deletes. -/
structure Holds (ws : List Write) (d d' : Database) : Prop where
  held : ∀ w ∈ ws, d'.get? w.id = d.get? w.id
  refers : ∀ w ∈ ws, ∀ p, w.refers = some p → (d.get? p).isSome = true → (d'.get? p).isSome = true
  deletes : ∀ w ∈ ws, ∀ p, w.deletes = some p → (∀ k r, d.get? k = some r → r.parentId ≠ some p) →
    ∀ k r, d'.get? k = some r → r.parentId ≠ some p

theorem Holds.refl (ws : List Write) (d : Database) : Holds ws d d := ⟨fun _ _ => rfl, fun _ _ _ _ h => h, fun _ _ _ _ h => h⟩

theorem Holds.trans (ws : List Write) {d d' d'' : Database} (h : Holds ws d d') (h' : Holds ws d' d'') :
    Holds ws d d'' where
  held w hw := (h'.held w hw).trans (h.held w hw)
  refers w hw p hp hd := h'.refers w hw p hp (h.refers w hw p hp hd)
  deletes w hw p hp hd := h'.deletes w hw p hp (h.deletes w hw p hp hd)

/-! ## Postcondition -/

/-- The writes of a call that has come to its end: a department with its parent, one that stays or moves to another
parent, or the end of one that has no children. -/
inductive Committed (d : Database) : List Write → Prop where
  | insert {id : Uuid} {row : Department} (new : d.get? id = none)
      (parent : ∀ p, row.parentId = some p → (d.get? p).isSome = true) : Committed d [.insert id row]
  | update {id : Uuid} {old row : Department} {moved : Bool} (found : d.get? id = some old)
      (code : row.code = old.code) (protect : old.sentinel = true → row.parentId = old.parentId)
      (stays : moved = false → row.parentId = old.parentId)
      (parent : moved = true → ∀ p, row.parentId = some p → (d.get? p).isSome = true) :
      Committed d [.update id row moved]
  | delete {id : Uuid} {old : Department} (found : d.get? id = some old) (plain : old.sentinel = false)
      (leaf : ∀ k r, d.get? k = some r → r.parentId ≠ some id) : Committed d [.delete id]

variable {d d' : Database} {ws ws' : List Write}

theorem Committed.holds (h : Committed d ws) (hd : Holds ws d d') : Committed d' ws := by
  cases h with
  | @insert id row new hparent =>
    have hheld := hd.held _ List.mem_cons_self
    exact .insert (hheld.trans new) fun p hp => hd.refers _ List.mem_cons_self p hp (hparent p hp)
  | @update id old row moved found code protect stays hparent =>
    have hheld := hd.held _ List.mem_cons_self
    refine .update (hheld.trans found) code protect stays fun hmoved p hp => ?_
    refine hd.refers _ List.mem_cons_self p ?_ (hparent hmoved p hp)
    rw [Write.refers, if_pos hmoved, hp]
  | @delete id old found plain leaf =>
    have hheld := hd.held _ List.mem_cons_self
    exact .delete (hheld.trans found) plain (hd.deletes _ List.mem_cons_self id rfl leaf)

theorem conflict_comm (w w' : Write) : conflict w w' = conflict w' w := by
  have hid : (w.id == w'.id) = (w'.id == w.id) := by
    rw [Bool.eq_iff_iff, beq_iff_eq, beq_iff_eq]
    exact eq_comm
  have hclaims : (w.claims.isSome && w.claims == w'.claims) = (w'.claims.isSome && w'.claims == w.claims) := by
    rw [Bool.eq_iff_iff, Bool.and_eq_true, Bool.and_eq_true, beq_iff_eq, beq_iff_eq]
    constructor
    · rintro ⟨hsome, heq⟩
      exact ⟨heq ▸ hsome, heq.symm⟩
    · rintro ⟨hsome, heq⟩
      exact ⟨heq ▸ hsome, heq.symm⟩
  unfold conflict
  rw [hid, hclaims, Bool.or_right_comm]

theorem of_not_conflict {w w' : Write} (h : conflict w w' = false) :
    w.id ≠ w'.id ∧ (∀ p, w.deletes = some p → w'.refers ≠ some p) ∧ ∀ p, w'.deletes = some p → w.refers ≠ some p := by
  unfold conflict at h
  rw [Bool.or_eq_false_iff, Bool.or_eq_false_iff, Bool.or_eq_false_iff] at h
  obtain ⟨⟨⟨hid, -⟩, hdel⟩, hdel'⟩ := h
  refine ⟨by simpa using hid, ?_, ?_⟩
  · intro p hp hr
    simp [orphans, hp, hr] at hdel
  · intro p hp hr
    simp [orphans, hp, hr] at hdel'

theorem get?_apply_of_ne {w : Write} {k : Uuid} (h : k ≠ w.id) (d : Database) : (w.apply d).get? k = d.get? k := by
  cases w with
  | insert id row | update id row moved | delete id =>
    have hne : ¬ k = id := h
    simp [Write.apply, hne]

theorem Committed.holds_view (h : Committed d ws) (hapart : engine.Apart ws ws') : Holds ws' d (engine.view ws d) := by
  -- a call writes one row
  have hone : ∃ w, ws = [w] := by
    cases h <;> exact ⟨_, rfl⟩
  obtain ⟨w, rfl⟩ := hone
  have hfree : ∀ w' ∈ ws', conflict w w' = false := fun w' hw' => hapart w List.mem_cons_self w' hw'
  show Holds ws' d (w.apply d)
  constructor
  · intro w' hw'
    exact get?_apply_of_ne (fun heq => (of_not_conflict (hfree w' hw')).1 heq.symm) d
  · intro w' hw' p hp hsome
    by_cases hpw : p = w.id
    · subst hpw
      cases h with
      | insert new _ =>
        rw [show d.get? (Write.insert _ _).id = none from new] at hsome
        cases hsome
      | @update id old row moved found =>
        show ((d.modify id (fun _ => row)).get? id).isSome = true
        rw [Dict.get?_modify, if_pos rfl, found]
        rfl
      | delete => exact absurd hp ((of_not_conflict (hfree w' hw')).2.1 _ rfl)
    · rw [get?_apply_of_ne hpw]
      exact hsome
  · intro w' hw' p hp hleaf k r hr
    have hrefers := (of_not_conflict (hfree w' hw')).2.2 p hp
    by_cases hkw : k = w.id
    · subst hkw
      cases h with
      | @insert id row =>
        have hget : (d.set id row).get? id = some r := hr
        rw [Dict.get?_set, if_pos rfl] at hget
        exact Option.some.inj hget ▸ hrefers
      | @update id old row moved found _ _ stays =>
        have hget : (d.modify id (fun _ => row)).get? id = some r := hr
        rw [Dict.get?_modify, if_pos rfl, found] at hget
        obtain rfl : row = r := Option.some.inj hget
        cases hm : moved with
        | true =>
          subst hm
          exact hrefers
        | false =>
          rw [stays hm]
          exact hleaf id old found
      | @delete id =>
        have hget : (d.erase id).get? id = some r := hr
        rw [Dict.get?_erase, if_pos rfl] at hget
        cases hget
    · rw [get?_apply_of_ne hkw] at hr
      exact hleaf k r hr

/-! ## Programs -/

/-- The postcondition of a call. -/
def Ready (_ : Call) : Except Exn Unit → Database × List Write → Prop
  | .ok _, x => Committed x.1 x.2
  | .error _, _ => True

section Programs

variable {c : Call}

/-- The programs of the service, under what a transaction relies on. -/
abbrev Keeps (c : Call) (q : M Unit) (d : Database) (ws : List Write) : Prop :=
  Server.InOrder engine Holds Ready c q d ws

theorem Keeps.ask {o : Op} {k : Res o → M Unit}
    (h : ∀ d' a r new, handle o a (engine.view ws d') = some (r, new) → Keeps c (k r) d' (ws ++ new)) :
    Keeps c (.op o k) d ws :=
  Server.InOrder.op fun d' _ => h d'

theorem Keeps.read {o : Op} {k : Res o → M Unit} (hread : ∀ a d r new, handle o a d = some (r, new) → new = [])
    (h : ∀ d' r, Keeps c (k r) d' ws) : Keeps c (.op o k) d ws :=
  Server.InOrder.read hread fun d' _ _ r _ => h d' r

theorem Keeps.raise {e : Exn} : Keeps c (.raise e) d ws := fun _ _ => trivial

theorem Keeps.lift {α : Type} {x : Except Exn α} {f : α → M Unit} (h : ∀ a, x = .ok a → Keeps c (f a) d ws) :
    Keeps c (Prog.lift x >>= f) d ws :=
  .lift_bind h (fun _ _ _ _ => trivial)

theorem Keeps.ret (h : Committed d ws) : Keeps c (.ret ()) d ws :=
  Server.InOrder.ret fun _ hholds => h.holds hholds

variable {lockVersion : Int} {id : Uuid}

theorem committed_updateRow {set : Department → Department} {row : Department}
    {new : List Write} (hcode : ∀ old, (set old).code = old.code)
    (h : updateRow d id lockVersion set = (.ok (some row), new)) : Committed d new := by
  unfold updateRow at h
  split at h
  · cases h
  · next old hold =>
      split at h
      · cases h
      · simp only at h
        split at h
        · cases h
        · next hprotect =>
            have hparent : old.sentinel = true →
                ({ set old with lockVersion := old.lockVersion + 1 } : Department).parentId = old.parentId := by
              intro hsentinel
              by_contra hne
              rw [protectSentinelDept, if_pos hsentinel, if_pos hne] at hprotect
              cases hprotect
            split at h
            · next hsame =>
                obtain ⟨-, rfl⟩ := Prod.mk.inj h
                exact .update hold (hcode old) hparent (fun _ => hsame) (fun hmoved => by cases hmoved)
            · split at h
              · next hadmits =>
                  obtain ⟨-, rfl⟩ := Prod.mk.inj h
                  refine .update hold (hcode old) hparent (fun hmoved => by cases hmoved) fun _ p hp => ?_
                  unfold admits at hadmits
                  rw [hp] at hadmits
                  exact (Bool.and_eq_true_iff.mp hadmits).1
              · cases h

theorem keeps_staleUpdate : Keeps c (staleUpdate id lockVersion) d ws := by
  refine Keeps.read (fun _ _ _ _ => written_eq) fun d₁ existing => ?_
  exact Keeps.lift fun _ _ => Keeps.raise

theorem keeps_create {code displayName : String} {description : Option String} {sortOrder : Int}
    {parentId : Option Uuid} : Keeps c (create code displayName description sortOrder parentId) d [] := by
  refine Keeps.read (fun _ _ _ _ => written_eq) fun d₁ existing => ?_
  show Keeps c (if existing.isSome then _ else _) d₁ []
  split
  · exact Keeps.raise
  · refine Keeps.read (fun _ _ _ _ => written_eq) fun d₂ id => ?_
    refine Keeps.ask fun d₃ a inserted new hhandle => ?_
    simp only [handle] at hhandle
    split at hhandle
    · next hfree =>
        obtain ⟨rfl, rfl⟩ := answer_inj hhandle
        obtain ⟨hnone, hadmits⟩ := Bool.and_eq_true_iff.mp hfree
        refine Keeps.ret (.insert (Option.isNone_iff_eq_none.mp hnone) fun p hp => ?_)
        unfold admits at hadmits
        simp only at hp
        rw [hp] at hadmits
        exact (Bool.and_eq_true_iff.mp hadmits).1
    · obtain ⟨rfl, rfl⟩ := answer_inj hhandle
      exact Keeps.raise

theorem keeps_updateRow {set : Department → Department}
    {updated : Except Exn (Option Department)} {new : List Write} (hcode : ∀ old, (set old).code = old.code)
    (h : updateRow d id lockVersion set = (updated, new)) :
    Keeps c (Prog.lift updated >>= fun updated => if updated.isSome then return () else staleUpdate id lockVersion)
      d new := by
  refine Keeps.lift fun row hrow => ?_
  subst hrow
  split
  · next hsome =>
      obtain ⟨row, rfl⟩ := Option.isSome_iff_exists.mp hsome
      exact Keeps.ret (committed_updateRow hcode h)
  · exact keeps_staleUpdate

theorem keeps_update {fields : Fields} : Keeps c (update id fields) d [] := by
  refine Keeps.read (fun _ _ _ _ => written_eq) fun d₁ existing => ?_
  show Keeps c (if _ then _ else _) d₁ []
  split
  · exact Keeps.raise
  · refine Keeps.ask fun d₂ a updated new hhandle => ?_
    have hrow : updateRow d₂ id fields.lockVersion _ = (updated, new) := Option.some.inj hhandle
    refine keeps_updateRow ?_ hrow
    exact fun _ => rfl

theorem keeps_setStatus {status : DepartmentStatus} : Keeps c (setStatus id status lockVersion) d [] := by
  refine Keeps.ask fun d₁ a updated new hhandle => ?_
  have hrow : updateRow d₁ id lockVersion _ = (updated, new) := Option.some.inj hhandle
  refine keeps_updateRow ?_ hrow
  exact fun _ => rfl

theorem keeps_delete : Keeps c (delete id) d [] := by
  refine Keeps.read (fun _ _ _ _ => written_eq) fun d₁ existing => ?_
  refine Keeps.lift fun old _ => ?_
  split
  · exact Keeps.raise
  · refine Keeps.read (fun _ _ _ _ => written_eq) fun d₂ childrenCount => ?_
    show Keeps c (if _ then _ else _) d₂ []
    split
    · exact Keeps.raise
    · refine Keeps.read (fun _ _ _ _ => written_eq) fun d₃ equipmentCount => ?_
      show Keeps c (if _ then _ else _) d₃ []
      split
      · exact Keeps.raise
      · refine Keeps.ask fun d₄ a deleted new hhandle => ?_
        refine Keeps.lift fun gone hgone => ?_
        subst hgone
        split
        · next hgone =>
            subst hgone
            refine Keeps.ret ?_
            have hrow := Option.some.inj hhandle
            unfold deleteRow at hrow
            split at hrow
            · cases hrow
            · next row hfound =>
                split at hrow
                · cases hrow
                · next hplain =>
                    split at hrow
                    · cases hrow
                    · next hfree =>
                        obtain ⟨-, rfl⟩ := Prod.mk.inj hrow
                        refine .delete hfound (by simpa using hplain) fun k r hr hparent => ?_
                        have hnone : children d₄ id = [] := by
                          rw [Bool.or_eq_true, not_or] at hfree
                          simpa using hfree.2
                        have hmem : k ∈ children d₄ id := Dict.mem_keysWhere.mpr ⟨r, hr, by simpa using hparent⟩
                        rw [hnone] at hmem
                        cases hmem
        · exact Keeps.raise

/-- **Every call is in order.** -/
theorem keeps_prog (c : Call) (d : Database) : Keeps c (prog c) d [] := by
  cases c with
  | create code displayName description sortOrder parentId => exact keeps_create
  | update id fields => exact keeps_update
  | setStatus id status lockVersion => exact keeps_setStatus
  | delete id => exact keeps_delete

end Programs

/-! ## Systems -/

/-- Every call in flight is in order. -/
abbrev Sound (p : Sys) : Prop := Server.Sound engine Holds Ready p

theorem sound_step {p p' : Sys} {act : Step} (hp : Sound p) (h : step p act = some p') : Sound p' :=
  hp.step_of_commits conflict_comm Holds.refl (fun ws _ _ _ => Holds.trans ws)
    (fun _ _ _ _ _ hready hapart => Committed.holds_view hready hapart) keeps_prog h

/-- **What a commit finds.** -/
theorem committed_of_commit {p p' : Sys} {i : Nat} (hp : Sound p) (h : step p (.commit i) = some p') :
    ∃ c ws v, p.sessions[i]? = some ⟨c, ws, some (.ret v)⟩ ∧ Committed p.committed ws ∧
      p'.committed = engine.view ws p.committed :=
  hp.commit Holds.refl h

end Irip.Departments
