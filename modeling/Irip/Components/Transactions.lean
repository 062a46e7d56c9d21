import Irip.Components.Registry

/-!
# `Components.Transactions` — what a call of the registry relies on, and what it has written when it commits

`Holds` is what a transaction can rely on while others commit; `Ended`, what it has written at its end.
-/

namespace Irip.Components

open Server Choice

/-! ## Rely -/

/-- There was such a component, and there will be none again. -/
def Database.Barred (d : Database) (id : Uuid) : Prop := id ∈ d.retired ∧ d.components.get? id = none

/-- Nothing is of the component. -/
def Database.Bare (d : Database) (id : Uuid) : Prop := ∀ vid v, d.versions.get? vid = some v → v.componentId ≠ id

variable {id : Uuid} {manifest : ComponentManifest}

theorem bare_iff {d : Database} : d.versionsOf id = [] ↔ d.Bare id := by
  unfold Database.versionsOf
  rw [List.filter_eq_nil_iff]
  constructor
  · intro h vid v hv
    simpa using h (vid, v) (Dict.get?_eq_some_iff.mp hv)
  · rintro h ⟨vid, v⟩ hmem
    simpa using h vid v (Dict.get?_eq_some_iff.mpr hmem)

/-- What a transaction that has written `ws` can rely on: nobody else touches a component it has written, takes the id or
the number of a version it has inserted, adds a version to a component it has inserted, or removes a component it
refers to; and a component that is removed stays so. -/
structure Holds (ws : List Write) (d d' : Database) : Prop where
  row : ∀ w ∈ ws, ∀ id, w.component = some id →
    d'.components.get? id = d.components.get? id ∧ (id ∈ d'.retired → id ∈ d.retired)
  version : ∀ w ∈ ws, ∀ id, w.version = some id → d.versions.get? id = none → d'.versions.get? id = none
  claims : ∀ w ∈ ws, ∀ k, w.claims = some k → ∀ id v, d'.versions.get? id = some v →
    (v.componentId, v.version) = k → d.versions.get? id = some v
  bare : ∀ w ∈ ws, ∀ id, w.settles = some id → d.Bare id → d'.Bare id
  refers : ∀ w ∈ ws, ∀ id, w.refers = some id → (d.components.get? id).isSome = true →
    (d'.components.get? id).isSome = true
  barred : ∀ id, d.Barred id → d'.Barred id
  stays : ∀ id, (d.components.get? id).isSome = true → (d'.components.get? id).isSome = true ∨ d'.Barred id

theorem Holds.refl (ws : List Write) (d : Database) : Holds ws d d :=
  ⟨fun _ _ _ _ => ⟨rfl, id⟩, fun _ _ _ _ h => h, fun _ _ _ _ _ _ h _ => h, fun _ _ _ _ h => h, fun _ _ _ _ h => h,
    fun _ h => h, fun _ h => .inl h⟩

theorem Holds.trans (ws : List Write) {d d' d'' : Database} (h : Holds ws d d') (h' : Holds ws d' d'') :
    Holds ws d d'' where
  row w hw id hid :=
    ⟨(h'.row w hw id hid).1.trans (h.row w hw id hid).1, fun hr => (h.row w hw id hid).2 ((h'.row w hw id hid).2 hr)⟩
  version w hw id hid hnone := h'.version w hw id hid (h.version w hw id hid hnone)
  claims w hw k hk id v hv heq := h.claims w hw k hk id v (h'.claims w hw k hk id v hv heq) heq
  bare w hw id hid hbare := h'.bare w hw id hid (h.bare w hw id hid hbare)
  refers w hw id hid hsome := h'.refers w hw id hid (h.refers w hw id hid hsome)
  barred id hbarred := h'.barred id (h.barred id hbarred)
  stays id hsome := by
    rcases h.stays id hsome with hsome' | hbarred
    · exact h'.stays id hsome'
    · exact .inr (h'.barred id hbarred)

theorem Holds.known {ws : List Write} {d d' : Database} (h : Holds ws d d')
    (hd : (d.components.get? id).isSome = true ∨ d.Barred id) :
    (d'.components.get? id).isSome = true ∨ d'.Barred id := by
  rcases hd with hsome | hbarred
  · exact h.stays id hsome
  · exact .inr (h.barred id hbarred)

theorem both_comm {α : Type} [DecidableEq α] (x y : Option α) : both x y = both y x := by
  unfold both
  rw [Bool.eq_iff_iff, Bool.and_eq_true, Bool.and_eq_true, decide_eq_true_eq, decide_eq_true_eq]
  constructor
  · rintro ⟨hsome, heq⟩
    exact ⟨heq ▸ hsome, heq.symm⟩
  · rintro ⟨hsome, heq⟩
    exact ⟨heq ▸ hsome, heq.symm⟩

theorem conflict_comm (w w' : Write) : conflict w w' = conflict w' w := by
  unfold conflict
  rw [both_comm w.component, both_comm w.version, both_comm w.claims, Bool.or_right_comm]

theorem ne_of_both {α : Type} [DecidableEq α] {x y : Option α} (h : both x y = false) (a : α) (hy : y = some a) :
    x ≠ some a := by
  rintro rfl
  subst hy
  simp [both] at h

/-- Two writes that do not exclude each other. -/
structure Free (w w' : Write) : Prop where
  component : ∀ id, w'.component = some id → w.component ≠ some id
  version : ∀ id, w'.version = some id → w.version ≠ some id
  claims : ∀ k, w'.claims = some k → w.claims ≠ some k
  settles : ∀ id, w'.refers = some id → w.settles ≠ some id
  refers : ∀ id, w'.settles = some id → w.refers ≠ some id

theorem free_of_not_conflict {w w' : Write} (h : conflict w w' = false) : Free w w' := by
  unfold conflict at h
  rw [Bool.or_eq_false_iff, Bool.or_eq_false_iff, Bool.or_eq_false_iff, Bool.or_eq_false_iff] at h
  obtain ⟨⟨⟨⟨hcomponent, hversion⟩, hclaims⟩, hrefers⟩, hrefers'⟩ := h
  constructor
  · exact ne_of_both hcomponent
  · exact ne_of_both hversion
  · exact ne_of_both hclaims
  · intro id hid
    rw [both_comm] at hrefers'
    exact ne_of_both hrefers' id hid
  · exact ne_of_both hrefers

/-! What one write leaves. -/

section Writes

variable {w : Write} {d : Database}

variable {id : Uuid}

theorem components_apply (h : w.component ≠ some id) : (w.apply d).components.get? id = d.components.get? id := by
  cases w with
  | insertComponent id' row | updateComponent id' change | clearActive id' | deleteComponent id' =>
    have hne : ¬ id = id' := fun heq => h (by rw [heq]; rfl)
    simp [Write.apply, hne]
  | insertVersion => rfl
  | deleteVersions => rfl

theorem retired_apply (h : w.component ≠ some id) : id ∈ (w.apply d).retired ↔ id ∈ d.retired := by
  cases w with
  | deleteComponent id' =>
    have hne : ¬ id = id' := fun heq => h (by rw [heq]; rfl)
    simp [Write.apply, hne]
  | _ => rfl

theorem versions_apply {v : ComponentVersion} (h : (w.apply d).versions.get? id = some v) :
    w = .insertVersion id v ∨ d.versions.get? id = some v := by
  cases w with
  | insertVersion id' row =>
    have hget : (d.versions.set id' row).get? id = some v := h
    rw [Dict.get?_set] at hget
    split at hget
    · next heq =>
        obtain rfl := Option.some.inj hget
        rw [heq]
        exact .inl rfl
    · exact .inr hget
  | deleteComponent id' | deleteVersions id' =>
    have hget : (d.versions.eraseWhere (fun v => v.componentId = id')).get? id = some v := h
    rw [Dict.get?_eraseWhere, Option.filter_eq_some_iff] at hget
    exact .inr hget.1
  | insertComponent | updateComponent | clearActive => exact .inr h

theorem stays_apply (h : (d.components.get? id).isSome = true) :
    ((w.apply d).components.get? id).isSome = true ∨ (w = .deleteComponent id ∧ (w.apply d).Barred id) := by
  by_cases hcomponent : w.component = some id
  · cases w with
    | insertComponent id' row =>
      obtain rfl := Option.some.inj hcomponent
      exact .inl (by simp [Write.apply])
    | updateComponent id' change | clearActive id' =>
      obtain rfl := Option.some.inj hcomponent
      exact .inl (by simpa [Write.apply] using h)
    | deleteComponent id' =>
      obtain rfl := Option.some.inj hcomponent
      exact .inr ⟨rfl, List.mem_cons_self, by simp [Write.apply]⟩
    | insertVersion | deleteVersions => cases hcomponent
  · rw [components_apply hcomponent]
    exact .inl h

theorem barred_apply (hinsert : ∀ row, w ≠ .insertComponent id row) (h : d.Barred id) : (w.apply d).Barred id := by
  obtain ⟨hretired, hnone⟩ := h
  by_cases hcomponent : w.component = some id
  · cases w with
    | insertComponent id' row =>
      obtain rfl := Option.some.inj hcomponent
      exact absurd rfl (hinsert row)
    | updateComponent id' change | clearActive id' =>
      obtain rfl := Option.some.inj hcomponent
      exact ⟨hretired, by simp [Write.apply, hnone]⟩
    | deleteComponent id' =>
      obtain rfl := Option.some.inj hcomponent
      exact ⟨List.mem_cons_self, by simp [Write.apply]⟩
    | insertVersion | deleteVersions => cases hcomponent
  · exact ⟨(retired_apply hcomponent).mpr hretired, (components_apply hcomponent).trans hnone⟩

end Writes

/-- What another transaction writes is within what this one relies on, as long as it inserts no component that was
removed. -/
theorem holds_apply {w : Write} {ws : List Write} {d : Database}
    (hinsert : ∀ id row, w = .insertComponent id row → id ∉ d.retired) (h : ∀ w' ∈ ws, conflict w w' = false) :
    Holds ws d (w.apply d) := by
  have hfree : ∀ w' ∈ ws, Free w w' := fun w' hw' => free_of_not_conflict (h w' hw')
  constructor
  · intro w' hw' id hid
    have hne := (hfree w' hw').component id hid
    exact ⟨components_apply hne, (retired_apply hne).mp⟩
  · intro w' hw' id hid hnone
    cases hget : (w.apply d).versions.get? id with
    | none => rfl
    | some v =>
      rcases versions_apply hget with rfl | hold
      · exact absurd rfl ((hfree w' hw').version id hid)
      · rw [hnone] at hold
        cases hold
  · intro w' hw' k hk id v hv heq
    rcases versions_apply hv with rfl | hold
    · exact absurd (congrArg some heq) ((hfree w' hw').claims k hk)
    · exact hold
  · intro w' hw' id hid hbare vid v hv heq
    rcases versions_apply hv with rfl | hold
    · exact absurd (congrArg some heq) ((hfree w' hw').refers id hid)
    · exact hbare vid v hold heq
  · intro w' hw' id hid hsome
    rcases stays_apply (w := w) hsome with hstays | ⟨rfl, -⟩
    · exact hstays
    · exact absurd rfl ((hfree w' hw').settles id hid)
  · intro id hbarred
    refine barred_apply (fun row heq => ?_) hbarred
    exact hinsert id row heq hbarred.1
  · intro id hsome
    rcases stays_apply (w := w) hsome with hstays | ⟨-, hbarred⟩
    · exact .inl hstays
    · exact .inr hbarred

theorem holds_view {ws ws' : List Write} (hinsert : ∀ w ∈ ws, ∀ id row, w ≠ .insertComponent id row)
    (hapart : engine.Apart ws ws') (d : Database) : Holds ws' d (engine.view ws d) := by
  induction ws generalizing d with
  | nil => exact Holds.refl ws' d
  | cons w ws ih =>
    have hhead : Holds ws' d (w.apply d) :=
      holds_apply (fun id row heq => absurd heq (hinsert w List.mem_cons_self id row)) (hapart w List.mem_cons_self)
    exact hhead.trans ws' (ih (fun u hu => hinsert u (List.mem_cons_of_mem _ hu))
      (fun u hu => hapart u (List.mem_cons_of_mem _ hu)) (w.apply d))

/-! ## Postcondition -/

/-- A version as `publish` makes it, for a component of that name. -/
structure Published (manifest : ComponentManifest) (name : String) (id : Uuid) (row : ComponentVersion) : Prop where
  componentId : row.componentId = id
  manifestYaml : row.manifestYaml = updatedYaml name manifest.rawYaml
  manifestSha256 : row.manifestSha256 = manifest.sha256
  status : row.status = "published"

/-- The constraints of the tables admit the version. -/
structure Fits (d : Database) (id : Uuid) (row : ComponentVersion) : Prop where
  new : d.versions.get? id = none
  found : (d.components.get? row.componentId).isSome = true
  free : ∀ u v, d.versions.get? u = some v → v.componentId = row.componentId → v.version ≠ row.version

theorem admits_iff {d : Database} {row : ComponentVersion} : admits d id row = true ↔ Fits d id row := by
  unfold admits
  rw [Bool.and_eq_true, Bool.and_eq_true, Option.isNone_iff_eq_none, Bool.not_eq_true', Dict.anyRow_eq_false_iff]
  constructor
  · rintro ⟨⟨hfound, hnew⟩, hfree⟩
    refine ⟨hnew, hfound, fun u v hv hid hversion => ?_⟩
    have hne := hfree u v hv
    simp [hid, hversion] at hne
  · rintro ⟨hnew, hfound, hfree⟩
    refine ⟨⟨hfound, hnew⟩, fun u v hv => ?_⟩
    have hne := hfree u v hv
    simpa using hne

/-- What a call has written when it ends, and what it returns. -/
inductive Ended (d : Database) : Call → Reply → List Write → Prop where
  | created {manifest : ComponentManifest} {id vid : Uuid} {code : String} {row : ComponentVersion} {change : Change}
      (unused : id ∉ d.retired) (new : d.components.get? id = none) (bare : d.Bare id)
      (newVersion : d.versions.get? vid = none) (published : Published manifest code id row)
      (points : change.activeVersionId = some vid) :
      Ended d (.publish manifest) (.version id vid)
        [.insertComponent id { name := code, kind := manifest.kind }, .insertVersion vid row, .updateComponent id change]
  | released {manifest : ComponentManifest} {id vid : Uuid} {row : ComponentVersion} {change : Change}
      (fits : Fits d vid row) (published : Published manifest manifest.name id row)
      (points : change.activeVersionId = some vid) :
      Ended d (.publish manifest) (.version id vid) [.insertVersion vid row, .updateComponent id change]
  | kept {manifest : ComponentManifest} {id vid : Uuid} : Ended d (.publish manifest) (.version id vid) []
  | activated {id vid : Uuid} {change : Change} (points : ∀ u ∈ change.activeVersionId, u = vid) :
      Ended d (.activateVersion vid) (.version id vid) [.updateComponent id change]
  | unseen {id vid : Uuid} : Ended d (.activateVersion vid) (.version id vid) []
  | deprecated {name : String} {id : Uuid} {change : Change} (points : change.activeVersionId = none) :
      Ended d (.deprecateComponent name) (.component id) [.updateComponent id change]
  | restored {name : String} {id : Uuid} {change : Change} (points : change.activeVersionId = none) :
      Ended d (.restoreComponent name) (.component id) [.updateComponent id change]
  | removed {id : Uuid} {ws : List Write} (cleared : ws = [] ∨ ws = [.clearActive id]) :
      Ended d (.deleteComponent id) .done (ws ++ [.deleteVersions id, .deleteComponent id])
  | swept {id : Uuid} (barred : d.Barred id) : Ended d (.deleteComponent id) .done [.deleteVersions id]

variable {d d' : Database} {ws : List Write} {c : Call} {v : Reply}

theorem Fits.holds {vid : Uuid} {row : ComponentVersion} (h : Fits d vid row) (hmem : .insertVersion vid row ∈ ws)
    (hd : Holds ws d d') : Fits d' vid row where
  new := hd.version _ hmem _ rfl h.new
  found := hd.refers _ hmem _ rfl h.found
  free := by
    intro u v hv hid hversion
    have hold := hd.claims _ hmem _ rfl u v hv (by rw [hid, hversion])
    exact h.free u v hold hid hversion

theorem Ended.holds (h : Ended d c v ws) (hd : Holds ws d d') : Ended d' c v ws := by
  cases h with
  | created unused new bare newVersion published points =>
    have hrow := hd.row _ List.mem_cons_self _ rfl
    refine .created (fun hretired => unused (hrow.2 hretired)) (hrow.1.trans new) ?_ ?_ published points
    · exact hd.bare _ List.mem_cons_self _ rfl bare
    · exact hd.version _ (List.mem_cons_of_mem _ List.mem_cons_self) _ rfl newVersion
  | released fits published points => exact .released (fits.holds List.mem_cons_self hd) published points
  | kept => exact .kept
  | activated points => exact .activated points
  | unseen => exact .unseen
  | deprecated points => exact .deprecated points
  | restored points => exact .restored points
  | removed cleared => exact .removed cleared
  | swept barred => exact .swept (hd.barred _ barred)

theorem Ended.holds_view (h : Ended d c v ws) {ws' : List Write} (hapart : engine.Apart ws ws') :
    Holds ws' d (engine.view ws d) := by
  cases h with
  | @created manifest id vid code row change unused =>
    have hhead : Holds ws' d (Write.apply (.insertComponent id { name := code, kind := manifest.kind }) d) := by
      refine holds_apply (fun id' row' heq => ?_) (hapart _ List.mem_cons_self)
      obtain ⟨rfl, -⟩ := Write.insertComponent.inj heq
      exact unused
    have htail : ∀ w ∈ [Write.insertVersion vid row, .updateComponent id change], ∀ id' row',
        w ≠ .insertComponent id' row' := by simp
    exact hhead.trans ws' (Components.holds_view htail (fun w hw => hapart w (List.mem_cons_of_mem _ hw)) _)
  | @removed id ws cleared =>
    refine Components.holds_view ?_ hapart d
    rcases cleared with rfl | rfl
    · simp
    · simp
  | released | kept | activated | unseen | deprecated | restored | swept =>
      exact Components.holds_view (by simp) hapart d

/-! ## Programs -/

/-- The postcondition of a call. -/
def Ready (c : Call) : Except Exn Reply → Database × List Write → Prop
  | .ok v, x => Ended x.1 c v x.2
  | .error _, _ => True

/-- The programs of the registry, under what a transaction relies on. -/
abbrev Keeps (c : Call) (q : M Reply) (d : Database) (ws : List Write) : Prop := InOrder engine Holds Ready c q d ws

theorem ready_error (e : Exn) (y : Database × List Write) : Ready c (.error e) y := trivial

theorem Keeps.ret (h : Ended d c v ws) : Keeps c (.ret v) d ws := InOrder.ret fun _ hd => h.holds hd

theorem Keeps.raise {e : Exn} : Keeps c (.raise e) d ws := InOrder.raise ready_error

theorem Keeps.lift {α : Type} {x : Except Exn α} {f : α → M Reply} (h : ∀ a, x = .ok a → Keeps c (f a) d ws) :
    Keeps c (Prog.lift x >>= f) d ws := InOrder.lift ready_error h

theorem Keeps.read {o : Op} {k : Res o → M Reply} (hread : ∀ a d r new, handle o a d = some (r, new) → new = [])
    (h : ∀ d', Holds ws d d' → ∀ a r, handle o a (engine.view ws d') = some (r, []) → Keeps c (k r) d' ws) :
    Keeps c (.op o k) d ws := InOrder.read hread h

theorem Keeps.updateComponent {change : Change}
    (h : ∀ d', Holds ws d d' → Ended d' c v (ws ++ [.updateComponent id change])) :
    Keeps c (ask (.updateComponent id change) >>= fun updated => Prog.lift updated >>= fun _ => return v) d ws := by
  refine InOrder.op fun d' hd a updated new hhandle => Keeps.lift fun _ hok => ?_
  subst hok
  simp only [engine, handle] at hhandle
  split at hhandle
  · cases hhandle
  · split at hhandle
    · obtain ⟨-, rfl⟩ := answer_inj hhandle
      exact Keeps.ret (h d' hd)
    · cases hhandle

theorem keeps_insertPublished {now : Time} {component : Component} {autoVersion : String}
    (h : ∀ d₁ d₂ vid row change, Holds ws d d₁ → Fits (engine.view ws d₁) vid row →
      Holds (ws ++ [.insertVersion vid row]) d₁ d₂ → Published manifest component.name id row →
      change.activeVersionId = some vid →
      Ended d₂ c (.version id vid) (ws ++ [.insertVersion vid row] ++ [.updateComponent id change])) :
    Keeps c (insertPublished manifest now id component autoVersion) d ws := by
  refine Keeps.read (fun _ _ _ _ => written_eq) fun d₁ hd₁ _ vid _ => ?_
  refine InOrder.op fun d₂ hd₂ a inserted new hhandle => Keeps.lift fun _ hok => ?_
  subst hok
  simp only [engine, handle] at hhandle
  split at hhandle
  · next hadmits =>
      obtain ⟨-, rfl⟩ := answer_inj hhandle
      refine Keeps.updateComponent fun d₃ hd₃ => ?_
      exact h d₂ d₃ vid _ _ (hd₁.trans ws hd₂) (admits_iff.mp hadmits) hd₃ ⟨rfl, rfl, rfl, rfl⟩ rfl
  · cases hhandle

theorem keeps_publishedComponent {f : Uuid × Component → M Reply}
    (hcreated : ∀ d' id code, id ∉ d'.retired → d'.components.get? id = none → d'.Bare id →
      Keeps c (f (id, { name := code, kind := manifest.kind })) d'
        [.insertComponent id { name := code, kind := manifest.kind }])
    (hfound : ∀ d' id component, component.name = manifest.name → Keeps c (f (id, component)) d' []) :
    Keeps c (publishedComponent manifest >>= f) d [] := by
  have hcreate : ∀ d, Keeps c ((do
      let code ← ask .genCode
      let id ← ask .newId
      let inserted ← ask (.insertComponent id { name := code, kind := manifest.kind })
      let _ ← Prog.lift inserted
      return (id, { name := code, kind := manifest.kind })) >>= f) d [] := by
    intro d
    refine Keeps.read (fun a d r new hr => ?_) fun d₁ _ a code _ => ?_
    · simp only [handle] at hr
      split at hr
      · exact (answer_inj hr).2.symm
      · cases hr
    · refine Keeps.read (fun _ _ _ _ => written_eq) fun d₂ _ _ id _ => ?_
      refine InOrder.op fun d₃ _ a inserted new hhandle => ?_
      cases inserted with
      | error e => exact Keeps.raise
      | ok _ =>
        simp only [engine, handle] at hhandle
        split at hhandle
        · next hnew =>
            obtain ⟨-, rfl⟩ := answer_inj hhandle
            simp only [Engine.view_nil, Bool.and_eq_true, Option.isNone_iff_eq_none, List.isEmpty_iff] at hnew
            exact hcreated d₃ id code (of_decide_eq_true hnew.1.2) hnew.1.1 (bare_iff.mp hnew.2)
        · cases hhandle
  unfold publishedComponent findComponent
  split
  · exact hcreate d
  · refine Keeps.read (fun _ _ _ _ => written_eq) fun d₁ _ a found hhandle => ?_
    obtain ⟨rfl, -⟩ := answer_inj hhandle
    cases hpick : pick a.row ((engine.view [] d₁).components.entries.filter
        (fun e => e.2.name = manifest.name && e.1 ∉ a.hidden)) with
    | none => exact hcreate d₁
    | some e =>
      obtain ⟨id, component⟩ := e
      have hname := (List.mem_filter.mp (mem_of_pick hpick)).2
      rw [Bool.and_eq_true, decide_eq_true_eq] at hname
      show Keeps c ((if component.kind ≠ manifest.kind then _ else _) >>= f) d₁ []
      split
      · exact Keeps.raise
      · exact hfound d₁ id component hname.1

theorem keeps_publish : Keeps (.publish manifest) (publish manifest) d [] := by
  refine Keeps.read (fun _ _ _ _ => written_eq) fun d₀ _ _ now _ => ?_
  refine keeps_publishedComponent (fun d₁ id code hunused hnew hbare => ?_) fun d₁ id component hname => ?_
  · -- a new component has no version yet
    refine Keeps.read (fun _ _ _ _ => written_eq) fun d₂ hd₂ a latestVersion hlatest => ?_
    have hbare₂ : d₂.versionsOf id = [] := bare_iff.mpr (hd₂.bare _ List.mem_cons_self _ rfl hbare)
    obtain ⟨rfl, -⟩ := answer_inj hlatest
    have hnone : pick a.row (latest (fun e => e.2.createdAt) (Database.versionsOf
        (engine.view [.insertComponent id { name := code, kind := manifest.kind }] d₂) id)) = none := by
      show pick a.row (latest (fun e => e.2.createdAt) (d₂.versionsOf id)) = none
      rw [hbare₂]
      rfl
    rw [hnone]
    refine Keeps.lift fun autoVersion _ => ?_
    refine Keeps.read (fun _ _ _ _ => written_eq) fun d₃ hd₃ a' existing hexisting => ?_
    have hbare₃ : d₃.versionsOf id = [] := bare_iff.mpr (hd₃.bare _ List.mem_cons_self _ rfl (bare_iff.mp hbare₂))
    obtain ⟨rfl, -⟩ := answer_inj hexisting
    have hnone' : pick a'.row ((Database.versionsOf (engine.view
        [.insertComponent id { name := code, kind := manifest.kind }] d₃) id).filter
          (fun e => e.2.version = autoVersion)) = none := by
      show pick a'.row ((d₃.versionsOf id).filter (fun e => e.2.version = autoVersion)) = none
      rw [hbare₃]
      rfl
    rw [hnone']
    refine keeps_insertPublished fun d₄ d₅ vid row change hd₄ hfits hd₅ hpublished hpoints => ?_
    have hd₁₄ := (hd₂.trans _ hd₃).trans _ hd₄
    have hrow := hd₁₄.row _ List.mem_cons_self _ rfl
    have hrow' := hd₅.row _ List.mem_cons_self _ rfl
    have hbare₄ : d₄.Bare id := hd₁₄.bare _ List.mem_cons_self _ rfl hbare
    refine .created (fun hretired => hunused (hrow.2 (hrow'.2 hretired))) ?_ ?_ ?_ hpublished hpoints
    · exact (hrow'.1.trans hrow.1).trans hnew
    · exact hd₅.bare _ List.mem_cons_self _ rfl hbare₄
    · exact hd₅.version _ (List.mem_cons_of_mem _ List.mem_cons_self) _ rfl hfits.new
  · refine Keeps.read (fun _ _ _ _ => written_eq) fun d₂ _ _ latestVersion _ => ?_
    refine Keeps.lift fun autoVersion _ => ?_
    refine Keeps.read (fun _ _ _ _ => written_eq) fun d₃ _ _ existing _ => ?_
    have hinsert : ∀ autoVersion d, Keeps (.publish manifest) (insertPublished manifest now id component autoVersion) d [] := by
      intro autoVersion d
      refine keeps_insertPublished fun d₄ d₅ vid row change _ hfits hd₅ hpublished hpoints => ?_
      exact .released (hfits.holds (List.mem_singleton_self _) hd₅) (hname ▸ hpublished) hpoints
    cases existing with
    | none => exact hinsert autoVersion d₃
    | some found =>
      obtain ⟨versionId, row⟩ := found
      show Keeps _ (if row.manifestSha256 = manifest.sha256 then _ else _) d₃ []
      split
      · exact Keeps.ret .kept
      · exact Keeps.lift fun autoVersion' _ => hinsert autoVersion' d₃

theorem keeps_activateVersion {versionId : Uuid} :
    Keeps (.activateVersion versionId) (activateVersion versionId) d [] := by
  refine Keeps.read (fun _ _ _ _ => written_eq) fun d₁ _ _ version _ => ?_
  cases version with
  | none => exact Keeps.raise
  | some v =>
    refine Keeps.read (fun _ _ _ _ => written_eq) fun d₂ _ _ component _ => ?_
    cases component with
    | none => exact Keeps.ret .unseen
    | some row =>
      refine Keeps.updateComponent fun d₃ _ => .activated fun u hu => ?_
      simp only [Option.mem_def] at hu
      split at hu
      · cases hu
      · exact (Option.some.inj hu).symm

theorem keeps_setStatus {name status : String}
    (h : ∀ d id change, change.activeVersionId = none → Ended d c (.component id) [.updateComponent id change]) :
    Keeps c (setStatus name status) d [] := by
  refine Keeps.read (fun _ _ _ _ => written_eq) fun d₁ _ _ component _ => ?_
  cases component with
  | none => exact Keeps.raise
  | some found => exact Keeps.updateComponent fun d₂ _ => h d₂ found.1 _ rfl

theorem keeps_deleteComponent {componentId : Uuid} :
    Keeps (.deleteComponent componentId) (deleteComponent componentId) d [] := by
  refine Keeps.read (fun _ _ _ _ => written_eq) fun d₁ _ a component hcomponent => ?_
  obtain ⟨rfl, -⟩ := answer_inj hcomponent
  -- the component was there, so that from now on it is there or removed for good
  have hknown : ∀ c : Component, (if componentId ∈ a.hidden then none else
      (engine.view [] d₁).components.get? componentId) = some c → (d₁.components.get? componentId).isSome = true := by
    intro c hc
    split at hc
    · cases hc
    · exact Option.isSome_of_eq_some hc
  cases hfound : (if componentId ∈ a.hidden then none else (engine.view [] d₁).components.get? componentId) with
  | none => exact Keeps.raise
  | some row =>
    have hthere := hknown row hfound
    -- what follows the first UPDATE, which may have found nothing to clear
    have hrest : ∀ (ws : List Write) (d₂ : Database) (_ : Holds [] d₁ d₂)
        (_ : ws = [] ∨ ws = [.clearActive componentId] ∧ (d₂.components.get? componentId).isSome = true), Keeps (.deleteComponent componentId) (do
          let deleted ← ask (.deleteVersions componentId)
          let _ ← Prog.lift deleted
          let _ ← ask (.deleteComponent componentId)
          return .done) d₂ ws := by
      intro ws d₂ hd₂ hws
      refine InOrder.op fun d₃ hd₃ a₃ deleted new hhandle => Keeps.lift fun _ hok => ?_
      subst hok
      simp only [engine, handle] at hhandle
      split at hhandle
      · cases hhandle
      · obtain ⟨-, rfl⟩ := answer_inj hhandle
        refine InOrder.op fun d₄ hd₄ a₄ _ new hhandle => ?_
        obtain ⟨-, rfl⟩ := answer_inj hhandle
        cases hlast : ((engine.view (ws ++ [.deleteVersions componentId]) d₄).components.get? componentId).isSome with
        | true =>
          rw [if_pos rfl, List.append_assoc]
          exact Keeps.ret (.removed (hws.imp_right And.left))
        | false =>
          rw [if_neg Bool.false_ne_true, List.append_nil]
          rcases hws with rfl | ⟨rfl, hlocked⟩
          · refine Keeps.ret (.swept ?_)
            rcases hd₄.known (hd₃.known (hd₂.known (.inl hthere))) with hsome | hbarred
            · exact absurd hsome (by rw [show (d₄.components.get? componentId).isSome = false from hlast]; decide)
            · exact hbarred
          · -- the row that was cleared is locked, and cannot have gone
            have hrow₃ := (hd₃.row _ List.mem_cons_self _ rfl).1
            have hrow₄ := (hd₄.row _ List.mem_cons_self _ rfl).1
            rw [show (engine.view ([.clearActive componentId] ++ [.deleteVersions componentId]) d₄).components.get?
              componentId = ((d₄.components.modify componentId _).get? componentId) from rfl, Dict.get?_modify,
              if_pos rfl, Option.isSome_map, hrow₄, hrow₃, hlocked] at hlast
            cases hlast
    refine InOrder.op fun d₂ hd₂ a₂ _ new hhandle => ?_
    obtain ⟨-, rfl⟩ := answer_inj hhandle
    split
    · next hactive =>
        refine hrest _ d₂ hd₂ (.inr ⟨rfl, ?_⟩)
        obtain ⟨v, hv⟩ := Option.isSome_iff_exists.mp hactive
        obtain ⟨row₂, hrow₂, -⟩ := Option.bind_eq_some_iff.mp hv
        exact Option.isSome_of_eq_some hrow₂
    · exact hrest _ d₂ hd₂ (.inl rfl)

/-- **Every call is in order.** -/
theorem keeps_prog (c : Call) (d : Database) : Keeps c (prog c) d [] := by
  cases c with
  | publish manifest => exact keeps_publish
  | activateVersion versionId => exact keeps_activateVersion
  | deprecateComponent name => exact keeps_setStatus fun d id change hpoints => .deprecated hpoints
  | restoreComponent name => exact keeps_setStatus fun d id change hpoints => .restored hpoints
  | deleteComponent componentId => exact keeps_deleteComponent

/-! ## Systems -/

/-- What can happen next. -/
abbrev Step := Server.Action Call Answer

/-- The registry with the calls that were made, each in its transaction. -/
abbrev Sys := Server Call Write Op Res Exn Reply Database

/-- The step function. -/
abbrev step (p : Sys) (act : Step) : Option Sys := Server.step engine prog p act

/-- Every call in flight is in order. -/
abbrev Sound (p : Sys) : Prop := Server.Sound engine Holds Ready p

theorem sound_start (d : Database) : Sound ⟨d, []⟩ where
  inOrder i s hs := by cases hs
  apart i j s t _ hs := by cases hs

theorem sound_step {p p' : Sys} {act : Step} (hp : Sound p) (h : step p act = some p') : Sound p' :=
  hp.step_of_commits conflict_comm Holds.refl (fun ws _ _ _ => Holds.trans ws)
    (fun _ _ _ _ _ hended hapart => hended.holds_view hapart) keeps_prog h

/-- **What a commit finds.** -/
theorem ended_of_commit {p p' : Sys} {i : Nat} (hp : Sound p) (h : step p (.commit i) = some p') :
    ∃ c ws v, p.sessions[i]? = some ⟨c, ws, some (.ret v)⟩ ∧ Ended p.committed c v ws ∧
      p'.committed = engine.view ws p.committed := hp.commit Holds.refl h

end Irip.Components
