import Irip.Conclusions.Service

/-!
# `Conclusions.Sessions` — what a transaction of the conclusion service relies on and commits

Any number of calls run at once, statement by statement, each in its transaction. A transaction that has written a
row keeps it to itself until it ends; whoever adds a revision has written the row of its conclusion first.
-/

namespace Irip.Conclusions

/-! ## Views -/

section Views

variable (ws : List Write) (d : Database) (id : Uuid)

theorem turn?_view : (engine.view ws d).turn? id = ws.foldl (fun t w => w.onTurn id t) (d.turn? id) :=
  engine.observe_view (f := (·.turn? id)) (fun w d => turn?_apply w d id) ws d

theorem candidate?_view :
    (engine.view ws d).candidate? id = ws.foldl (fun c w => w.onCandidate id c) (d.candidate? id) :=
  engine.observe_view (f := (·.candidate? id)) (fun w d => candidate?_apply w d id) ws d

theorem conclusion?_view :
    (engine.view ws d).conclusion? id = ws.foldl (fun c w => w.onConclusion id c) (d.conclusion? id) :=
  engine.observe_view (f := (·.conclusion? id)) (fun w d => conclusion?_apply w d id) ws d

theorem revisionsOf_view :
    (engine.view ws d).revisionsOf id = d.revisionsOf id ++ ws.flatMap (Write.revisionFor id) :=
  engine.view_append (f := (·.revisionsOf id)) (fun w d => revisionsOf_apply w d id) ws d

theorem savedFrom_view : (engine.view ws d).savedFrom id = d.savedFrom id ++ ws.flatMap (Write.savedFor id) :=
  engine.view_append (f := (·.savedFrom id)) (fun w d => savedFrom_apply w d id) ws d

end Views

variable {id : Uuid} {ws : List Write}

theorem Database.candidate?_id {d : Database} {c : ResearchConclusionCandidate}
    (h : d.candidate? id = some c) : c.id = id := by
  simpa using List.find?_some h

theorem Database.conclusion?_id {d : Database} {c : ResearchConclusion}
    (h : d.conclusion? id = some c) : c.id = id := by
  simpa using List.find?_some h

/-! ## Frames -/

theorem foldl_of_not_taken {α : Type} {key : RowKey} {f : Write → α → α} (hf : ∀ w x, key ∉ w.keys → f w x = x)
    (h : key ∉ taken ws) (x : α) : ws.foldl (fun x w => f w x) x = x := by
  induction ws generalizing x with
  | nil => rfl
  | cons w ws ih =>
    rw [List.foldl_cons, hf w x fun hk => h (List.mem_flatMap.mpr ⟨w, List.mem_cons_self, hk⟩)]
    exact ih (fun hk => h (mem_taken_append.mpr (.inr hk) : _ ∈ taken ([w] ++ ws))) x

theorem onTurn_of_not_taken (h : RowKey.turn id ∉ taken ws) (t : Option ResearchTurn) :
    ws.foldl (fun t w => w.onTurn id t) t = t := by
  refine foldl_of_not_taken (f := fun w => w.onTurn id) (fun w t hw => ?_) h t
  cases w with
  | insertTurn row =>
    have hne : ¬ row.id = id := fun he => hw (by simp [Write.keys, he])
    simp [Write.onTurn, hne]
  | _ => rfl

theorem onCandidate_of_not_taken (h : RowKey.candidate id ∉ taken ws) (c : Option ResearchConclusionCandidate) :
    ws.foldl (fun c w => w.onCandidate id c) c = c := by
  refine foldl_of_not_taken (f := fun w => w.onCandidate id) (fun w c hw => ?_) h c
  cases w with
  | insertCandidate row =>
    have hne : ¬ row.id = id := fun he => hw (by simp [Write.keys, he])
    simp [Write.onCandidate, hne]
  | updateCandidate id' status saved =>
    have hne : ¬ id = id' := fun he => hw (by simp [Write.keys, he])
    simp [Write.onCandidate, hne]
  | _ => rfl

theorem onConclusion_of_not_taken (h : RowKey.conclusion id ∉ taken ws) (c : Option ResearchConclusion) :
    ws.foldl (fun c w => w.onConclusion id c) c = c := by
  refine foldl_of_not_taken (f := fun w => w.onConclusion id) (fun w c hw => ?_) h c
  cases w with
  | insertConclusion row =>
    have hne : ¬ row.id = id := fun he => hw (by simp [Write.keys, he])
    simp [Write.onConclusion, hne]
  | updateConclusion id' u =>
    have hne : ¬ id = id' := fun he => hw (by simp [Write.keys, he])
    simp [Write.onConclusion, hne]
  | _ => rfl

theorem onTurn_some (ws : List Write) (id : Uuid) (t : ResearchTurn) :
    ws.foldl (fun t w => w.onTurn id t) (some t) = some t := by
  induction ws with
  | nil => rfl
  | cons w ws ih =>
    have hhead : w.onTurn id (some t) = some t := by
      cases w <;> rfl
    rw [List.foldl_cons, hhead]
    exact ih

theorem onCandidate_some (ws : List Write) (id : Uuid) (c : ResearchConclusionCandidate) :
    ∃ c', ws.foldl (fun c w => w.onCandidate id c) (some c) = some c' ∧ c'.turnId = c.turnId := by
  induction ws generalizing c with
  | nil => exact ⟨c, rfl, rfl⟩
  | cons w ws ih =>
    have hhead : ∃ c', w.onCandidate id (some c) = some c' ∧ c'.turnId = c.turnId := by
      cases w with
      | updateCandidate id' status saved =>
        refine ⟨_, rfl, ?_⟩
        split <;> rfl
      | _ => exact ⟨c, rfl, rfl⟩
    obtain ⟨c₁, hc₁, hturn₁⟩ := hhead
    obtain ⟨c', hc', hturn'⟩ := ih c₁
    refine ⟨c', ?_, hturn'.trans hturn₁⟩
    rw [List.foldl_cons, hc₁]
    exact hc'

theorem onConclusion_some (ws : List Write) (id : Uuid) (c : ResearchConclusion) :
    ∃ c', ws.foldl (fun c w => w.onConclusion id c) (some c) = some c' ∧
      (c.status = .archived → c'.status = .archived) := by
  induction ws generalizing c with
  | nil => exact ⟨c, rfl, fun hc => hc⟩
  | cons w ws ih =>
    have hhead : ∃ c', w.onConclusion id (some c) = some c' ∧ (c.status = .archived → c'.status = .archived) := by
      cases w with
      | updateConclusion id' u =>
        refine ⟨_, rfl, fun hc => ?_⟩
        split
        · cases u with
          | lock v => exact hc
          | archive v => rfl
          | current r => exact hc
          | archived => rfl
        · exact hc
      | _ => exact ⟨c, rfl, fun hc => hc⟩
    obtain ⟨c₁, hc₁, hkeep₁⟩ := hhead
    obtain ⟨c', hc', hkeep'⟩ := ih c₁
    refine ⟨c', ?_, fun hc => hkeep' (hkeep₁ hc)⟩
    rw [List.foldl_cons, hc₁]
    exact hc'

/-! ## Rely -/

/-- What a transaction that has written `ws` can rely on from one moment to the next: rows stay, and nobody else
changes a row it has taken, or adds a revision to a conclusion it has taken. -/
structure Holds (ws : List Write) (d d' : Database) : Prop where
  turn : ∀ id t, d.turn? id = some t → d'.turn? id = some t
  candidate : ∀ id c, d.candidate? id = some c → ∃ c', d'.candidate? id = some c' ∧ c'.turnId = c.turnId
  conclusion : ∀ id c, d.conclusion? id = some c →
    ∃ c', d'.conclusion? id = some c' ∧ (c.status = .archived → c'.status = .archived)
  heldTurn : ∀ id, RowKey.turn id ∈ taken ws → d'.turn? id = d.turn? id
  heldCandidate : ∀ id, RowKey.candidate id ∈ taken ws → d'.candidate? id = d.candidate? id
  heldConclusion : ∀ id, RowKey.conclusion id ∈ taken ws →
    d'.conclusion? id = d.conclusion? id ∧ d'.revisionsOf id = d.revisionsOf id

theorem Holds.refl (ws : List Write) (d : Database) : Holds ws d d where
  turn _ _ h := h
  candidate _ c h := ⟨c, h, rfl⟩
  conclusion _ c h := ⟨c, h, id⟩
  heldTurn _ _ := rfl
  heldCandidate _ _ := rfl
  heldConclusion _ _ := ⟨rfl, rfl⟩

theorem Holds.trans (ws : List Write) {a b c : Database} (h : Holds ws a b) (h' : Holds ws b c) :
    Holds ws a c where
  turn id t ht := h'.turn id t (h.turn id t ht)
  candidate id x hx := by
    obtain ⟨y, hy, hturn⟩ := h.candidate id x hx
    obtain ⟨z, hz, hturn'⟩ := h'.candidate id y hy
    exact ⟨z, hz, hturn'.trans hturn⟩
  conclusion id x hx := by
    obtain ⟨y, hy, hkeep⟩ := h.conclusion id x hx
    obtain ⟨z, hz, hkeep'⟩ := h'.conclusion id y hy
    exact ⟨z, hz, fun ha => hkeep' (hkeep ha)⟩
  heldTurn id hk := (h'.heldTurn id hk).trans (h.heldTurn id hk)
  heldCandidate id hk := (h'.heldCandidate id hk).trans (h.heldCandidate id hk)
  heldConclusion id hk :=
    ⟨(h'.heldConclusion id hk).1.trans (h.heldConclusion id hk).1,
      (h'.heldConclusion id hk).2.trans (h.heldConclusion id hk).2⟩

theorem Holds.of_append {new : List Write} {d d' : Database} (h : Holds (ws ++ new) d d') : Holds ws d d' where
  turn := h.turn
  candidate := h.candidate
  conclusion := h.conclusion
  heldTurn id hk := h.heldTurn id (mem_taken_append.mpr (.inl hk))
  heldCandidate id hk := h.heldCandidate id (mem_taken_append.mpr (.inl hk))
  heldConclusion id hk := h.heldConclusion id (mem_taken_append.mpr (.inl hk))

/-- Revisions are added to conclusions whose row the transaction has taken. -/
def Guarded (ws : List Write) : Prop :=
  ∀ row, Write.insertRevision row ∈ ws → RowKey.conclusion row.conclusionId ∈ taken ws

theorem Guarded.revisionFor_nil (h : Guarded ws)
    (hid : RowKey.conclusion id ∉ taken ws) : ws.flatMap (Write.revisionFor id) = [] := by
  rw [List.flatMap_eq_nil_iff]
  intro w hw
  cases w with
  | insertRevision row =>
    have hne : ¬ row.conclusionId = id := fun he => hid (he ▸ h row hw)
    exact if_neg hne
  | _ => rfl

/-- **What others commit.** A guarded transaction commits within what the others rely on. -/
theorem holds_view {ws' : List Write} (hguard : Guarded ws) (hapart : engine.Apart ws ws') (d : Database) :
    Holds ws' d (engine.view ws d) where
  turn id t ht := by
    rw [turn?_view, ht]
    exact onTurn_some ws id t
  candidate id c hc := by
    rw [candidate?_view, hc]
    exact onCandidate_some ws id c
  conclusion id c hc := by
    rw [conclusion?_view, hc]
    exact onConclusion_some ws id c
  heldTurn id hk := by
    rw [turn?_view]
    exact onTurn_of_not_taken (not_mem_taken_of_apart hapart hk) _
  heldCandidate id hk := by
    rw [candidate?_view]
    exact onCandidate_of_not_taken (not_mem_taken_of_apart hapart hk) _
  heldConclusion id hk := by
    have hfree := not_mem_taken_of_apart hapart hk
    rw [conclusion?_view, revisionsOf_view, hguard.revisionFor_nil hfree, List.append_nil]
    exact ⟨onConclusion_of_not_taken hfree _, rfl⟩

end Irip.Conclusions
