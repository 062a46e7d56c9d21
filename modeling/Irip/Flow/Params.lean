import Irip.Flow.Engine

/-!
# `Flow.Params` — the parameters a node is run with

A component is run with the parameters of its node, overridden by the inputs of the call. `execute` reads
upstream outputs from the live results, `retry_node` from the stored summaries, `resume` from either; the
external inputs are merged by the node loop and not by `retry_node`.
-/

namespace Irip.Flow

/-! ## External inputs -/

/-- The merge gives the key the external value: the value counts as true and, if the key is protected, it
refers to an artifact; if it is not, no port of that name is bound. -/
def Admissible (inputs : JsonDict) (key : String) (val : Json) : Prop :=
  val.truthy = true ∧ if key ∈ protectedParams then isArtifact val = true else key ∉ inputs.keys

instance (inputs : JsonDict) (key : String) (val : Json) : Decidable (Admissible inputs key val) :=
  inferInstanceAs (Decidable (_ ∧ _))

theorem addExternalInput_eq (inputs : JsonDict) (key : String) (val : Json) :
    addExternalInput inputs (key, val) = if Admissible inputs key val then inputs.set key val else inputs := by
  unfold addExternalInput Admissible
  by_cases hval : val.truthy = true
  · by_cases hkey : key ∈ protectedParams
    · by_cases hart : isArtifact val = true <;> simp [hval, hkey, hart]
    · by_cases hin : key ∈ inputs.keys <;> simp [hval, hkey, hin]
  · simp [hval]

theorem get?_addExternalInput (inputs : JsonDict) (key k : String) (val : Json) :
    (addExternalInput inputs (key, val)).get? k
      = if k = key ∧ Admissible inputs key val then some val else inputs.get? k := by
  rw [addExternalInput_eq]
  by_cases ha : Admissible inputs key val
  · rw [if_pos ha, Dict.get?_set]
    simp [ha]
  · simp [ha]

theorem admissible_congr {d e : JsonDict} {key : String} {val : Json} (h : d.get? key = e.get? key) :
    Admissible d key val ↔ Admissible e key val := by
  have hkeys : key ∉ d.keys ↔ key ∉ e.keys := by
    rw [← Dict.get?_eq_none_iff, ← Dict.get?_eq_none_iff, h]
  unfold Admissible
  rw [hkeys]

theorem get?_foldl_addExternalInput {es : List (String × Json)} (hnd : (es.map Prod.fst).Nodup)
    (inputs : JsonDict) (k : String) :
    (es.foldl addExternalInput inputs).get? k =
      match es.find? (fun e => e.1 = k) with
      | some e => if Admissible inputs k e.2 then some e.2 else inputs.get? k
      | none => inputs.get? k := by
  induction es generalizing inputs with
  | nil => rfl
  | cons e es ih =>
    obtain ⟨key, val⟩ := e
    rw [List.map_cons, List.nodup_cons] at hnd
    rw [List.foldl_cons, ih hnd.2, get?_addExternalInput]
    by_cases hk : key = k
    · -- the keys are distinct, so no later entry is about `k`
      subst hk
      have hnone : es.find? (fun e => e.1 = key) = none := by
        rw [List.find?_eq_none]
        intro e he heq
        exact hnd.1 (List.mem_map.mpr ⟨e, he, of_decide_eq_true heq⟩)
      simp [hnone]
    · have hk' : ¬ k = key := fun h => hk h.symm
      have hsame : (addExternalInput inputs (key, val)).get? k = inputs.get? k := by
        rw [get?_addExternalInput]
        simp [hk']
      simp only [List.find?_cons, hk, decide_false, hk', false_and, if_false]
      cases es.find? (fun e => e.1 = k) with
      | none => rfl
      | some e =>
        show (if Admissible (addExternalInput inputs (key, val)) k e.2 then _ else _) = _
        rw [if_congr (admissible_congr hsame) rfl rfl]

/-- **What the merge leaves under a key.** -/
theorem get?_addExternalInputs (snapshot inputs : JsonDict) (k : String) :
    (addExternalInputs snapshot inputs).get? k =
      match snapshot.get? k with
      | some val => if Admissible inputs k val then some val else inputs.get? k
      | none => inputs.get? k := by
  have hsnap : snapshot.get? k = (snapshot.entries.find? (fun e => e.1 = k)).map Prod.snd := rfl
  rw [addExternalInputs, get?_foldl_addExternalInput snapshot.nodup, hsnap]
  cases snapshot.entries.find? (fun e => e.1 = k) with
  | none => rfl
  | some e => rfl

/-! ## Upstream outputs -/

/-- The outputs of an upstream node as its row stores them. -/
def storedSummary (jsonb : Json → Json) (result : ComponentResult) : JsonDict :=
  (serializeOutputSummary result).mapVal jsonb

/-- The outputs of the upstream nodes a call sees: stored for the nodes it has not run itself. -/
def seenOutputs (jsonb : Json → Json) (results : Dict String ComponentResult) (restored : String → Bool) :
    Dict String JsonDict where
  entries := results.entries.map (fun e => (e.1, if restored e.1 then storedSummary jsonb e.2 else e.2.outputs))
  nodup := by
    rw [List.map_map]
    exact results.nodup

theorem get?_seenOutputs (jsonb : Json → Json) (results : Dict String ComponentResult)
    (restored : String → Bool) (id : String) :
    (seenOutputs jsonb results restored).get? id
      = (results.get? id).map (fun r => if restored id then storedSummary jsonb r else r.outputs) := by
  unfold seenOutputs Dict.get?
  rw [List.find?_map, Option.map_map, Option.map_map]
  show ((results.entries.find? (fun e => e.1 = id)).map _) = ((results.entries.find? (fun e => e.1 = id)).map _)
  cases h : results.entries.find? (fun e => e.1 = id) with
  | none => rfl
  | some e =>
    have hid : e.1 = id := by simpa using List.find?_some h
    simp [hid]

/-! ## Agreement -/

section Agreement

variable (jsonb : Json → Json) (node : FlowNode) (manifest : ComponentManifest) (snapshot : JsonDict)
  (results : Dict String ComponentResult)

/-- The dictionary that reaches the runner in `execute`. -/
def executeParams : Except Exn JsonDict :=
  mergedParams node manifest (loopInputs node (seenOutputs jsonb results (fun _ => false)) snapshot)

/-- Equal dictionaries, or none on either side. -/
def SameParams : Except Exn JsonDict → Except Exn JsonDict → Prop
  | .ok p, .ok q => p.Same q
  | .error _, .error _ => True
  | _, _ => False

theorem SameParams.refl (x : Except Exn JsonDict) : SameParams x x := by
  cases x with
  | error e => trivial
  | ok p => exact Dict.Same.refl p

variable {jsonb node manifest snapshot results}

theorem sameParams_merge {inputs inputs' : JsonDict} :
    SameParams (mergedParams node manifest inputs) (mergedParams node manifest inputs') ↔
      ∀ base, effectiveParams node.params manifest = .ok base →
        ∀ k, (inputs.get? k).or (base.get? k) = (inputs'.get? k).or (base.get? k) := by
  unfold mergedParams
  cases effectiveParams node.params manifest with
  | error e =>
    show True ↔ _
    simp
  | ok base =>
    show (base.merge inputs).Same (base.merge inputs') ↔ _
    simp [Dict.Same]

theorem get?_boundInputs (outputs : Dict String JsonDict) (k : String) :
    (boundInputs node outputs snapshot).get? k
      = (node.inputBindings.get? k).map (fun b => resolveInput b outputs snapshot) :=
  Dict.get?_mapVal _ _ _

variable (node snapshot) in
theorem admissible_boundInputs (outputs outputs' : Dict String JsonDict) (key : String) (val : Json) :
    Admissible (boundInputs node outputs snapshot) key val ↔
      Admissible (boundInputs node outputs' snapshot) key val := by
  have hkeys : key ∉ (boundInputs node outputs snapshot).keys
      ↔ key ∉ (boundInputs node outputs' snapshot).keys := by
    rw [← Dict.get?_eq_none_iff, ← Dict.get?_eq_none_iff, get?_boundInputs, get?_boundInputs,
      Option.map_eq_none_iff, Option.map_eq_none_iff]
  unfold Admissible
  rw [hkeys]

variable (jsonb snapshot results) in
/-- A binding reads one upstream node, so it reads either what `execute` or what `retry_node` sees. -/
theorem resolveInput_seenOutputs (binding : String) (restored : String → Bool) :
    resolveInput binding (seenOutputs jsonb results restored) snapshot
        = resolveInput binding (seenOutputs jsonb results (fun _ => false)) snapshot ∨
    resolveInput binding (seenOutputs jsonb results restored) snapshot
        = resolveInput binding (seenOutputs jsonb results (fun _ => true)) snapshot := by
  unfold resolveInput
  cases splitBinding binding with
  | none => exact .inl rfl
  | some srcPort =>
    obtain ⟨src, port⟩ := srcPort
    simp only [Dict.getD, get?_seenOutputs]
    cases restored src with
    | false => exact .inl rfl
    | true => exact .inr rfl

variable (jsonb node snapshot results) in
/-- Every bound port that no protected external input overrides reads the same from the stored summary of
its source as from the live result. -/
def BindingsAgree : Prop :=
  ∀ port binding, node.inputBindings.get? port = some binding →
    (∀ val, snapshot.get? port = some val → ¬ Admissible (boundInputs node ∅ snapshot) port val) →
    resolveInput binding (seenOutputs jsonb results (fun _ => false)) snapshot
      = resolveInput binding (seenOutputs jsonb results (fun _ => true)) snapshot

variable (node snapshot) in
theorem get?_loopInputs (outputs : Dict String JsonDict) (k : String) :
    (∃ val, snapshot.get? k = some val ∧ Admissible (boundInputs node ∅ snapshot) k val ∧
      (loopInputs node outputs snapshot).get? k = some val) ∨
    ((∀ val, snapshot.get? k = some val → ¬ Admissible (boundInputs node ∅ snapshot) k val) ∧
      (loopInputs node outputs snapshot).get? k = (boundInputs node outputs snapshot).get? k) := by
  unfold loopInputs
  rw [get?_addExternalInputs]
  cases hsnap : snapshot.get? k with
  | none => exact .inr ⟨(fun _ h => nomatch h), rfl⟩
  | some val =>
    have hcongr := admissible_boundInputs node snapshot outputs ∅ k val
    by_cases ha : Admissible (boundInputs node ∅ snapshot) k val
    · exact .inl ⟨val, rfl, ha, if_pos (hcongr.mpr ha)⟩
    · refine .inr ⟨?_, if_neg (fun h => ha (hcongr.mp h))⟩
      intro val' hval' ha'
      obtain rfl := Option.some.inj hval'
      exact ha ha'

theorem BindingsAgree.bound (h : BindingsAgree jsonb node snapshot results) {k : String}
    (hk : ∀ val, snapshot.get? k = some val → ¬ Admissible (boundInputs node ∅ snapshot) k val)
    (restored : String → Bool) :
    (boundInputs node (seenOutputs jsonb results (fun _ => false)) snapshot).get? k
      = (boundInputs node (seenOutputs jsonb results restored) snapshot).get? k := by
  rw [get?_boundInputs, get?_boundInputs]
  cases hb : node.inputBindings.get? k with
  | none => rfl
  | some binding =>
    have hagree := h k binding hb hk
    rcases resolveInput_seenOutputs jsonb snapshot results binding
      restored with heq | heq
    · rw [Option.map_some, Option.map_some, heq]
    · rw [Option.map_some, Option.map_some, heq, hagree]

end Agreement

end Irip.Flow
