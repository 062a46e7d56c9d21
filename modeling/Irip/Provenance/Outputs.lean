import Mathlib.Data.Fintype.EquivFin
import Irip.Provenance.Derivations

/-!
# `Provenance.Outputs` — what a derivation depends on

A derivation is meant to be a function of its evidence, and a replay is meant to repeat it. The values of the facts are a
parameter here: the table that held them is gone, and `create_run` reads none.
-/

namespace Irip.Provenance

/-! ## Faithfulness -/

/-- The numeric values of the included members' facts. -/
def EvidenceSetVersion.values (numericValues : Id → List Decimal) (v : EvidenceSetVersion) : List Decimal :=
  v.factIds.flatMap numericValues

/-- The outputs that the evidence, the recipe and its executor determine. -/
def Derives (registry : Registry) (numericValues : Id → List Decimal) (db : Db) (evidence recipe : Id)
    (outputs : List Output) : Prop :=
  ∃ v r executor, Available registry evidence recipe db v r executor ∧
    runExecutor executor r (v.values numericValues) = .ok outputs

/-- The outputs of a run are those its evidence determines; evidence that determines other outputs gives another digest;
and a replay repeats the digest of a run or leaves no new run. -/
structure Faithful (registry : Registry) (numericValues : Id → List Decimal) (db : Db) : Prop where
  outputs : ∀ runId evidence recipe ref db', createRun registry runId evidence recipe db = .ok (ref, db') →
    Derives registry numericValues db evidence recipe ref.outputs
  digests : ∀ runId runId' evidence evidence' recipe ref ref' db₁ db₂,
    createRun registry runId evidence recipe db = .ok (ref, db₁) →
    createRun registry runId' evidence' recipe db = .ok (ref', db₂) →
    ∀ outputs outputs', Derives registry numericValues db evidence recipe outputs →
      Derives registry numericValues db evidence' recipe outputs' → outputs ≠ outputs' →
      ref.outputDigest ≠ ref'.outputDigest
  replays : ∀ newId runId original, db.runs.get? runId = some original →
    (∃ ref, (replay registry newId runId db).1 = .ok ref ∧ some ref.outputDigest = original.outputDigest) ∨
      (∃ e, (replay registry newId runId db).1 = .error e) ∧ (replay registry newId runId db).2.runs = db.runs

/-! ## The condition -/

/-- Every executor gives on the values of the evidence what it gives on no values, and on no values it gives what is
stored for the runs that can be replayed. -/
structure Settled (registry : Registry) (numericValues : Id → List Decimal) (db : Db) : Prop where
  constant : ∀ evidence recipe v r executor outputs, Available registry evidence recipe db v r executor →
    runExecutor executor r [] = .ok outputs → runExecutor executor r (v.values numericValues) = .ok outputs
  stored : ∀ runId original v r executor outputs, db.runs.get? runId = some original →
    Available registry original.evidenceSetVersionId original.recipeVersionId db v r executor →
    runExecutor executor r [] = .ok outputs → some (computeOutputDigest outputs) = original.outputDigest

section Condition

variable {registry : Registry} {numericValues : Id → List Decimal} {db : Db}

theorem exists_fresh (db : Db) : ∃ id, db.runs.get? id = none := by
  obtain ⟨id, hid⟩ := Infinite.exists_notMem_finset db.runs.keys.toFinset
  exact ⟨id, Dict.get?_eq_none_iff.mpr (fun hmem => hid (List.mem_toFinset.mpr hmem))⟩

theorem Available.unique {evidence recipe : Id} {v v' : EvidenceSetVersion} {r r' : RecipeVersion}
    {executor executor' : Executor} (h : Available registry evidence recipe db v r executor)
    (h' : Available registry evidence recipe db v' r' executor') : v = v' ∧ r = r' ∧ executor = executor' := by
  have hv := Option.some.inj (h.version.symm.trans h'.version)
  have hr := Option.some.inj (h.recipe.symm.trans h'.recipe)
  refine ⟨hv, hr, ?_⟩
  subst hr
  exact Option.some.inj (h.executor.symm.trans h'.executor)

theorem Available.same_executor {evidence evidence' recipe : Id} {v v' : EvidenceSetVersion} {r r' : RecipeVersion}
    {executor executor' : Executor} (h : Available registry evidence recipe db v r executor)
    (h' : Available registry evidence' recipe db v' r' executor') : r = r' ∧ executor = executor' := by
  have hr := Option.some.inj (h.recipe.symm.trans h'.recipe)
  refine ⟨hr, ?_⟩
  subst hr
  exact Option.some.inj (h.executor.symm.trans h'.executor)

theorem createRun_of_available {runId evidence recipe : Id} {v : EvidenceSetVersion} {r : RecipeVersion}
    {executor : Executor} {outputs : List Output} (h : Available registry evidence recipe db v r executor)
    (houtputs : runExecutor executor r [] = .ok outputs) (hfresh : db.runs.get? runId = none) :
    ∃ ref db', createRun registry runId evidence recipe db = .ok (ref, db') ∧ ref.outputs = outputs ∧
      ref.outputDigest = computeOutputDigest outputs :=
  ⟨_, _, createRun_ok.mpr ⟨v, r, executor, outputs, h, houtputs, hfresh, rfl, rfl⟩, rfl, rfl⟩

/-- A replay of a run that can be created again adds a run, and succeeds if the digest is the stored one. -/
theorem replay_cases (newId runId : Id) {original : DerivationRun} (horiginal : db.runs.get? runId = some original) :
    (∃ v r executor outputs, Available registry original.evidenceSetVersionId original.recipeVersionId db v r executor ∧
      runExecutor executor r [] = .ok outputs ∧ db.runs.get? newId = none ∧
      (replay registry newId runId db).2.runs.get? newId ≠ none ∧
      if some (computeOutputDigest outputs) = original.outputDigest then
        ∃ ref, (replay registry newId runId db).1 = .ok ref ∧ ref.outputDigest = computeOutputDigest outputs
      else ∃ e, (replay registry newId runId db).1 = .error e) ∨
    (∃ e, (replay registry newId runId db).1 = .error e) ∧ (replay registry newId runId db).2.runs = db.runs := by
  cases hcreate : createRun registry newId original.evidenceSetVersionId original.recipeVersionId db with
  | error e =>
    refine .inr ?_
    unfold replay
    simp only [horiginal, hcreate]
    exact ⟨⟨e, rfl⟩, trivial⟩
  | ok res =>
    obtain ⟨ref, db'⟩ := res
    obtain ⟨v, r, executor, outputs, havailable, houtputs, hfresh, rfl, rfl⟩ := createRun_ok.mp hcreate
    refine .inl ⟨v, r, executor, outputs, havailable, houtputs, hfresh, ?_, ?_⟩
    · unfold replay
      simp only [horiginal, hcreate]
      split
      · simp
      · simp
    · unfold replay
      by_cases hsame : some (computeOutputDigest outputs) = original.outputDigest
      · simp [horiginal, hcreate, hsame]
      · simp [horiginal, hcreate, hsame]

/-- **When derivations are faithful**: when no executor depends on the values it is given, and every stored digest is
what its recipe gives now. -/
theorem faithful_iff (registry : Registry) (numericValues : Id → List Decimal) (db : Db) :
    Faithful registry numericValues db ↔ Settled registry numericValues db := by
  constructor
  · intro h
    obtain ⟨id, hfresh⟩ := exists_fresh db
    refine ⟨fun evidence recipe v r executor outputs havailable houtputs => ?_,
      fun runId original v r executor outputs horiginal havailable houtputs => ?_⟩
    · obtain ⟨ref, db', hcreate, rfl, -⟩ := createRun_of_available havailable houtputs hfresh
      obtain ⟨v', r', executor', havailable', hderives⟩ := h.outputs id evidence recipe ref db' hcreate
      obtain ⟨rfl, rfl, rfl⟩ := havailable.unique havailable'
      exact hderives
    · rcases @replay_cases registry _ id runId _ horiginal with
        ⟨v', r', executor', outputs', havailable', houtputs', -, hnew, hanswer⟩ | ⟨-, hruns⟩
      · obtain ⟨rfl, rfl, rfl⟩ := havailable.unique havailable'
        obtain rfl := Except.ok.inj (houtputs.symm.trans houtputs')
        by_contra hdiffer
        rw [if_neg hdiffer] at hanswer
        obtain ⟨e, he⟩ := hanswer
        rcases h.replays id runId original horiginal with ⟨ref, href, -⟩ | ⟨-, hruns⟩
        · rw [he] at href
          cases href
        · rw [hruns] at hnew
          exact hnew hfresh
      · -- the run can be created again, so the replay has left a run
        exfalso
        obtain ⟨ref, db', hcreate, -, -⟩ := createRun_of_available havailable houtputs hfresh
        obtain ⟨_, _, _, _, _, _, _, _, rfl⟩ := createRun_ok.mp hcreate
        have hnew : (replay registry id runId db).2.runs.get? id ≠ none := by
          unfold replay
          simp only [horiginal, hcreate]
          split
          · simp
          · simp
        rw [hruns] at hnew
        exact hnew hfresh
  · intro h
    refine ⟨fun runId evidence recipe ref db' hcreate => ?_, ?_, fun newId runId original horiginal => ?_⟩
    · obtain ⟨v, r, executor, outputs, havailable, houtputs, -, rfl, -⟩ := createRun_ok.mp hcreate
      exact ⟨v, r, executor, havailable, h.constant _ _ _ _ _ _ havailable houtputs⟩
    · -- two evidence sets of one recipe determine the same outputs
      intro runId runId' evidence evidence' recipe ref ref' db₁ db₂ hcreate _ outputs outputs' hderives hderives' hne
      obtain ⟨v, r, executor, none, havailable, hnone, -⟩ := createRun_ok.mp hcreate
      obtain ⟨v₁, r₁, executor₁, havailable₁, hvalues⟩ := hderives
      obtain ⟨v₂, r₂, executor₂, havailable₂, hvalues'⟩ := hderives'
      obtain ⟨rfl, rfl⟩ := havailable.same_executor havailable₁
      obtain ⟨rfl, rfl⟩ := havailable.same_executor havailable₂
      have hsame := Except.ok.inj ((h.constant _ _ _ _ _ _ havailable₁ hnone).symm.trans hvalues)
      have hsame' := Except.ok.inj ((h.constant _ _ _ _ _ _ havailable₂ hnone).symm.trans hvalues')
      exact absurd (hsame.symm.trans hsame') hne
    · rcases @replay_cases registry _ newId runId _ horiginal with
        ⟨v, r, executor, outputs, havailable, houtputs, -, -, hanswer⟩ | hnone
      · have hstored := h.stored runId original v r executor outputs horiginal havailable houtputs
        rw [if_pos hstored] at hanswer
        obtain ⟨ref, href, hdigest⟩ := hanswer
        exact .inl ⟨ref, href, by rw [hdigest, hstored]⟩
      · exact .inr hnone

end Condition

/-! ### A derivation that ignores its evidence -/

/-- An executor that gives the first of its values. -/
def firstValue : Executor where
  execute values _ := .ok { variableCode := "estimated_value", value := values.headD "0", confidence := "1.0" }

/-- One frozen evidence set with one fact, and a published recipe for the executor. -/
def oneFact : Db where
  versions := Dict.ofList [(1, { evidenceSetId := 0, members := [{ factId := some 5, decision := .included }],
                                 memberCount := 1 })]
  recipes := Dict.ofList [(2, { componentName := "first-value", componentVersion := "1.0.0", randomSeed := 42 })]

/-- The run of the evidence gives `0` where its one fact has the value `7`. -/
theorem evidence_ignored :
    ¬ ∀ (registry : Registry) (numericValues : Id → List Decimal) (db : Db), Faithful registry numericValues db := by
  intro hall
  have hfaithful := hall (Dict.ofList [(("first-value", "1.0.0"), firstValue)]) (fun _ => ["7"]) oneFact
  have havailable : Available (Dict.ofList [(("first-value", "1.0.0"), firstValue)]) 1 2 oneFact
      { evidenceSetId := 0, members := [{ factId := some 5, decision := .included }], memberCount := 1 }
      { componentName := "first-value", componentVersion := "1.0.0", randomSeed := 42 } firstValue :=
    ⟨rfl, rfl, rfl, rfl⟩
  obtain ⟨ref, db', hcreate, houtputs, -⟩ := @createRun_of_available _ _ 3 _ _ _ _ _ _ havailable rfl rfl
  obtain ⟨v, r, executor, havailable', hderives⟩ := hfaithful.outputs 3 1 2 ref db' hcreate
  obtain ⟨rfl, rfl, rfl⟩ := havailable.unique havailable'
  rw [houtputs] at hderives
  have hvalue := congrArg (List.map Output.value) (Except.ok.inj hderives)
  exact absurd hvalue (by decide)

end Irip.Provenance
