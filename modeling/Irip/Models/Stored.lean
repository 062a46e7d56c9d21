import Irip.Base.Eval
import Irip.Models.Adapter

/-!
# `Models.Stored` — the predictions of a stored model, beside those of the contract as it was given

They are alike when the numbers, and the names, are where they were: `SameReading` and `InPlace`.
-/

namespace Irip.Models

open Json (jsonbMembers jsonbKey)
open StableSort (sortBy)
open Evaluation (bind_ok_iff)

variable {F D : Type}

/-! ## Versions -/

/-- The columns of a version that a prediction reads. -/
structure StoredVersion where
  contractJson : Fields
  applicabilityDomainJson : Fields

/-- `applicability_domain or contract.applicability_domain`. -/
def domainOf (contract : ModelContract) (domain : Option Fields) : Fields :=
  match domain with
  | some (m :: ms) => m :: ms
  | _ => contract.applicabilityDomain

/-- `create_version`, as far as these columns go. -/
def createVersion (contract : ModelContract) (domain : Option Fields) : StoredVersion :=
  { contractJson := jsonbMembers contract.toDict
    applicabilityDomainJson := jsonbMembers (domainOf contract domain) }

/-- An error that lists others. -/
def rejected (code text : String) (errors : List String) : AppError :=
  { code := code, message := text ++ "; ".intercalate errors, fields := [("errors", .arr (errors.map .str))] }

/-- `predict_version` after the contract has been read: the checks and the prediction. -/
def predictChecked {outputs : Nat} (rt : Runtime F D) (timeoutSeconds : Int) (contract : ModelContract)
    (domain : Fields) (session : Session F outputs) (inputs : Fields) : Except Exn (Dict String Json) := do
  let errors := validateInput rt inputs contract
  if !errors.isEmpty then
    .error (.app (rejected "input_validation_failed" "输入校验失败: " errors))
  let outside ← checkDomain rt inputs domain
  if !outside.isEmpty then
    .error (.app (rejected "outside_applicability_domain" "输入超出适用域: " outside))
  OnnxModelAdapter.predict rt ⟨session, contract, timeoutSeconds⟩ inputs

/-- `predict_version`, with the session of the artifact and the time limit of the executor. -/
def predictVersion {outputs : Nat} (rt : Runtime F D) (timeoutSeconds : Int) (version : StoredVersion)
    (session : Session F outputs) (inputs : Fields) : Except Exn (Dict String Json) :=
  match ModelContract.fromDict version.contractJson with
  | some contract => predictChecked rt timeoutSeconds contract version.applicabilityDomainJson session inputs
  | none => .error .python

/-! ## Comparison -/

/-- The inputs are accepted by the schema and lie in the domain. -/
structure Valid (rt : Runtime F D) (contract : ModelContract) (domain : Option Fields) (inputs : Fields) : Prop where
  schema : validateInput rt inputs contract = []
  within : checkDomain rt inputs (domainOf contract domain) = .ok []

/-- Both have the same predictions, or neither has any. -/
def SamePredictions (x y : Except Exn (Dict String Json)) : Prop :=
  (∃ p q, x = .ok p ∧ y = .ok q ∧ p.Same q) ∨ (∀ p, x ≠ .ok p) ∧ ∀ q, y ≠ .ok q

/-- Whatever a session with these inputs and outputs computes, the stored version predicts what an adapter that was
loaded with the contract predicts. -/
def PredictsAlike (rt : Runtime F D) (timeoutSeconds : Int) (contract : ModelContract) (domain : Option Fields)
    (metas : List String) (outputs : Nat) (inputs : Fields) : Prop :=
  ∀ run, SamePredictions
    (predictVersion rt timeoutSeconds (createVersion contract domain) (⟨metas, run⟩ : Session F outputs) inputs)
    (OnnxModelAdapter.predict rt ⟨⟨metas, run⟩, contract, timeoutSeconds⟩ inputs)

/-- Dictionaries are unordered to `jsonschema`, and none is a number. -/
structure Runtime.OrderFree (rt : Runtime F D) : Prop where
  validation : ∀ schema v, (rt.validation schema.jsonb v).isNone = (rt.validation schema v).isNone
  float : ∀ v, rt.float v.jsonb = rt.float v

/-! ## Readings -/

/-- Where a session is given which numbers, and under which names its results are reported, for the names of the input
and output properties in some order. There is none where a number is missing. -/
def reading (rt : Runtime F D) (metas : List String) (outputs : Nat) (inputs : Fields)
    (ins outs : Option (List String)) : Option (List (List F) × List (String × Nat × Nat)) := do
  let tensors ← (feed rt inputs (tensorNames metas (inputNames (← ins) inputs))).toOption
  return (tensors, places outputs (← outs))

/-- The place that is reported under a name: the last one. -/
def placeOf (ps : List (String × Nat × Nat)) (name : String) : Option (Nat × Nat) := (Dict.ofList ps).get? name

/-- The same numbers at the same positions, and the same place under every name; or none. -/
def SameReading : Option (List (List F) × List (String × Nat × Nat)) →
    Option (List (List F) × List (String × Nat × Nat)) → Prop
  | some x, some y => x.1 = y.1 ∧ ∀ name, placeOf x.2 name = placeOf y.2 name
  | none, none => True
  | _, _ => False

/-- Where positions count, it makes no difference whether the names are taken in the order they are declared in or in
the order of their lengths and bytes. -/
def InPlace (rt : Runtime F D) (contract : ModelContract) (metas : List String) (outputs : Nat) (inputs : Fields) :
    Prop :=
  let ins := propertyNames contract.inputSchema
  let outs := propertyNames contract.outputSchema
  SameReading (reading rt metas outputs inputs (ins.map (sortBy jsonbKey)) (outs.map (sortBy jsonbKey)))
    (reading rt metas outputs inputs ins outs)

/-! ### The checks -/

theorem jsonbMembers_eq_nil_iff {fs : Fields} : jsonbMembers fs = [] ↔ fs = [] := by
  rw [← List.length_eq_zero_iff, ← List.length_eq_zero_iff, Json.length_jsonbMembers]

variable {rt : Runtime F D} {contract : ModelContract} {domain : Option Fields} {inputs : Fields}

theorem validateInput_eq_nil_iff : validateInput rt inputs contract = [] ↔
    contract.inputSchema = [] ∨ (rt.validation (.obj contract.inputSchema) (.obj inputs)).isNone = true := by
  unfold validateInput
  by_cases hempty : contract.inputSchema = []
  · simp [hempty]
  · have hfalse : contract.inputSchema.isEmpty = false := by simpa using hempty
    rw [hfalse]
    cases rt.validation (.obj contract.inputSchema) (.obj inputs) <;> simp [hempty]

theorem validateInput_stored (horder : rt.OrderFree) :
    validateInput rt inputs contract.stored = [] ↔ validateInput rt inputs contract = [] := by
  rw [validateInput_eq_nil_iff, validateInput_eq_nil_iff, ModelContract.stored_inputSchema, jsonbMembers_eq_nil_iff,
    ← Json.jsonb_obj, horder.validation]

theorem checkDomain_ok {d : Fields} :
    checkDomain rt inputs d = .ok [] ↔ ∀ m ∈ d, checkDimension rt inputs m.1 m.2 = .ok [] := by
  have hbind : checkDomain rt inputs d = .ok [] ↔
      ∃ es, d.mapM (fun m => checkDimension rt inputs m.1 m.2) = .ok es ∧ es.flatten = [] := by
    unfold checkDomain
    cases d.mapM (fun m => checkDimension rt inputs m.1 m.2) with
    | error e => exact iff_of_false nofun (by rintro ⟨_, ⟨⟩, _⟩)
    | ok es =>
      constructor
      · exact fun h => ⟨es, rfl, Except.ok.inj h⟩
      · rintro ⟨_, ⟨⟩, h⟩
        exact congrArg Except.ok h
  rw [hbind]
  clear hbind
  induction d with
  | nil => exact iff_of_true ⟨[], rfl, rfl⟩ nofun
  | cons m d ih =>
    rw [List.forall_mem_cons, List.mapM_cons]
    refine Iff.trans ?_ (and_congr_right fun _ => ih)
    cases checkDimension rt inputs m.1 m.2 with
    | error e => exact iff_of_false (by rintro ⟨_, ⟨⟩, _⟩) (by rintro ⟨⟨⟩, _⟩)
    | ok errors =>
      cases d.mapM (fun m => checkDimension rt inputs m.1 m.2) with
      | error e => exact iff_of_false (by rintro ⟨_, ⟨⟩, _⟩) (by rintro ⟨_, _, ⟨⟩, _⟩)
      | ok es =>
        constructor
        · rintro ⟨_, ⟨⟩, h⟩
          obtain ⟨hhead, htail⟩ := List.append_eq_nil_iff.mp h
          exact ⟨congrArg Except.ok hhead, es, rfl, htail⟩
        · rintro ⟨hhead, _, ⟨⟩, htail⟩
          refine ⟨errors :: es, rfl, ?_⟩
          rw [List.flatten_cons, Except.ok.inj hhead, htail]
          rfl

theorem isNone_jsonb (v : Json) : v.jsonb.isNone = v.isNone := by
  cases v <;> simp [Json.jsonb, Json.isNone]

theorem checkBounds_jsonb (horder : rt.OrderFree) {dimension : String} {value bounds : Json} :
    checkBounds rt dimension value bounds.jsonb = .ok [] ↔ checkBounds rt dimension value bounds = .ok [] := by
  cases bounds with
  | obj fs =>
    rw [Json.jsonb_obj]
    simp only [checkBounds, Json.get_jsonbMembers, isNone_jsonb, horder.float]
    split
    · exact Iff.rfl
    · cases rt.float value with
      | error e => exact Iff.rfl
      | ok x =>
        cases rt.float (Json.get fs "min") with
        | error e => exact Iff.rfl
        | ok low =>
          cases rt.float (Json.get fs "max") with
          | error e => exact Iff.rfl
          | ok high =>
            -- only the text of the error shows the bounds
            by_cases hout : (rt.lt x low || rt.lt high x) = true
            · simp [hout]
            · simp [hout]
  | _ => simp [checkBounds, Json.jsonb]

theorem checkDimension_jsonb (horder : rt.OrderFree) {dimension : String} {bounds : Json} :
    checkDimension rt inputs dimension bounds.jsonb = .ok [] ↔ checkDimension rt inputs dimension bounds = .ok [] := by
  unfold checkDimension
  split
  · exact checkBounds_jsonb horder
  · exact checkBounds_jsonb horder
  · exact Iff.rfl

theorem checkDomain_stored (horder : rt.OrderFree) {d : Fields} :
    checkDomain rt inputs (jsonbMembers d) = .ok [] ↔ checkDomain rt inputs d = .ok [] := by
  rw [checkDomain_ok, checkDomain_ok]
  constructor
  · intro h m hm
    exact (checkDimension_jsonb horder).mp (h _ (Json.mem_jsonbMembers.mpr ⟨m, hm, rfl⟩))
  · intro h m hm
    obtain ⟨n, hn, rfl⟩ := Json.mem_jsonbMembers.mp hm
    exact (checkDimension_jsonb horder).mpr (h n hn)

variable {outputs size : Nat}

theorem predictVersion_eq (horder : rt.OrderFree) (hvalid : Valid rt contract domain inputs)
    {timeoutSeconds : Int} (session : Session F outputs) :
    predictVersion rt timeoutSeconds (createVersion contract domain) session inputs =
      OnnxModelAdapter.predict rt ⟨session, contract.stored, timeoutSeconds⟩ inputs := by
  unfold predictVersion createVersion
  rw [ModelContract.fromDict_jsonb]
  show predictChecked rt timeoutSeconds contract.stored (jsonbMembers (domainOf contract domain)) session inputs = _
  unfold predictChecked
  rw [(validateInput_stored horder).mpr hvalid.schema, (checkDomain_stored horder).mpr hvalid.within]
  rfl

/-! ### The prediction -/

theorem propertyNames_stored {schema : Fields} :
    propertyNames (jsonbMembers schema) = (propertyNames schema).map (sortBy jsonbKey) := by
  unfold propertyNames
  rw [Json.lookup_jsonbMembers]
  cases schema.lookup "properties" with
  | none => rfl
  | some v =>
    cases v with
    | obj fs => simp [Json.keys_jsonbMembers]
    | arr xs => cases xs <;> rfl
    | null => rfl
    | other w => rfl
    | bool b => cases b <;> rfl
    | int n | float r | str s => simp only [Option.map_some, Option.getD_some, Json.jsonb]; split <;> rfl

theorem propertiesOf_ok {schema : Fields} {names : List String} :
    propertiesOf schema = .ok names ↔ propertyNames schema = some names := by
  unfold propertiesOf
  cases propertyNames schema with
  | none => exact iff_of_false nofun nofun
  | some n => exact ⟨fun h => congrArg some (Except.ok.inj h), fun h => congrArg Except.ok (Option.some.inj h)⟩

theorem mapError_ok {ε ε' α : Type} {x : Except ε α} {f : ε → ε'} {a : α} : x.mapError f = .ok a ↔ x = .ok a := by
  cases x with
  | error e => exact iff_of_false nofun nofun
  | ok b => exact ⟨fun h => congrArg Except.ok (Except.ok.inj h), fun h => congrArg Except.ok (Except.ok.inj h)⟩

theorem reading_eq_some {metas : List String} {ins outs : Option (List String)}
    {tensors : List (List F)} {ps : List (String × Nat × Nat)} :
    reading rt metas outputs inputs ins outs = some (tensors, ps) ↔
      ∃ i o, ins = some i ∧ outs = some o ∧ feed rt inputs (tensorNames metas (inputNames i inputs)) = .ok tensors ∧
        places outputs o = ps := by
  unfold reading
  cases ins with
  | none => exact iff_of_false nofun (by rintro ⟨_, _, ⟨⟩, _⟩)
  | some i =>
    cases outs with
    | none =>
      refine iff_of_false ?_ (by rintro ⟨_, _, _, ⟨⟩, _⟩)
      cases hfeed : feed rt inputs (tensorNames metas (inputNames i inputs)) <;> simp [hfeed, Except.toOption]
    | some o =>
      cases hfeed : feed rt inputs (tensorNames metas (inputNames i inputs)) with
      | error e =>
        refine iff_of_false ?_ ?_
        · simp [hfeed, Except.toOption]
        · rintro ⟨_, _, ⟨⟩, ⟨⟩, h, _⟩
          cases hfeed.symm.trans h
      | ok t =>
        simp [hfeed, Except.toOption]

/-- `p` is what is predicted on a reading. -/
def Outcome {outputs : Nat} (run : List (List F) → Except Raised (Fin outputs → List Json))
    (x : Option (List (List F) × List (String × Nat × Nat))) (p : Dict String Json) : Prop :=
  ∃ tensors ps results, x = some (tensors, ps) ∧ run tensors = .ok results ∧ report results ps = p

theorem predict_ok {adapter : OnnxModelAdapter F outputs} {p : Dict String Json} : adapter.predict rt inputs = .ok p ↔
      Outcome adapter.session.run
        (reading rt adapter.session.inputs outputs inputs (propertyNames adapter.contract.inputSchema)
          (propertyNames adapter.contract.outputSchema)) p := by
  constructor
  · intro h
    obtain ⟨ins, hins, h⟩ := bind_ok_iff.mp h
    obtain ⟨results, hresults, h⟩ := bind_ok_iff.mp h
    obtain ⟨outs, houts, h⟩ := bind_ok_iff.mp h
    obtain ⟨tensors, hfeed, hrun⟩ := bind_ok_iff.mp (mapError_ok.mp hresults)
    exact ⟨tensors, _, results, reading_eq_some.mpr
      ⟨ins, outs, propertiesOf_ok.mp hins, propertiesOf_ok.mp houts, hfeed, rfl⟩, hrun, Except.ok.inj h⟩
  · rintro ⟨tensors, _, results, hreading, hrun, rfl⟩
    obtain ⟨ins, outs, hins, houts, hfeed, rfl⟩ := reading_eq_some.mp hreading
    exact bind_ok_iff.mpr ⟨ins, propertiesOf_ok.mpr hins, bind_ok_iff.mpr
      ⟨results, mapError_ok.mpr (bind_ok_iff.mpr ⟨tensors, hfeed, hrun⟩),
        bind_ok_iff.mpr ⟨outs, propertiesOf_ok.mpr houts, rfl⟩⟩⟩

/-! ### Sessions that tell readings apart -/

/-- The places are among the first `size` elements of the results. -/
def Within (outputs size : Nat) (ps : List (String × Nat × Nat)) : Prop :=
  ∀ m ∈ ps, m.2.1 < outputs ∧ m.2.2 < size

theorem places_within (outputs : Nat) (names : List String) : Within outputs (names.length + 1) (places outputs names) := by
  intro m hm
  unfold places at hm
  split at hm
  · next hsingle =>
      obtain ⟨i, hi, rfl⟩ := List.mem_mapIdx.mp hm
      constructor
      · show 0 < outputs
        omega
      · show i < names.length + 1
        omega
  · obtain ⟨i, hi, rfl⟩ := List.mem_map.mp hm
    exact ⟨List.mem_range.mp hi, Nat.succ_pos _⟩

theorem Within.mono {size' : Nat} {ps : List (String × Nat × Nat)} (h : Within outputs size ps)
    (hle : size ≤ size') : Within outputs size' ps := fun m hm => ⟨(h m hm).1, (h m hm).2.trans_le hle⟩

theorem get?_report (results : Fin outputs → List Json) (ps : List (String × Nat × Nat))
    (name : String) : (report results ps).get? name = (placeOf ps name).map (resultAt results) :=
  Dict.get?_ofList_map (resultAt results) ps name

/-- Results that number their elements. -/
def numbered (outputs size : Nat) : Fin outputs → List Json :=
  fun r => (List.range size).map (fun e => .int ((r.val * size + e : Nat) : Int))

theorem resultAt_numbered {place : Nat × Nat} (hr : place.1 < outputs) (he : place.2 < size) :
    resultAt (numbered outputs size) place = .int ((place.1 * size + place.2 : Nat) : Int) := by
  unfold resultAt numbered
  rw [dif_pos hr]
  simp [he]

theorem numbered_inj {a b : Nat × Nat} (ha : a.1 < outputs ∧ a.2 < size) (hb : b.1 < outputs ∧ b.2 < size)
    (h : resultAt (numbered outputs size) a = resultAt (numbered outputs size) b) : a = b := by
  rw [resultAt_numbered ha.1 ha.2, resultAt_numbered hb.1 hb.2] at h
  have heq : a.1 * size + a.2 = b.1 * size + b.2 := Int.ofNat.inj (Json.int.inj h)
  have hpos : 0 < size := Nat.zero_lt_of_lt ha.2
  have hsecond : a.2 = b.2 := by
    have := congrArg (· % size) heq
    simpa [Nat.mul_add_mod_self_right, Nat.mod_eq_of_lt ha.2, Nat.mod_eq_of_lt hb.2] using this
  have hfirst : a.1 = b.1 := by
    rw [hsecond] at heq
    exact Nat.eq_of_mul_eq_mul_right hpos (Nat.add_right_cancel heq)
  exact Prod.ext hfirst hsecond

theorem placeOf_eq_of_same {ps ps' : List (String × Nat × Nat)} (hps : Within outputs size ps)
    (hps' : Within outputs size ps') (h : (report (numbered outputs size) ps).Same (report (numbered outputs size) ps'))
    (name : String) : placeOf ps name = placeOf ps' name := by
  have hname := h name
  rw [get?_report, get?_report] at hname
  cases hplace : placeOf ps name with
  | none =>
    rw [hplace] at hname
    exact (Option.map_eq_none_iff.mp hname.symm).symm
  | some a =>
    rw [hplace] at hname
    obtain ⟨b, hb, heq⟩ := Option.map_eq_some_iff.mp hname.symm
    have hab : a = b := numbered_inj (hps _ (Dict.mem_of_get?_ofList hplace))
      (hps' _ (Dict.mem_of_get?_ofList hb)) heq.symm
    rw [hb, hab]

/-- **Readings and sessions.** Two readings are the same exactly if no session tells them apart. -/
theorem sameReading_iff {x y : Option (List (List F) × List (String × Nat × Nat))}
    (hx : ∀ z, x = some z → Within outputs size z.2) (hy : ∀ z, y = some z → Within outputs size z.2) :
    (∀ run : List (List F) → Except Raised (Fin outputs → List Json),
      (∃ p q, Outcome run x p ∧ Outcome run y q ∧ p.Same q) ∨ (∀ p, ¬ Outcome run x p) ∧ ∀ q, ¬ Outcome run y q) ↔
    SameReading x y := by
  classical
  constructor
  · intro h
    cases x with
    | none =>
      cases y with
      | none => trivial
      | some z =>
        -- a session that answers tells a reading from none
        rcases h fun _ => .ok fun _ => [] with ⟨_, _, ⟨_, _, _, ⟨⟩, _⟩, _⟩ | ⟨_, hnone⟩
        exact (hnone _ ⟨z.1, z.2, _, rfl, rfl, rfl⟩).elim
    | some z =>
      cases y with
      | none =>
        rcases h fun _ => .ok fun _ => [] with ⟨_, _, _, ⟨_, _, _, ⟨⟩, _⟩, _⟩ | ⟨hnone, _⟩
        exact (hnone _ ⟨z.1, z.2, _, rfl, rfl, rfl⟩).elim
      | some z' =>
        have htensors : z.1 = z'.1 := by
          -- a session that answers to the tensors of one only
          rcases h fun u => if u = z.1 then .ok fun _ => [] else .error .other with
            ⟨_, _, _, ⟨_, _, _, hz, hrun, _⟩, _⟩ | ⟨hnone, _⟩
          · cases hz
            by_contra hne
            exact absurd ((if_neg (Ne.symm hne)).symm.trans hrun) nofun
          · exact (hnone _ ⟨z.1, z.2, _, rfl, if_pos rfl, rfl⟩).elim
        refine ⟨htensors, ?_⟩
        rcases h fun _ => .ok (numbered outputs size) with
          ⟨_, _, ⟨_, _, _, hz, hrun, rfl⟩, ⟨_, _, _, hz', hrun', rfl⟩, hsame⟩ | ⟨hnone, _⟩
        · cases hz
          cases hz'
          cases hrun
          cases hrun'
          exact placeOf_eq_of_same (hx _ rfl) (hy _ rfl) hsame
        · exact (hnone _ ⟨z.1, z.2, _, rfl, rfl, rfl⟩).elim
  · intro h run
    cases x with
    | none =>
      cases y with
      | none => exact .inr ⟨by rintro _ ⟨_, _, _, ⟨⟩, _⟩, by rintro _ ⟨_, _, _, ⟨⟩, _⟩⟩
      | some z => exact h.elim
    | some z =>
      cases y with
      | none => exact h.elim
      | some z' =>
        obtain ⟨htensors, hplaces⟩ := h
        cases hrun : run z.1 with
        | error e =>
          refine .inr ⟨?_, ?_⟩
          · rintro _ ⟨_, _, _, hz, hok, _⟩
            cases hz
            cases hrun.symm.trans hok
          · rintro _ ⟨_, _, _, hz, hok, _⟩
            cases hz
            rw [htensors] at hrun
            cases hrun.symm.trans hok
        | ok results =>
          refine .inl ⟨report results z.2, report results z'.2, ⟨z.1, z.2, results, rfl, hrun, rfl⟩,
            ⟨z'.1, z'.2, results, rfl, htensors ▸ hrun, rfl⟩, ?_⟩
          intro name
          rw [get?_report, get?_report, hplaces name]

theorem reading_within {metas : List String} {ins outs : Option (List String)}
    (hsize : ∀ names, outs = some names → names.length + 1 ≤ size) {z : List (List F) × List (String × Nat × Nat)}
    (h : reading rt metas outputs inputs ins outs = some z) : Within outputs size z.2 := by
  obtain ⟨_, o, _, ho, _, hps⟩ := reading_eq_some.mp h
  rw [← hps]
  exact (places_within outputs o).mono (hsize o ho)

/-- **Stored and declared.** For valid inputs the stored version predicts like the declared contract, with every
session of the artifact's shape, exactly if the order of the column leaves inputs and outputs in place. -/
theorem predictsAlike_iff (horder : rt.OrderFree) (hvalid : Valid rt contract domain inputs) (timeoutSeconds : Int)
    (metas : List String) (outputs : Nat) :
    PredictsAlike rt timeoutSeconds contract domain metas outputs inputs ↔
      InPlace rt contract metas outputs inputs := by
  have hsize : ∀ names, propertyNames contract.outputSchema = some names →
      names.length + 1 ≤ ((propertyNames contract.outputSchema).getD []).length + 1 := by
    intro names hnames
    rw [hnames]
    exact le_rfl
  have hsize' : ∀ names, (propertyNames contract.outputSchema).map (sortBy jsonbKey) = some names →
      names.length + 1 ≤ ((propertyNames contract.outputSchema).getD []).length + 1 := by
    intro names hnames
    obtain ⟨names', hnames', rfl⟩ := Option.map_eq_some_iff.mp hnames
    rw [hnames', (StableSort.perm_sortBy names').length_eq]
    exact le_rfl
  refine Iff.trans ?_ (sameReading_iff (fun z => reading_within hsize') fun z => reading_within hsize)
  refine forall_congr' fun run => ?_
  rw [predictVersion_eq horder hvalid]
  simp only [SamePredictions, predict_ok, ModelContract.stored_inputSchema, ModelContract.stored_outputSchema,
    propertyNames_stored, ne_eq]

/-- A runtime for integers, and for schemas that accept everything. -/
def integers : Runtime Int Int where
  number
    | .int n => .ok n
    | _ => .error .typeError
  float
    | .int n => .ok n
    | _ => .error .typeError
  lt x y := x < y
  repr := toString
  validation _ _ := none

theorem integers_orderFree : integers.OrderFree where
  validation _ _ := rfl
  float v := by cases v <;> rfl

/-- The contract of a model with these inputs and the output `y`, all without bounds. -/
def contractOf (names : List String) : ModelContract where
  name := "model"
  version := "1.0.0"
  inputSchema := [("properties", .obj (names.map fun name => (name, .obj [])))]
  outputSchema := [("properties", .obj [("y", .obj [])])]
  applicabilityDomain := []

/-- The inputs `feed` and `t`, declared in the order of the column. -/
theorem predictsAlike_iff_ordered :
    PredictsAlike integers 300 (contractOf ["t", "feed"]) none ["X"] 1 [("feed", .int 2), ("t", .int 1)] := by
  refine (predictsAlike_iff integers_orderFree ⟨rfl, rfl⟩ 300 ["X"] 1).mpr ?_
  have hins : propertyNames (contractOf ["t", "feed"]).inputSchema = some ["t", "feed"] := rfl
  have houts : propertyNames (contractOf ["t", "feed"]).outputSchema = some ["y"] := rfl
  have hsorted : sortBy jsonbKey ["t", "feed"] = ["t", "feed"] := by decide +kernel
  have hsingle : sortBy jsonbKey ["y"] = ["y"] := rfl
  simp only [InPlace, hins, houts, Option.map_some, hsorted, hsingle]
  exact ⟨rfl, fun name => rfl⟩

/-- **Names in another order.** The stored version swaps the inputs `feed` and `t`. -/
theorem not_predictsAlike :
    ¬ ∀ (rt : Runtime Int Int) (contract : ModelContract) (domain : Option Fields) (metas : List String)
        (outputs : Nat) (inputs : Fields), rt.OrderFree → Valid rt contract domain inputs →
          PredictsAlike rt 300 contract domain metas outputs inputs := by
  intro hall
  let session : Session Int 1 := ⟨["X"], fun tensors => .ok fun _ => tensors.flatten.map .int⟩
  let inputs : Fields := [("feed", .int 2), ("t", .int 1)]
  have hdeclared : OnnxModelAdapter.predict integers ⟨session, contractOf ["feed", "t"], 300⟩ inputs =
      .ok (Dict.ofList [("y", .int 2)]) := rfl
  have hstored : predictVersion integers 300 (createVersion (contractOf ["feed", "t"]) none) session inputs =
      .ok (Dict.ofList [("y", .int 1)]) := rfl
  rcases hall integers (contractOf ["feed", "t"]) none ["X"] 1 inputs integers_orderFree ⟨rfl, rfl⟩ session.run with
    ⟨p, q, hp, hq, hsame⟩ | ⟨hnone, _⟩
  · cases hstored.symm.trans hp
    cases hdeclared.symm.trans hq
    have hvalue : some (Json.int 1) = some (Json.int 2) := hsame "y"
    cases hvalue
  · exact hnone _ hstored

end Irip.Models
