import Mathlib.Data.List.Forall2
import Irip.Base.JsonText
import Irip.Parameters.Conditions

/-!
# `Parameters.ConditionGrammar` — which documents are conditions, and what they mean

The grammar has two rules: an object with one of `and` and `or` and a list of conditions, and an object with an allowed
field and one comparison. The parser takes the first branch operator or the first comparison that it comes across, and does
not look at the other members.
-/

namespace Irip.Parameters.Conditions

/-! ## Grammar -/

/-- The operand is a list for `in`, and a scalar for any other comparison. -/
def Typed (op : ConditionOperator) (value : Json) : Prop :=
  if op = .in_ then ∃ items, value = .arr items else isScalar value = true

/-- The conditions. -/
inductive Generated : Json → Prop
  | branch (op : ConditionOperator) (items : List Json) (branch : op = .and ∨ op = .or)
      (children : ∀ c ∈ items, Generated c) : Generated (.obj [(op.value, .arr items)])
  | leaf (fs : List (String × Json)) (field : String) (op : ConditionOperator) (value : Json)
      (members : fs = [("field", .str field), (op.value, value)] ∨ fs = [(op.value, value), ("field", .str field)])
      (allowed : field ∈ allowedConditionFields) (comparison : op ∈ leafOperators) (typed : Typed op value) :
      Generated (.obj fs)

/-! ## Meaning -/

/-- What a comparison says in an object with these members; any other member says nothing. -/
def denoteComparison (context : Dict String Value) (fs : List (String × Json)) (key : String) (value : Json) :
    Except Raised Bool :=
  match leafOperator? key, fs.lookup "field" with
  | some op, some (.str field) => evalLeaf context { field := field, op := op, value := value }
  | _, _ => .ok true

mutual

/-- What a document says of a context: an object says all that its members say. -/
def denote (context : Dict String Value) : Json → Except Raised Bool
  | .obj fs => denoteMembers context fs fs
  | _ => .ok false

/-- The conjunction of members, of an object with the members `fs`. -/
def denoteMembers (context : Dict String Value) (fs : List (String × Json)) : List (String × Json) → Except Raised Bool
  | [] => .ok true
  | (k, v) :: rest => (denoteMember context fs k v).bind (fun b => if b then denoteMembers context fs rest else .ok false)

/-- A conjunction, a disjunction or a comparison. -/
def denoteMember (context : Dict String Value) (fs : List (String × Json)) (key : String) : Json → Except Raised Bool
  | .arr items =>
    if key = "and" then denoteAll context items
    else if key = "or" then denoteAny context items
    else denoteComparison context fs key (.arr items)
  | v => denoteComparison context fs key v

def denoteAll (context : Dict String Value) : List Json → Except Raised Bool
  | [] => .ok true
  | c :: cs => (denote context c).bind (fun b => if b then denoteAll context cs else .ok false)

def denoteAny (context : Dict String Value) : List Json → Except Raised Bool
  | [] => .ok false
  | c :: cs => (denote context c).bind (fun b => if b then .ok true else denoteAny context cs)

end

/-! ## Members beside the rule -/

/-- The documents within a document: itself, and those within the conditions of a branch. -/
inductive Visited : Json → Json → Prop
  | self (j : Json) : Visited j j
  | child (fs : List (String × Json)) (op : ConditionOperator) (items : List Json) (c k : Json)
      (branch : op = .and ∨ op = .or) (member : fs.lookup op.value = some (.arr items)) (mem : c ∈ items)
      (rest : Visited c k) : Visited (.obj fs) k

/-- A branch has another member, or a comparison a third one. -/
def Surplus : Json → Prop
  | .obj fs => if (fs.lookup "and").isSome ∨ (fs.lookup "or").isSome then 1 < fs.length else 2 < fs.length
  | _ => False

/-- No document within has a member beside its rule. -/
def Tidy (j : Json) : Prop := ∀ k, Visited j k → ¬ Surplus k

theorem surplus_branch_iff {fs : List (String × Json)} (h : (fs.lookup "and").isSome ∨ (fs.lookup "or").isSome) :
    Surplus (.obj fs) ↔ 1 < fs.length := by
  show (if (fs.lookup "and").isSome ∨ (fs.lookup "or").isSome then 1 < fs.length else 2 < fs.length) ↔ _
  rw [if_pos h]

theorem surplus_comparison_iff {fs : List (String × Json)} (hand : fs.lookup "and" = none)
    (hor : fs.lookup "or" = none) : Surplus (.obj fs) ↔ 2 < fs.length := by
  show (if (fs.lookup "and").isSome ∨ (fs.lookup "or").isSome then 1 < fs.length else 2 < fs.length) ↔ _
  rw [hand, hor, if_neg (by simp)]

/-! ## Parser -/

section Parser

variable {andFirst : Bool} {fs : List (String × Json)} {op : ConditionOperator}

/-- The branch an object is taken for, with what stands under its key. -/
def branchOf (andFirst : Bool) (fs : List (String × Json)) : Option (ConditionOperator × Json) :=
  (branchOperators andFirst).findSome? (fun op => (fs.lookup op.value).map (fun v => (op, v)))

theorem parseMember_eq : parseMember andFirst op fs = (fs.lookup op.value).map (parseBranch andFirst op) := by
  induction fs with
  | nil => rfl
  | cons m fs ih =>
    obtain ⟨k, v⟩ := m
    rw [parseMember, List.lookup_cons, ih]
    by_cases hk : k = op.value
    · rw [if_pos hk, hk, beq_self_eq_true]
      rfl
    · have hne : (op.value == k) = false := beq_eq_false_iff_ne.mpr (fun h => hk h.symm)
      rw [if_neg hk, hne]

theorem parse_obj : parse andFirst (.obj fs) = match branchOf andFirst fs with
    | some (op, v) => parseBranch andFirst op v
    | none => parseLeaf fs := by
  rw [parse, parseMember_eq, parseMember_eq]
  unfold branchOf branchOperators
  cases andFirst with
  | true =>
    simp only [if_true, List.findSome?_cons, List.findSome?_nil]
    cases fs.lookup ConditionOperator.and.value with
    | some v => rfl
    | none =>
      cases fs.lookup ConditionOperator.or.value with
      | some v => rfl
      | none => rfl
  | false =>
    simp only [if_false, Bool.false_eq_true, List.findSome?_cons, List.findSome?_nil]
    cases fs.lookup ConditionOperator.or.value with
    | some v => rfl
    | none =>
      cases fs.lookup ConditionOperator.and.value with
      | some v => rfl
      | none => rfl

theorem branchOf_some {v : Json} (h : branchOf andFirst fs = some (op, v)) :
    (op = .and ∨ op = .or) ∧ fs.lookup op.value = some v := by
  obtain ⟨op', hop', hv⟩ := List.exists_of_findSome?_eq_some h
  obtain ⟨w, hw, heq⟩ := Option.map_eq_some_iff.mp hv
  cases heq
  refine ⟨?_, hw⟩
  unfold branchOperators at hop'
  cases andFirst with
  | true => simpa using hop'
  | false => simpa using Or.symm (by simpa using hop')

theorem branchOf_none_iff :
    branchOf andFirst fs = none ↔ fs.lookup "and" = none ∧ fs.lookup "or" = none := by
  unfold branchOf branchOperators
  rw [List.findSome?_eq_none_iff]
  cases andFirst with
  | true => simp [ConditionOperator.value]
  | false => simp [ConditionOperator.value, and_comm]

theorem parseItems_iff {items : List Json} {ns : List ConditionNode} :
    parseItems andFirst items = .ok ns ↔ List.Forall₂ (fun c n => parse andFirst c = .ok n) items ns := by
  induction items generalizing ns with
  | nil =>
    rw [parseItems, List.forall₂_nil_left_iff]
    exact ⟨fun h => (Except.ok.inj h).symm, fun h => by rw [h]⟩
  | cons c items ih =>
    rw [parseItems, List.forall₂_cons_left_iff]
    cases hc : parse andFirst c with
    | error e =>
      constructor
      · intro h
        cases h
      · rintro ⟨n, ns', hn, -⟩
        cases hn
    | ok n =>
      show (parseItems andFirst items).map (n :: ·) = .ok ns ↔ _
      cases hitems : parseItems andFirst items with
      | error e =>
        constructor
        · intro h
          cases h
        · rintro ⟨n', ns', -, hns', -⟩
          rw [← ih, hitems] at hns'
          cases hns'
      | ok ns' =>
        constructor
        · intro h
          exact ⟨n, ns', rfl, ih.mp hitems, (Except.ok.inj h).symm⟩
        · rintro ⟨n', ns'', hn, hns'', rfl⟩
          rw [← ih, hitems] at hns''
          rw [Except.ok.inj hn, Except.ok.inj hns'']
          rfl

theorem checkOperand_iff {value : Json} : checkOperand op value = .ok () ↔ Typed op value := by
  unfold checkOperand Typed
  by_cases hop : op = .in_
  · rw [if_pos hop, if_pos hop]
    cases value <;> simp
  · rw [if_neg hop, if_neg hop]
    cases isScalar value <;> simp

theorem parseLeaf_iff {n : ConditionNode} :
    parseLeaf fs = .ok n ↔ ∃ field op value, fs.lookup "field" = some (.str field) ∧ field ∈ allowedConditionFields ∧
      firstOperator fs = some (op, value) ∧ Typed op value ∧
      n = .leaf { field := field, op := op, value := value } := by
  unfold parseLeaf
  constructor
  · intro h
    split at h
    · cases h
    · next field hfield =>
        split at h
        · cases h
        · next hallowed =>
            split at h
            · cases h
            · next op value hfirst =>
                cases hcheck : checkOperand op value with
                | error e =>
                  rw [hcheck] at h
                  cases h
                | ok u =>
                  rw [hcheck] at h
                  exact ⟨field, op, value, hfield, not_not.mp hallowed, hfirst, checkOperand_iff.mp hcheck,
                    (Except.ok.inj h).symm⟩
    · cases h
  · rintro ⟨field, op, value, hfield, hallowed, hfirst, htyped, rfl⟩
    rw [hfield]
    dsimp only
    rw [if_neg (not_not.mpr hallowed), hfirst]
    dsimp only
    rw [checkOperand_iff.mpr htyped]
    rfl

/-- The documents the parser accepts. -/
inductive Tolerated (andFirst : Bool) : Json → Prop
  | branch (fs : List (String × Json)) (op : ConditionOperator) (items : List Json)
      (chosen : branchOf andFirst fs = some (op, .arr items)) (children : ∀ c ∈ items, Tolerated andFirst c) :
      Tolerated andFirst (.obj fs)
  | leaf (fs : List (String × Json)) (field : String) (op : ConditionOperator) (value : Json)
      (noBranch : branchOf andFirst fs = none) (named : fs.lookup "field" = some (.str field))
      (allowed : field ∈ allowedConditionFields) (first : firstOperator fs = some (op, value)) (typed : Typed op value) :
      Tolerated andFirst (.obj fs)

theorem sizeOf_child {k : String} {items : List Json} {c : Json} (h : fs.lookup k = some (.arr items)) (hc : c ∈ items) :
    sizeOf c < sizeOf (Json.obj fs) := by
  have hitem := List.sizeOf_lt_of_mem hc
  have hmember := List.sizeOf_lt_of_mem (Json.mem_of_lookup h)
  rw [Prod.mk.sizeOf_spec, Json.arr.sizeOf_spec] at hmember
  rw [Json.obj.sizeOf_spec]
  omega

theorem forall_exists_iff {α β : Type} {R : α → β → Prop} {as : List α} :
    (∀ a ∈ as, ∃ b, R a b) ↔ ∃ bs, List.Forall₂ R as bs := by
  induction as with
  | nil => exact ⟨fun _ => ⟨[], .nil⟩, fun _ a ha => (by cases ha)⟩
  | cons a as ih =>
    rw [List.forall_mem_cons, ih]
    constructor
    · rintro ⟨⟨b, hb⟩, bs, hbs⟩
      exact ⟨b :: bs, .cons hb hbs⟩
    · rintro ⟨_, hall⟩
      cases hall with
      | cons hb hbs => exact ⟨⟨_, hb⟩, _, hbs⟩

/-- By induction on the size of the document: the conditions of a branch are smaller. -/
theorem tolerated_of_parse {j : Json} {n : ConditionNode} (h : parse andFirst j = .ok n) : Tolerated andFirst j := by
  induction hsize : sizeOf j using Nat.strong_induction_on generalizing j n with
  | _ size ih =>
    cases j with
    | obj fs =>
      rw [parse_obj] at h
      cases hbranch : branchOf andFirst fs with
      | none =>
        rw [hbranch] at h
        obtain ⟨field, op, value, hfield, hallowed, hfirst, htyped, -⟩ := parseLeaf_iff.mp h
        exact .leaf fs field op value hbranch hfield hallowed hfirst htyped
      | some found =>
        obtain ⟨op, v⟩ := found
        rw [hbranch] at h
        cases v with
        | arr items =>
          have hmap : (parseItems andFirst items).map (ConditionNode.branch op) = .ok n := h
          cases hitems : parseItems andFirst items with
          | error e =>
            rw [hitems] at hmap
            cases hmap
          | ok ns =>
            refine .branch fs op items hbranch (fun c hc => ?_)
            obtain ⟨n', hn'⟩ := forall_exists_iff.mpr ⟨ns, parseItems_iff.mp hitems⟩ c hc
            exact ih (sizeOf c) (hsize ▸ sizeOf_child (branchOf_some hbranch).2 hc) hn' rfl
        | _ => cases h
    | _ => cases h

theorem parse_of_tolerated {j : Json} (h : Tolerated andFirst j) : ∃ n, parse andFirst j = .ok n := by
  induction h with
  | branch fs op items chosen children ih =>
    obtain ⟨ns, hns⟩ := forall_exists_iff.mp ih
    refine ⟨.branch op ns, ?_⟩
    rw [parse_obj, chosen]
    show (parseItems andFirst items).map (ConditionNode.branch op) = _
    rw [parseItems_iff.mpr hns]
    rfl
  | leaf fs field op value noBranch named allowed first typed =>
    refine ⟨.leaf { field := field, op := op, value := value }, ?_⟩
    rw [parse_obj, noBranch]
    exact parseLeaf_iff.mpr ⟨field, op, value, named, allowed, first, typed, rfl⟩

/-- **The parser accepts the tolerated documents.** -/
theorem parses_iff {j : Json} : (∃ n, parse andFirst j = .ok n) ↔ Tolerated andFirst j :=
  ⟨fun ⟨_, h⟩ => tolerated_of_parse h, parse_of_tolerated⟩

end Parser

/-! ## Accepted and tidy -/

section Tidy

variable {andFirst : Bool} {fs : List (String × Json)} {op : ConditionOperator} {field : String} {value : Json}

theorem leafOperator?_value (hop : op ∈ leafOperators) : leafOperator? op.value = some op := by
  revert hop
  cases op <;> decide

theorem leafOperator?_some {key : String} (h : leafOperator? key = some op) : op ∈ leafOperators ∧ op.value = key :=
  ⟨List.mem_of_find?_eq_some h, by simpa using List.find?_some h⟩

theorem value_ne (hop : op ∈ leafOperators) : op.value ≠ "field" ∧ op.value ≠ "and" ∧ op.value ≠ "or" := by
  revert hop
  cases op <;> decide

theorem firstOperator_some (h : firstOperator fs = some (op, value)) : op ∈ leafOperators ∧ (op.value, value) ∈ fs := by
  obtain ⟨⟨k, v⟩, hm, hfound⟩ := List.exists_of_findSome?_eq_some h
  split at hfound
  · cases hfound
  · obtain ⟨op', hop', heq⟩ := Option.map_eq_some_iff.mp hfound
    cases heq
    obtain ⟨hmem, hvalue⟩ := leafOperator?_some hop'
    exact ⟨hmem, hvalue ▸ hm⟩

/-- **A tidy document that the parser accepts is a condition.** -/
theorem generated_of_tolerated {j : Json} (h : Tolerated andFirst j) (htidy : Tidy j) : Generated j := by
  induction h with
  | branch fs op items chosen children ih =>
    obtain ⟨hop, hlookup⟩ := branchOf_some chosen
    have hbranch : (fs.lookup "and").isSome ∨ (fs.lookup "or").isSome := by
      rcases hop with rfl | rfl
      · exact .inl (Option.isSome_iff_exists.mpr ⟨_, hlookup⟩)
      · exact .inr (Option.isSome_iff_exists.mpr ⟨_, hlookup⟩)
    have hone : ¬ 1 < fs.length := fun h => htidy _ (.self _) ((surplus_branch_iff hbranch).mpr h)
    -- the branch is the only member
    have hfs : fs = [(op.value, .arr items)] := by
      have hmem := Json.mem_of_lookup hlookup
      cases fs with
      | nil => cases hmem
      | cons m rest =>
        cases rest with
        | nil => rw [List.mem_singleton.mp hmem]
        | cons m' rest => exact absurd (by simp) hone
    have hchildren : ∀ c ∈ items, Generated c := fun c hc =>
      ih c hc (fun k hk => htidy k (.child fs op items c k hop hlookup hc hk))
    rw [hfs]
    exact .branch op items hop hchildren
  | leaf fs field op value noBranch named allowed first typed =>
    obtain ⟨hop, hmem⟩ := firstOperator_some first
    have hfield := Json.mem_of_lookup named
    obtain ⟨hand, hor⟩ := branchOf_none_iff.mp noBranch
    have htwo : ¬ 2 < fs.length := fun h => htidy _ (.self _) ((surplus_comparison_iff hand hor).mpr h)
    refine .leaf fs field op value ?_ allowed hop typed
    -- two members with different keys are all
    have hne := (value_ne hop).1
    cases fs with
    | nil => cases hmem
    | cons m rest =>
      cases rest with
      | nil =>
        rw [List.mem_singleton] at hmem hfield
        exact absurd (congrArg Prod.fst (hmem.trans hfield.symm)) hne
      | cons m' rest =>
        cases rest with
        | cons m'' rest => exact absurd (by simp) htwo
        | nil =>
          rw [List.mem_pair] at hmem hfield
          rcases hmem with rfl | rfl
          · rcases hfield with hf | rfl
            · exact absurd (congrArg Prod.fst hf).symm hne
            · exact .inr rfl
          · rcases hfield with rfl | hf
            · exact .inl rfl
            · exact absurd (congrArg Prod.fst hf).symm hne

theorem branchOf_singleton (hop : op = .and ∨ op = .or) : branchOf andFirst [(op.value, value)] = some (op, value) := by
  unfold branchOf branchOperators
  rcases hop with rfl | rfl
  · cases andFirst <;> rfl
  · cases andFirst <;> rfl

theorem comparison_lookups (hop : op ∈ leafOperators)
    (hfs : fs = [("field", .str field), (op.value, value)] ∨ fs = [(op.value, value), ("field", .str field)]) :
    fs.lookup "field" = some (.str field) ∧ fs.lookup "and" = none ∧ fs.lookup "or" = none ∧
      firstOperator fs = some (op, value) := by
  obtain ⟨hfield, hand, hor⟩ := value_ne hop
  have hfield' : ("field" == op.value) = false := beq_eq_false_iff_ne.mpr (Ne.symm hfield)
  have hand' : ("and" == op.value) = false := beq_eq_false_iff_ne.mpr (Ne.symm hand)
  have hor' : ("or" == op.value) = false := beq_eq_false_iff_ne.mpr (Ne.symm hor)
  unfold firstOperator
  rcases hfs with rfl | rfl
  · simp [List.lookup_cons, hand', hor', hfield, leafOperator?_value hop]
  · simp [List.lookup_cons, hfield', hand', hor', hfield, leafOperator?_value hop]

theorem tolerated_of_generated {j : Json} (h : Generated j) : Tolerated andFirst j := by
  induction h with
  | branch op items hop children ih => exact .branch _ op items (branchOf_singleton hop) ih
  | leaf fs field op value members allowed comparison typed =>
    obtain ⟨hfield, hand, hor, hfirst⟩ := comparison_lookups comparison members
    exact .leaf fs field op value (branchOf_none_iff.mpr ⟨hand, hor⟩) hfield allowed hfirst typed

theorem tidy_of_generated {j : Json} (h : Generated j) : Tidy j := by
  intro k hk
  induction hk with
  | self j =>
    cases h with
    | branch op items hop children =>
      have hbranch : ([(op.value, Json.arr items)].lookup "and").isSome ∨
          ([(op.value, Json.arr items)].lookup "or").isSome := by
        rcases hop with rfl | rfl
        · exact .inl rfl
        · exact .inr rfl
      rw [surplus_branch_iff hbranch]
      exact Nat.lt_irrefl 1
    | leaf fs field op value members allowed comparison typed =>
      obtain ⟨-, hand, hor, -⟩ := comparison_lookups comparison members
      rw [surplus_comparison_iff hand hor]
      rcases members with rfl | rfl
      · exact Nat.lt_irrefl 2
      · exact Nat.lt_irrefl 2
  | child fs op items c k hop member mem rest ih =>
    apply ih
    cases h with
    | branch op' items' hop' children =>
      have hmem := List.mem_singleton.mp (Json.mem_of_lookup member)
      rw [Json.arr.inj (congrArg Prod.snd hmem)] at mem
      exact children c mem
    | leaf fs field op' value members allowed comparison typed =>
      obtain ⟨-, hand, hor, -⟩ := comparison_lookups comparison members
      rcases hop with rfl | rfl
      · rw [show ConditionOperator.and.value = "and" from rfl, hand] at member
        cases member
      · rw [show ConditionOperator.or.value = "or" from rfl, hor] at member
        cases member

end Tidy

/-! ## Evaluation -/

section Evaluation

variable {andFirst : Bool} {context : Dict String Value}

theorem bind_self (r : Except Raised Bool) : r.bind (fun b => if b then .ok true else .ok false) = r := by
  cases r with
  | error e => rfl
  | ok b => cases b <;> rfl

theorem evalAll_eq {items : List Json} {ns : List ConditionNode}
    (h : List.Forall₂ (fun c n => evalNode context n = denote context c) items ns) :
    evalAll context ns = denoteAll context items := by
  induction h with
  | nil => rw [evalAll, denoteAll]
  | cons hc _ ih => rw [evalAll, denoteAll, hc, ih]

theorem evalAny_eq {items : List Json} {ns : List ConditionNode}
    (h : List.Forall₂ (fun c n => evalNode context n = denote context c) items ns) :
    evalAny context ns = denoteAny context items := by
  induction h with
  | nil => rw [evalAny, denoteAny]
  | cons hc _ ih => rw [evalAny, denoteAny, hc, ih]

theorem denote_comparison {fs : List (String × Json)} {field : String} {op : ConditionOperator} {value : Json}
    (hop : op ∈ leafOperators)
    (hfs : fs = [("field", .str field), (op.value, value)] ∨ fs = [(op.value, value), ("field", .str field)]) :
    denote context (.obj fs) = evalLeaf context { field := field, op := op, value := value } := by
  obtain ⟨hfield, -, -, -⟩ := comparison_lookups hop hfs
  obtain ⟨-, hand, hor⟩ := value_ne hop
  have hsays : denoteMember context fs op.value value = evalLeaf context { field := field, op := op, value := value } := by
    have hcomparison : denoteComparison context fs op.value value =
        evalLeaf context { field := field, op := op, value := value } := by
      unfold denoteComparison
      rw [leafOperator?_value hop, hfield]
    cases value with
    | arr items =>
      rw [denoteMember, if_neg hand, if_neg hor]
      exact hcomparison
    | _ => exact hcomparison
  have hsilent : denoteMember context fs "field" (.str field) = .ok true := rfl
  rw [denote]
  rcases hfs with rfl | rfl
  · rw [denoteMembers, hsilent, denoteMembers, hsays, denoteMembers]
    exact bind_self _
  · rw [denoteMembers, hsays, denoteMembers, hsilent, denoteMembers]
    exact bind_self _

/-- **A condition is evaluated to what it says.** -/
theorem evalNode_eq_denote {j : Json} (h : Generated j) {n : ConditionNode} (hn : parse andFirst j = .ok n) :
    evalNode context n = denote context j := by
  induction h generalizing n with
  | branch op items hop children ih =>
    rw [parse_obj, branchOf_singleton hop] at hn
    have hmap : (parseItems andFirst items).map (ConditionNode.branch op) = .ok n := hn
    cases hitems : parseItems andFirst items with
    | error e =>
      rw [hitems] at hmap
      cases hmap
    | ok ns =>
      rw [hitems] at hmap
      rw [← Except.ok.inj hmap]
      have heach : List.Forall₂ (fun c n => evalNode context n = denote context c) items ns := by
        have hall := parseItems_iff.mp hitems
        exact ((List.forall₂_and_left items ns).mpr ⟨fun c hc => @ih c hc, hall⟩).imp (fun c n h => h.1 h.2)
      rw [evalNode, denote, denoteMembers, denoteMembers, bind_self]
      rcases hop with rfl | rfl
      · rw [if_pos rfl, evalAll_eq heach]
        rfl
      · rw [if_neg (by decide), evalAny_eq heach]
        rfl
  | leaf fs field op value members allowed comparison typed =>
    obtain ⟨hfield, hand, hor, hfirst⟩ := comparison_lookups comparison members
    rw [parse_obj, branchOf_none_iff.mpr ⟨hand, hor⟩] at hn
    have hleaf := parseLeaf_iff.mpr ⟨field, op, value, hfield, allowed, hfirst, typed, rfl⟩
    rw [show parseLeaf fs = .ok n from hn] at hleaf
    rw [Except.ok.inj hleaf, evalNode, denote_comparison comparison members]

end Evaluation

/-! ## Exactness -/

/-- The parser accepts a document exactly if it is a condition, and evaluates what it accepts to what the document says. -/
structure Exact (andFirst : Bool) (j : Json) : Prop where
  accepts : (∃ n, parse andFirst j = .ok n) ↔ Generated j
  agrees : (∃ n, parse andFirst j = .ok n) → ∀ context,
    conditionMatches andFirst j context = passOn (denote context j)

/-- **Parsing is exact** for the documents that are not accepted, and for those without a member beside the rules. -/
theorem parsing_exact_iff (andFirst : Bool) (j : Json) : Exact andFirst j ↔ (Tolerated andFirst j → Tidy j) := by
  constructor
  · intro hexact htolerated
    exact tidy_of_generated (hexact.accepts.mp (parses_iff.mpr htolerated))
  · intro htidy
    have hgenerated : (∃ n, parse andFirst j = .ok n) → Generated j := fun h =>
      generated_of_tolerated (parses_iff.mp h) (htidy (parses_iff.mp h))
    refine ⟨⟨hgenerated, fun h => parses_iff.mpr (tolerated_of_generated h)⟩, ?_⟩
    rintro ⟨n, hn⟩ context
    unfold conditionMatches
    rw [hn]
    dsimp only
    rw [evalNode_eq_denote (hgenerated ⟨n, hn⟩) hn]

/-- A range of temperatures in one object. -/
def temperatureRange : Json := .obj [("field", .str "temperature_c"), ("gte", .int 20), ("lte", .int 30)]

/-- The upper bound is a third member. -/
theorem not_exact_temperatureRange : ¬ Exact true temperatureRange := by
  intro hexact
  have htolerated : Tolerated true temperatureRange :=
    .leaf _ "temperature_c" .gte (.int 20) rfl rfl (by decide) rfl rfl
  have hsurplus : Surplus temperatureRange := (surplus_comparison_iff rfl rfl).mpr (by decide)
  exact tidy_of_generated (hexact.accepts.mp (parses_iff.mpr htolerated)) temperatureRange (.self _) hsurplus

end Irip.Parameters.Conditions
