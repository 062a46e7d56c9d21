import Irip.Base.Eval
import Irip.Base.Worklist
import Irip.Models.Contract

/-!
# `Models.Onnx` — the operators of an ONNX model, and what a loaded one may run

The message of a model as far as operators go: a graph, whose nodes may hold graphs in their attributes, and the functions
of the model, whose bodies are nodes too. A node calls a function where name, domain and overload are its own.

Of `OnnxModelAdapter.load`, the parser of the message, the Ed25519 verification and `onnxruntime` are parameters.
-/

namespace Irip.Models.Onnx

/-! ## Messages -/

mutual

inductive GraphProto where
  | mk (node : List NodeProto)

inductive NodeProto where
  | mk (opType domain overload : String) (attributes : List AttributeProto)

inductive AttributeProto where
  | mk (g : Option GraphProto) (graphs : List GraphProto)

end

def GraphProto.node : GraphProto → List NodeProto
  | .mk node => node

def NodeProto.opType : NodeProto → String
  | .mk opType _ _ _ => opType

def NodeProto.domain : NodeProto → String
  | .mk _ domain _ _ => domain

def NodeProto.overload : NodeProto → String
  | .mk _ _ overload _ => overload

def NodeProto.attributes : NodeProto → List AttributeProto
  | .mk _ _ _ attributes => attributes

/-- The graphs of an attribute, in the order in which they are queued. -/
def AttributeProto.subgraphs : AttributeProto → List GraphProto
  | .mk g graphs => g.toList ++ graphs

def NodeProto.subgraphs (n : NodeProto) : List GraphProto := n.attributes.flatMap AttributeProto.subgraphs

def GraphProto.subgraphs (g : GraphProto) : List GraphProto := g.node.flatMap NodeProto.subgraphs

/-- A function of the model. -/
structure FunctionProto where
  name : String
  domain : String
  overload : String
  node : List NodeProto

structure ModelProto where
  graph : GraphProto
  functions : List FunctionProto

/-- The node is a call of the function. -/
def NodeProto.Calls (n : NodeProto) (f : FunctionProto) : Prop :=
  n.opType = f.name ∧ n.domain = f.domain ∧ n.overload = f.overload

/-! ## Walk -/

theorem sum_sizeOf_le (gs : List GraphProto) : (gs.map sizeOf).sum ≤ sizeOf gs := by
  induction gs with
  | nil => exact Nat.zero_le _
  | cons g gs ih =>
    simp only [List.map_cons, List.sum_cons, List.cons.sizeOf_spec]
    omega

theorem AttributeProto.subgraphs_le (a : AttributeProto) : (a.subgraphs.map sizeOf).sum ≤ sizeOf a := by
  cases a with
  | mk g graphs =>
    have hgraphs := sum_sizeOf_le graphs
    cases g with
    | none =>
      show (graphs.map sizeOf).sum ≤ _
      simp only [AttributeProto.mk.sizeOf_spec]
      omega
    | some g =>
      show ((g :: graphs).map sizeOf).sum ≤ _
      simp only [AttributeProto.mk.sizeOf_spec, Option.some.sizeOf_spec, List.map_cons, List.sum_cons]
      omega

theorem NodeProto.subgraphs_le (n : NodeProto) : (n.subgraphs.map sizeOf).sum ≤ sizeOf n := by
  cases n with
  | mk opType domain overload attributes =>
    have hattributes : ((attributes.flatMap AttributeProto.subgraphs).map sizeOf).sum ≤ sizeOf attributes := by
      induction attributes with
      | nil => exact Nat.zero_le _
      | cons a attributes ih =>
        have ha := a.subgraphs_le
        simp only [List.flatMap_cons, List.map_append, List.sum_append, List.cons.sizeOf_spec]
        omega
    show ((attributes.flatMap AttributeProto.subgraphs).map sizeOf).sum ≤ _
    simp only [NodeProto.mk.sizeOf_spec]
    omega

theorem subgraphs_shrink : Worklist.Shrinks GraphProto.subgraphs sizeOf := by
  intro g
  cases g with
  | mk node =>
    have hnode : ((node.flatMap NodeProto.subgraphs).map sizeOf).sum ≤ sizeOf node := by
      induction node with
      | nil => exact Nat.zero_le _
      | cons n node ih =>
        have hn := n.subgraphs_le
        simp only [List.flatMap_cons, List.map_append, List.sum_append, List.cons.sizeOf_spec]
        omega
    show ((node.flatMap NodeProto.subgraphs).map sizeOf).sum < _
    simp only [GraphProto.mk.sizeOf_spec]
    omega

/-- `op_types.add(node.op_type)`. -/
def addOpType (opTypes : List String) (n : NodeProto) : List String :=
  if n.opType ∈ opTypes then opTypes else opTypes ++ [n.opType]

/-- The operators of a graph, without those of the graphs that it nests. -/
def addOpTypes (opTypes : List String) (g : GraphProto) : List String := g.node.foldl addOpType opTypes

/-- `_extract_op_types`, after the model has been parsed. -/
def extractOpTypes (model : ModelProto) : List String :=
  Worklist.run addOpTypes subgraphs_shrink [model.graph] []

/-! ## Operators -/

/-- A node of the main graph or of a graph nested in it, to any depth. -/
inductive Nested (model : ModelProto) : NodeProto → Prop
  | main {n : NodeProto} (h : n ∈ model.graph.node) : Nested model n
  | nested {n m : NodeProto} {g : GraphProto} (h : Nested model n) (hg : g ∈ n.subgraphs) (hm : m ∈ g.node) :
      Nested model m

/-- A node that may run: nested in the main graph, or in the body of a function that is called. -/
inductive Executes (model : ModelProto) : NodeProto → Prop
  | main {n : NodeProto} (h : n ∈ model.graph.node) : Executes model n
  | nested {n m : NodeProto} {g : GraphProto} (h : Executes model n) (hg : g ∈ n.subgraphs) (hm : m ∈ g.node) :
      Executes model m
  | call {n m : NodeProto} {f : FunctionProto} (h : Executes model n) (hf : f ∈ model.functions) (hcall : n.Calls f)
      (hm : m ∈ f.node) : Executes model m

/-- A node of the body of a function that is called, or of a graph nested in one. -/
inductive InBody (model : ModelProto) : NodeProto → Prop
  | call {n m : NodeProto} {f : FunctionProto} (h : Executes model n) (hf : f ∈ model.functions) (hcall : n.Calls f)
      (hm : m ∈ f.node) : InBody model m
  | nested {n m : NodeProto} {g : GraphProto} (h : InBody model n) (hg : g ∈ n.subgraphs) (hm : m ∈ g.node) :
      InBody model m

variable {model : ModelProto} {n : NodeProto}

theorem executes_iff : Executes model n ↔ Nested model n ∨ InBody model n := by
  constructor
  · intro h
    induction h with
    | main h => exact .inl (.main h)
    | nested _ hg hm ih => exact ih.imp (fun h => .nested h hg hm) (fun h => .nested h hg hm)
    | call h hf hcall hm _ => exact .inr (.call h hf hcall hm)
  · rintro (h | h)
    · induction h with
      | main h => exact .main h
      | nested _ hg hm ih => exact .nested ih hg hm
    · induction h with
      | call h hf hcall hm => exact .call h hf hcall hm
      | nested _ hg hm ih => exact .nested ih hg hm

theorem nested_iff : Nested model n ↔ ∃ g, Worklist.Below GraphProto.subgraphs model.graph g ∧ n ∈ g.node := by
  constructor
  · intro h
    induction h with
    | main h => exact ⟨model.graph, .refl, h⟩
    | nested _ hg hm ih =>
      obtain ⟨above, habove, hn⟩ := ih
      exact ⟨_, habove.tail (List.mem_flatMap.mpr ⟨_, hn, hg⟩), hm⟩
  · rintro ⟨g, hbelow, hn⟩
    -- along the way down to the graph
    induction hbelow generalizing n with
    | refl => exact .main hn
    | tail _ hg ih =>
      obtain ⟨m, hm, hsub⟩ := List.mem_flatMap.mp hg
      exact .nested (ih hm) hsub hn

/-! ## Result -/

variable {opTypes : List String} {op : String}

theorem mem_addOpType : op ∈ addOpType opTypes n ↔ op ∈ opTypes ∨ op = n.opType := by
  unfold addOpType
  split
  · next hmem =>
      constructor
      · exact .inl
      · rintro (h | rfl)
        · exact h
        · exact hmem
  · simp

theorem mem_addOpTypes {g : GraphProto} : op ∈ addOpTypes opTypes g ↔ op ∈ opTypes ∨ ∃ n ∈ g.node, op = n.opType := by
  unfold addOpTypes
  induction g.node generalizing opTypes with
  | nil => simp
  | cons n node ih => rw [List.foldl_cons, ih, mem_addOpType, List.exists_mem_cons_iff, or_assoc]

theorem mem_foldl_addOpTypes {order : List GraphProto} :
    op ∈ order.foldl addOpTypes opTypes ↔ op ∈ opTypes ∨ ∃ g ∈ order, ∃ n ∈ g.node, op = n.opType := by
  induction order generalizing opTypes with
  | nil => simp
  | cons g order ih => rw [List.foldl_cons, ih, mem_addOpTypes, List.exists_mem_cons_iff, or_assoc]

/-- **The walk** finds exactly the operators of the nodes nested in the main graph. -/
theorem mem_extractOpTypes_iff : op ∈ extractOpTypes model ↔ ∃ n, Nested model n ∧ n.opType = op := by
  obtain ⟨order, hrun, horder⟩ := Worklist.run_spec addOpTypes subgraphs_shrink [model.graph] []
  unfold extractOpTypes
  rw [hrun, mem_foldl_addOpTypes]
  constructor
  · rintro (h | ⟨g, hg, n, hn, rfl⟩)
    · cases h
    · obtain ⟨r, hr, hbelow⟩ := (horder g).mp hg
      rw [List.mem_singleton.mp hr] at hbelow
      exact ⟨n, nested_iff.mpr ⟨g, hbelow, hn⟩, rfl⟩
  · rintro ⟨n, hnested, rfl⟩
    obtain ⟨g, hbelow, hn⟩ := nested_iff.mp hnested
    exact .inr ⟨g, (horder g).mpr ⟨model.graph, List.mem_singleton.mpr rfl, hbelow⟩, n, hn, rfl⟩

open Evaluation (bind_ok_iff)

/-! ## Environment -/

abbrev Bytes := List UInt8

/-- What the code takes from its packages. -/
structure Environment where
  /-- `onnx.load_model_from_string`; none where it raises. -/
  parseModel : Bytes → Option ModelProto
  /-- `Ed25519PublicKey.from_public_bytes(key).verify(signature, message)`; none where the key is malformed. -/
  verify : Bytes → Bytes → Bytes → Option Bool
  /-- `onnxruntime.InferenceSession`; none where `onnxruntime` is not installed. -/
  session : Option (Bytes → Bool)

/-- The value of a hexadecimal digit. -/
def hexDigit? (c : Char) : Option Nat :=
  if '0' ≤ c ∧ c ≤ '9' then some (c.toNat - 48)
  else if 'a' ≤ c ∧ c ≤ 'f' then some (c.toNat - 87)
  else if 'A' ≤ c ∧ c ≤ 'F' then some (c.toNat - 55)
  else none

/-- A blank of ASCII. -/
def isAsciiSpace (c : Char) : Bool := c = ' ' || (9 ≤ c.toNat && c.toNat ≤ 13)

/-- `bytes.fromhex`: two digits a byte, with blanks between the bytes. -/
def fromHex : List Char → Option Bytes
  | [] => some []
  | [c] => if isAsciiSpace c then some [] else none
  | c :: d :: cs => if isAsciiSpace c then fromHex (d :: cs)
    else match hexDigit? c, hexDigit? d with
      | some high, some low => (fromHex cs).map (fun bytes => UInt8.ofNat (16 * high + low) :: bytes)
      | _, _ => none

/-! ## Checks -/

/-- What a failed check raises. -/
def invalidArtifact (message : String) (fields : List (String × Json)) : AppError :=
  { code := "invalid_model_artifact", message := message, fields := fields }

/-- `_verify_sha256`. -/
def verifySha256 (artifact : Bytes) (expected : String) : Except AppError Unit :=
  if expected = "" then .ok ()
  else if Sha256.digest (artifact.map UInt8.toNat) = expected then .ok ()
  else .error (invalidArtifact "工件 SHA-256 校验失败，内容可能被篡改" [])

/-- The verification of a signature with a key, both in hexadecimal digits. -/
def verifyHex (env : Environment) (artifact : Bytes) (signature key : String) : Option Bool := do
  let key ← fromHex key.toList
  let signature ← fromHex signature.toList
  env.verify key signature artifact

/-- `_verify_artifact_signature`, enforced. -/
def verifySignature (env : Environment) (artifact : Bytes) (contract : ModelContract) : Except AppError Unit :=
  let signature := strip contract.artifactSignature
  let key := strip contract.signingPublicKey
  if signature = "" ∨ key = "" then .error (invalidArtifact "模型工件缺少签名或签名公钥，拒绝加载" [])
  else match verifyHex env artifact signature key with
    | some true => .ok ()
    | some false => .error (invalidArtifact "模型工件签名校验失败，内容可能被篡改" [])
    | none => .error (invalidArtifact "模型工件签名或公钥格式非法，拒绝加载" [])

/-- The settings of an adapter. -/
structure Settings where
  maxArtifactBytes : Nat := 256 * 1024 * 1024
  enforceSecurity : Bool := false
  allowedPublishers : List String
  allowedOpTypes : List String

def verifyPublisher (settings : Settings) (contract : ModelContract) : Except AppError Unit :=
  let publisher := strip contract.publisher
  if publisher = "" then .error (invalidArtifact "模型契约未声明发布者，拒绝加载" [])
  else if publisher ∈ settings.allowedPublishers then .ok ()
  else .error (invalidArtifact "模型发布者不在允许白名单内，拒绝加载" [("publisher", .str publisher)])

/-- `op_types - self._allowed_op_types`. -/
def disallowed (settings : Settings) (model : ModelProto) : List String :=
  (extractOpTypes model).filter (· ∉ settings.allowedOpTypes)

def verifyOpTypes (env : Environment) (settings : Settings) (artifact : Bytes) : Except AppError Unit :=
  match env.parseModel artifact with
  | none => .error (invalidArtifact "无法解析 ONNX 计算图，拒绝加载" [])
  | some model => if disallowed settings model = [] then .ok ()
    else .error (invalidArtifact "模型包含未授权的算子，拒绝加载"
      [("disallowed_op_types", .arr (((disallowed settings model).insertionSort (· ≤ ·)).map .str))])

/-- The three checks that are made where security is enforced. -/
def verifyAll (env : Environment) (settings : Settings) (artifact : Bytes) (contract : ModelContract) :
    Except AppError Unit := do
  verifySignature env artifact contract
  verifyPublisher settings contract
  verifyOpTypes env settings artifact

/-- The artifact is not too large. -/
def verifySize (settings : Settings) (artifact : Bytes) : Except AppError Unit :=
  if settings.maxArtifactBytes < artifact.length then
    .error (invalidArtifact "模型工件过大，超出允许上限"
      [("size", .int artifact.length), ("max", .int settings.maxArtifactBytes)])
  else .ok ()

/-- The session is opened. -/
def openSession (env : Environment) (artifact : Bytes) : Except AppError Unit :=
  match env.session with
  | none => .error { code := "model_failed", message := "onnxruntime 未安装，无法加载 ONNX 模型" }
  | some accepted => if accepted artifact then .ok ()
    else .error (invalidArtifact "模型工件不是有效的 ONNX 格式" [])

/-! ## Load -/

/-- What `load` returns. -/
structure LoadedModel where
  artifactRef : String
  metadata : Fields

def load (env : Environment) (settings : Settings) (artifact : Bytes) (contract : ModelContract) :
    Except AppError LoadedModel := do
  verifySha256 artifact contract.artifactSha256
  if settings.enforceSecurity then verifyAll env settings artifact contract
  verifySize settings artifact
  openSession env artifact
  return { artifactRef := "<in-memory>"
           metadata := [("adapter_type", .str "onnx"), ("artifact_size", .int artifact.length)] }

/-- The checks other than that of the operators. -/
structure Admitted (env : Environment) (settings : Settings) (artifact : Bytes) (contract : ModelContract) : Prop where
  sha256 : verifySha256 artifact contract.artifactSha256 = .ok ()
  signature : verifySignature env artifact contract = .ok ()
  publisher : verifyPublisher settings contract = .ok ()
  size : verifySize settings artifact = .ok ()
  session : openSession env artifact = .ok ()

variable {env : Environment} {settings : Settings} {artifact : Bytes} {contract : ModelContract}

theorem disallowed_eq_nil_iff {model : ModelProto} :
    disallowed settings model = [] ↔ ∀ n, Nested model n → n.opType ∈ settings.allowedOpTypes := by
  unfold disallowed
  rw [List.filter_eq_nil_iff]
  constructor
  · intro h n hn
    simpa using h n.opType (mem_extractOpTypes_iff.mpr ⟨n, hn, rfl⟩)
  · intro h op hop
    obtain ⟨n, hn, rfl⟩ := mem_extractOpTypes_iff.mp hop
    simpa using h n hn

theorem verifyOpTypes_ok_iff : verifyOpTypes env settings artifact = .ok () ↔
    ∃ model, env.parseModel artifact = some model ∧ ∀ n, Nested model n → n.opType ∈ settings.allowedOpTypes := by
  unfold verifyOpTypes
  cases env.parseModel artifact with
  | none =>
    constructor
    · intro h
      cases h
    · rintro ⟨_, h, _⟩
      cases h
  | some model =>
    simp only [Option.some.injEq, exists_eq_left', ← disallowed_eq_nil_iff]
    split
    · next h => exact iff_of_true rfl h
    · next h => exact iff_of_false (fun hok => by cases hok) h

/-- What is accepted: the other checks pass, and the operators of the nested nodes are allowed. -/
theorem load_ok_iff (henforce : settings.enforceSecurity = true) :
    (∃ loaded, load env settings artifact contract = .ok loaded) ↔ Admitted env settings artifact contract ∧
      ∃ model, env.parseModel artifact = some model ∧ ∀ n, Nested model n → n.opType ∈ settings.allowedOpTypes := by
  unfold load
  rw [henforce]
  constructor
  · rintro ⟨loaded, h⟩
    obtain ⟨⟨⟩, hsha256, h⟩ := bind_ok_iff.mp h
    obtain ⟨⟨⟩, hall, h⟩ := bind_ok_iff.mp h
    obtain ⟨⟨⟩, hsize, h⟩ := bind_ok_iff.mp h
    obtain ⟨⟨⟩, hsession, h⟩ := bind_ok_iff.mp h
    obtain ⟨⟨⟩, hsignature, hall⟩ := bind_ok_iff.mp hall
    obtain ⟨⟨⟩, hpublisher, hopTypes⟩ := bind_ok_iff.mp hall
    exact ⟨⟨hsha256, hsignature, hpublisher, hsize, hsession⟩, verifyOpTypes_ok_iff.mp hopTypes⟩
  · rintro ⟨h, hopTypes⟩
    have hall : verifyAll env settings artifact contract = .ok () :=
      bind_ok_iff.mpr ⟨(), h.signature, bind_ok_iff.mpr ⟨(), h.publisher, verifyOpTypes_ok_iff.mpr hopTypes⟩⟩
    exact ⟨_, bind_ok_iff.mpr ⟨(), h.sha256, bind_ok_iff.mpr ⟨(), hall, bind_ok_iff.mpr ⟨(), h.size,
      bind_ok_iff.mpr ⟨(), h.session, rfl⟩⟩⟩⟩⟩

/-! ## Result -/

/-- The walk ends, and only allowed operators may run in a model that is accepted. -/
structure Covers (env : Environment) (settings : Settings) (artifact : Bytes) (contract : ModelContract) : Prop where
  ends : Loop.Ends (Worklist.turn GraphProto.subgraphs addOpTypes)
  safe : ∀ loaded, load env settings artifact contract = .ok loaded → ∀ model, env.parseModel artifact = some model →
    ∀ n, Executes model n → n.opType ∈ settings.allowedOpTypes

/-- **Only allowed operators run** exactly if a model that passes the other checks, and whose main graph and the graphs
nested in it hold only allowed operators, holds only allowed operators in the bodies of the functions that are called. -/
theorem covers_iff (henforce : settings.enforceSecurity = true) : Covers env settings artifact contract ↔
    (Admitted env settings artifact contract → ∀ model, env.parseModel artifact = some model →
      (∀ n, Nested model n → n.opType ∈ settings.allowedOpTypes) →
        ∀ n, InBody model n → n.opType ∈ settings.allowedOpTypes) := by
  constructor
  · intro h hadmitted model hmodel hnested n hn
    obtain ⟨loaded, hloaded⟩ := (load_ok_iff henforce).mpr ⟨hadmitted, model, hmodel, hnested⟩
    exact h.safe loaded hloaded model hmodel n (executes_iff.mpr (.inr hn))
  · intro h
    refine ⟨Worklist.ends addOpTypes subgraphs_shrink, fun loaded hloaded model hmodel n hn => ?_⟩
    obtain ⟨hadmitted, model', hmodel', hnested⟩ := (load_ok_iff henforce).mp ⟨loaded, hloaded⟩
    obtain rfl := Option.some.inj (hmodel.symm.trans hmodel')
    rcases executes_iff.mp hn with hn | hn
    · exact hnested n hn
    · exact h hadmitted model hmodel hnested n hn

/-! ### A function of the model -/

/-- A node without attributes. -/
def node (opType domain : String) : NodeProto := .mk opType domain "" []

/-- A main graph that calls the function `Relu` of the model, whose body has the operator `op`. -/
def callsRelu (op : String) : ModelProto where
  graph := .mk [node "Relu" "local"]
  functions := [{ name := "Relu", domain := "local", overload := "", node := [node op ""] }]

/-- An artifact that is this model, and passes every other check. -/
def trusting (op : String) : Environment where
  parseModel _ := some (callsRelu op)
  verify _ _ _ := some true
  session := some (fun _ => true)

def reluOnly : Settings where
  enforceSecurity := true
  allowedPublishers := ["publisher"]
  allowedOpTypes := ["Relu"]

def signedContract : ModelContract where
  name := "model"
  version := "1.0.0"
  inputSchema := []
  outputSchema := []
  applicabilityDomain := []
  artifactSignature := "00"
  signingPublicKey := "00"
  publisher := "publisher"

theorem admitted_trusting (op : String) : Admitted (trusting op) reluOnly [] signedContract where
  sha256 := rfl
  signature := by
    have hhex : strip "00" = "00" := by decide +kernel
    unfold verifySignature signedContract
    dsimp only
    rw [hhex]
    rfl
  publisher := by
    have hpublisher : strip "publisher" = "publisher" := by decide +kernel
    unfold verifyPublisher signedContract
    dsimp only
    rw [hpublisher, if_neg (by decide)]
    exact if_pos List.mem_cons_self
  size := rfl
  session := rfl

theorem inBody_callsRelu {n : NodeProto} (h : InBody (callsRelu op) n) : n = node op "" := by
  induction h with
  | call _ hf _ hm =>
    obtain rfl := List.mem_singleton.mp hf
    exact List.mem_singleton.mp hm
  | nested _ hg _ ih =>
    -- the node of the body holds no graphs
    rw [ih] at hg
    cases hg

/-- Where the body holds `Relu` again, only `Relu` runs. -/
theorem covers_iff_relu : Covers (trusting "Relu") reluOnly [] signedContract := by
  refine (covers_iff rfl).mpr fun _ model hmodel _ n hn => ?_
  obtain rfl := Option.some.inj hmodel
  rw [inBody_callsRelu hn]
  exact List.mem_singleton.mpr rfl

/-- **A forbidden operator** in the body of the function `Relu`. -/
theorem not_covers_loop : ¬ Covers (trusting "Loop") reluOnly [] signedContract := by
  intro h
  have hnested : ∀ n, Nested (callsRelu "Loop") n → n = node "Relu" "local" := by
    intro n hn
    induction hn with
    | main h => exact List.mem_singleton.mp h
    | nested _ hg _ ih =>
      rw [ih] at hg
      cases hg
  obtain ⟨loaded, hloaded⟩ := (load_ok_iff rfl).mpr ⟨admitted_trusting "Loop", callsRelu "Loop", rfl, fun n hn => by
    rw [hnested n hn]
    exact List.mem_singleton.mpr rfl⟩
  have hcall : Executes (callsRelu "Loop") (node "Loop" "") :=
    .call (.main List.mem_cons_self) List.mem_cons_self ⟨rfl, rfl, rfl⟩ List.mem_cons_self
  have hallowed : "Loop" ∈ ["Relu"] := h.safe loaded hloaded _ rfl _ hcall
  exact absurd hallowed (by decide)

end Irip.Models.Onnx
