import Irip.Ai.OpenaiCompatible
import Irip.Base.JsonText

/-!
# `Ai.AskExecutor` — the loop of an answer that calls tools

The model asks for tools; those that the user may run are run, and what came of them is sent back, until it asks for
none. The provider, the tools and everybody else are a world that each call may change.
-/

namespace Irip.Ai

/-! ## Permissions -/

structure ToolSpec where
  displayName : List Char
  requiredPermission : String

structure ToolRegistry where
  tools : Dict (List Char) ToolSpec
  enabled : List (List Char)

def unknownTool (name : List Char) (message : String) : AppError where
  code := "unknown_tool"
  message := message
  fields := [("tool_name", .str (String.ofList name))]

/-- `validate`: a tool that is disabled is as good as unknown. -/
def ToolRegistry.validate (r : ToolRegistry) (name : List Char) : Except AppError ToolSpec :=
  match r.tools.get? name with
  | none => .error (unknownTool name s!"未知工具: {String.ofList name}")
  | some spec =>
    if name ∈ r.enabled then .ok spec
    else .error (unknownTool name s!"工具 '{String.ofList name}' 已被禁用，不可调用")

/-- `check_role_permission`, over the permissions of `BUILTIN_ROLES`. -/
def checkRolePermission (builtinRoles : Dict String (List String)) (roles : List String) (action : String) : Bool :=
  roles.any fun role => (builtinRoles.getD role []).contains action

/-! ## Messages -/

inductive Status where
  | rejected
  | forbidden
  | executed
  | error
deriving DecidableEq

/-- An entry of `executed_tool_calls`. -/
structure Record where
  tool : List Char
  args : List (String × Json)
  summary : List Char
  status : Status
  result : Option Json := none

structure ToolMessage where
  toolCallId : List Char
  content : List Char

/-- A call as the provider is shown it again. -/
structure SentCall where
  id : List Char
  name : List Char
  arguments : List Char

inductive Sent where
  | text (role content : List Char)
  | assistant (content : List Char) (calls : List SentCall)
  | tool (message : ToolMessage)

/-- What the loop runs in: `execute_tool`, the two citations, the provider and `redact_credentials`. -/
structure World (σ κ : Type) where
  builtinRoles : Dict String (List String)
  registry : σ → ToolRegistry
  execute : List Char → List (String × Json) → σ → Except (List Char) (List (String × Json)) × σ
  sign : List Char → Json → List Char → σ → Except (List Char) κ
  navigate : List Char → List (String × Json) → List (String × Json) → List Char → Except (List Char) (Option κ)
  complete : List Sent → σ → Option AIResponse × σ
  redact : List Char → List Char

variable {σ κ : Type}

/-! ## Tools -/

/-- What `_process_tool_calls` returns, and the world it leaves. -/
structure Batch (σ κ : Type) where
  world : σ
  executed : List Record := []
  messages : List ToolMessage := []
  citations : List κ := []

def Batch.answer (b : Batch σ κ) (id : List Char) (r : Record) (content : Json) : Batch σ κ :=
  { b with executed := b.executed ++ [r], messages := b.messages ++ [⟨id, Json.raw content⟩] }

def errorOf (text : List Char) : Json := .obj [("error", .str (String.ofList text))]

def numbered (tag : List Char) (n : ℕ) : List Char := "call_".toList ++ tag ++ '_' :: (toString n).toList

/-- The body of the loop. An exception after the record has been made adds a second one. -/
def handleCall (w : World σ κ) (roles : List String) (b : Batch σ κ) (tc : ToolCall) : Batch σ κ :=
  let id := if tc.id = [] then numbered tc.tool b.executed.length else tc.id
  match (w.registry b.world).validate tc.tool with
  | .error _ =>
    b.answer id { tool := tc.tool, args := tc.args, status := .rejected,
                  summary := "拒绝执行：未知工具 '".toList ++ tc.tool ++ ['\''] } (errorOf ("未知工具: ".toList ++ tc.tool))
  | .ok spec =>
    let permission := spec.requiredPermission.toList
    if checkRolePermission w.builtinRoles roles spec.requiredPermission = false then
      b.answer id { tool := tc.tool, args := tc.args, status := .forbidden,
                    summary := "拒绝执行：缺少权限 '".toList ++ permission ++ ['\''] }
        (errorOf ("权限不足: 需要 ".toList ++ permission))
    else
      let (out, world) := w.execute tc.tool tc.args b.world
      let b := { b with world := world }
      let fail := fun (b : Batch σ κ) (exc : List Char) =>
        let message := "工具执行失败: ".toList ++ exc
        b.answer id { tool := tc.tool, args := tc.args, status := .error, summary := message } (errorOf message)
      match out with
      | .error exc => fail b exc
      | .ok result =>
        let summary := (Json.pyStr (Json.getD result "summary" (.str ""))).toList
        let audited := (result.lookup "audit").isSome && (result.lookup "citation_params").isSome
        let b := b.answer id
          { tool := tc.tool, args := tc.args, status := .executed,
            summary := if summary = [] then "已执行 ".toList ++ spec.displayName else summary,
            result := if audited then result.lookup "audit" else result.lookup "data" }
          (Json.getD result "data" (.obj (if audited then [] else result)))
        let params := if audited then Json.getD result "citation_params" (.obj tc.args) else .obj tc.args
        match w.sign tc.tool params (if summary = [] then "工具执行完成".toList else summary) b.world with
        | .error exc => fail b exc
        | .ok signed =>
          match w.navigate tc.tool tc.args result spec.displayName with
          | .error exc => fail { b with citations := b.citations ++ [signed] } exc
          | .ok nav => { b with citations := b.citations ++ signed :: nav.toList }

def processToolCalls (w : World σ κ) (roles : List String) (calls : List ToolCall) (world : σ) : Batch σ κ :=
  calls.foldl (handleCall w roles) { world := world }

/-! ## Rounds -/

structure Talk (σ κ : Type) where
  world : σ
  messages : List Sent
  executed : List Record := []
  citations : List κ := []
  answer : List Char

/-- The calls of the assistant's message, from the `n`-th on. -/
def sentCalls (label : List Char → ℕ → List Char) : ℕ → List ToolCall → List SentCall
  | _, [] => []
  | n, tc :: calls =>
    { id := if tc.id = [] then label tc.tool n else tc.id, name := tc.tool, arguments := Json.raw (.obj tc.args) } ::
      sentCalls label (n + 1) calls

/-- The calls of a response are processed and sent with what came of them. -/
def Talk.exchange (t : Talk σ κ) (w : World σ κ) (roles : List String) (label : List Char → ℕ → List Char)
    (r : AIResponse) : Talk σ κ :=
  let b := processToolCalls w roles r.toolCalls t.world
  { t with
    world := b.world, executed := t.executed ++ b.executed, citations := t.citations ++ b.citations,
    messages := t.messages ++ .assistant r.answer (sentCalls label 0 r.toolCalls) :: b.messages.map .tool }

/-- What an answer ends with when the provider fails. -/
def fallback (executed : List Record) : List Char :=
  let summaries := (executed.filter (·.status = .executed)).map fun r =>
    "- ".toList ++ r.tool ++ ": ".toList ++ r.summary
  if summaries = [] then [] else "\n\n工具执行结果：\n".toList ++ ['\n'].intercalate summaries

def maxRounds : ℕ := 10

def rounds (w : World σ κ) (roles : List String) : ℕ → ℕ → List Char → Talk σ κ → Talk σ κ
  | 0, _, _, t => t
  | left + 1, round, current, t =>
    let (reply, world) := w.complete t.messages t.world
    match reply with
    | none => { t with world := world, answer := w.redact (current ++ fallback t.executed) }
    | some r =>
      let t := { t with world := world, answer := w.redact r.answer }
      if r.toolCalls.isEmpty || maxRounds < round then t
      else rounds w roles left (round + 1) r.answer
        (t.exchange w roles (fun _ n => numbered ('r' :: (toString round).toList) n) r)

/-- `_process_tool_calls` and `_build_final_response`, after the first response. -/
def finalResponse (w : World σ κ) (roles : List String) (history : List (List Char × List Char)) (world : σ)
    (r : AIResponse) : Talk σ κ :=
  let t : Talk σ κ := { world := world, messages := history.map fun m => .text m.1 m.2, answer := w.redact r.answer }
  if r.toolCalls.isEmpty then t else rounds w roles maxRounds 2 r.answer (t.exchange w roles numbered r)

/-! ## What is run -/

variable {w : World σ κ} {roles : List String} {I : σ → Prop}

/-- The tool is enabled, and one of the user's roles permits it. -/
def World.Permits (w : World σ κ) (roles : List String) (s : σ) (name : List Char) : Prop :=
  ∃ spec, (w.registry s).validate name = .ok spec ∧
    checkRolePermission w.builtinRoles roles spec.requiredPermission = true

/-- What the tools that the user may run and the provider leave as it is. -/
structure World.Keeps (w : World σ κ) (roles : List String) (I : σ → Prop) : Prop where
  execute : ∀ name args s, w.Permits roles s name → I s → I (w.execute name args s).2
  complete : ∀ messages s, I s → I (w.complete messages s).2

theorem handleCall_keeps (h : w.Keeps roles I) (b : Batch σ κ) (tc : ToolCall) (hb : I b.world) :
    I (handleCall w roles b tc).world := by
  unfold handleCall
  dsimp only
  cases hspec : (w.registry b.world).validate tc.tool with
  | error e => exact hb
  | ok spec =>
    dsimp only
    split
    · exact hb
    · next hpermitted =>
      have hran := h.execute tc.tool tc.args b.world ⟨spec, hspec, by simpa using hpermitted⟩ hb
      -- whatever is made of the result, the world is the one the tool has left
      split
      · exact hran
      · split
        · exact hran
        · split <;> exact hran

theorem exchange_keeps (h : w.Keeps roles I) (t : Talk σ κ) (label : List Char → ℕ → List Char) (r : AIResponse)
    (ht : I t.world) : I (t.exchange w roles label r).world := by
  show I (r.toolCalls.foldl (handleCall w roles) { world := t.world }).world
  generalize hb : ({ world := t.world } : Batch σ κ) = b
  have hworld : I b.world := hb ▸ ht
  clear hb
  induction r.toolCalls generalizing b with
  | nil => exact hworld
  | cons tc calls ih => exact ih _ (handleCall_keeps h b tc hworld)

/-- **What the permitted tools and the provider keep, an answer keeps.** -/
theorem finalResponse_keeps (h : w.Keeps roles I) (history : List (List Char × List Char)) (world : σ) (r : AIResponse)
    (hworld : I world) : I (finalResponse w roles history world r).world := by
  have hrounds : ∀ left round current (t : Talk σ κ), I t.world → I (rounds w roles left round current t).world := by
    intro left
    induction left with
    | zero => exact fun _ _ _ ht => ht
    | succ left ih =>
      intro round current t ht
      have hnext := h.complete t.messages t.world ht
      unfold rounds
      cases hreply : w.complete t.messages t.world with
      | mk reply world =>
        rw [hreply] at hnext
        cases reply with
        | none => exact hnext
        | some r =>
          dsimp only
          split
          · exact hnext
          · exact ih _ _ _ (exchange_keeps h _ _ r hnext)
  unfold finalResponse
  dsimp only
  split
  · exact hworld
  · exact hrounds _ _ _ _ (exchange_keeps h _ _ r hworld)

/-- The world with a log of the tools that are run, each with the world it is run in. -/
def World.logged (w : World σ κ) : World (σ × List (List Char × σ)) κ where
  builtinRoles := w.builtinRoles
  registry s := w.registry s.1
  execute name args s := ((w.execute name args s.1).1, (w.execute name args s.1).2, s.2 ++ [(name, s.1)])
  sign name params summary s := w.sign name params summary s.1
  navigate := w.navigate
  complete messages s := ((w.complete messages s.1).1, (w.complete messages s.1).2, s.2)
  redact := w.redact

/-- **Only enabled and permitted tools are run**, whatever the model asks for, in however many rounds, and however the
registry changes meanwhile. -/
theorem run_permitted (w : World σ κ) (roles : List String) (history : List (List Char × List Char)) (world : σ)
    (r : AIResponse) :
    (finalResponse w.logged roles history (world, []) r).world.2.Forall fun e => w.Permits roles e.2 e.1 := by
  have hkeeps : w.logged.Keeps roles fun s => s.2.Forall fun e => w.Permits roles e.2 e.1 := by
    constructor
    · intro name args s hpermits hs
      exact List.forall_append.mpr ⟨hs, hpermits⟩
    · intro messages s hs
      exact hs
  exact finalResponse_keeps hkeeps history _ r trivial

/-! ## What is sent -/

def Sent.calls : Sent → List SentCall
  | .assistant _ calls => calls
  | _ => []

/-- The calls that the messages at the beginning answer. -/
def leading : List Sent → List (List Char)
  | .tool message :: rest => message.toolCallId :: leading rest
  | _ => []

/-- The calls of every message are answered by those behind it, one by one. -/
def Answered : List Sent → Prop
  | [] => True
  | .assistant _ calls :: rest => leading rest = calls.map SentCall.id ∧ Answered rest
  | _ :: rest => Answered rest

/-- Calls are answered one by one, and each has its record. -/
structure Talk.Faithful (t : Talk σ κ) : Prop where
  answered : Answered t.messages
  recorded : t.executed.map Record.tool = (t.messages.flatMap Sent.calls).map SentCall.name

/-- The message asks for tools. -/
def Sent.asks : Sent → Bool
  | .assistant _ _ => true
  | _ => false

/-- The conversation continues what was said with `n` requests at most, and what it has come to is redacted. -/
structure Talk.Within (t : Talk σ κ) (w : World σ κ) (said : List Sent) (n : ℕ) : Prop where
  redacted : ∃ text, t.answer = w.redact text
  continues : said <+: t.messages
  asked : t.messages.countP Sent.asks ≤ n

theorem Talk.Within.exchange {t : Talk σ κ} {said : List Sent} {n : ℕ} (h : t.Within w said n)
    (label : List Char → ℕ → List Char) (r : AIResponse) : (t.exchange w roles label r).Within w said (n + 1) := by
  refine ⟨h.redacted, h.continues.trans (List.prefix_append _ _), ?_⟩
  have htools : ∀ ms : List ToolMessage, (ms.map Sent.tool).countP Sent.asks = 0 := by
    intro ms
    simp [List.countP_map, List.countP_eq_zero, Sent.asks]
  show (t.messages ++ Sent.assistant _ _ :: _).countP Sent.asks ≤ n + 1
  rw [List.countP_append, List.countP_cons, htools]
  exact Nat.succ_le_succ h.asked

end Irip.Ai
