import Irip.Base.Dict
import Irip.Converters.Text

/-!
# `Ai.OpenaiCompatible` — an answer of the model, complete and as a stream

A complete answer is decoded by `_parse_response`. A stream has the same message in pieces, one for each data line; a
call of a tool comes in fragments, which are put together by its index. Members that are missing, null or empty come to
the same.
-/

namespace Irip.Ai

open Converters (Line trim)

/-- `json.loads` of the arguments of a call; none if it fails. -/
abbrev Loads := List Char → Option Json

/-! ## Complete answers -/

structure RawCall where
  id : List Char
  name : List Char
  arguments : List Char

structure Message where
  content : List Char
  toolCalls : List RawCall
  finishReason : List Char

structure ToolCall where
  id : List Char
  tool : List Char
  args : List (String × Json)
  summary : List Char

structure AIResponse where
  answer : List Char
  toolCalls : List ToolCall

/-- `args if isinstance(args, dict) else {}`, where what cannot be decoded is an empty object too. -/
def argsOf (loads : Loads) (text : List Char) : List (String × Json) :=
  match loads text with
  | some (.obj fields) => fields
  | _ => []

def toolCall (id tool : List Char) (args : List (String × Json)) : ToolCall :=
  { id, tool, args, summary := "调用工具 ".toList ++ tool }

structure Fragment where
  index : ℕ := 0
  id : List Char := []
  name : List Char := []
  arguments : List Char := []

/-- The first choice of a chunk. -/
structure Choice where
  reasoningContent : List Char := []
  content : List Char := []
  toolCalls : List Fragment := []
  finishReason : List Char := []

/-- The choices of a chunk, if its text can be decoded. -/
abbrev Decode := List Char → Option (List Choice)

inductive Event where
  | reasoning (content : List Char)
  | chunk (content : List Char)
  | done (toolCalls : List ToolCall)
  | error (message : String)

/-- What is held of a call. -/
structure Held where
  id : List Char := []
  tool : List Char := []
  argsStr : List Char := []

def Held.add (h : Held) (f : Fragment) : Held where
  id := if f.id = [] then h.id else f.id
  tool := if f.name = [] then h.tool else f.name
  argsStr := h.argsStr ++ f.arguments

structure Stream where
  fragments : Dict ℕ Held := ∅
  finishReason : List Char := []
  hasContent : Bool := false

def hold (fragments : Dict ℕ Held) (f : Fragment) : Dict ℕ Held :=
  fragments.set f.index ((fragments.getD f.index {}).add f)

def Stream.take (s : Stream) (c : Choice) : Stream where
  fragments := c.toolCalls.foldl hold s.fragments
  finishReason := if c.finishReason = [] then s.finishReason else c.finishReason
  hasContent := s.hasContent || !c.content.isEmpty

/-- What is yielded for a chunk. -/
def Choice.events (c : Choice) : List Event :=
  (if c.reasoningContent = [] then [] else [.reasoning c.reasoningContent]) ++
    if c.content = [] then [] else [.chunk c.content]

/-- `json.loads(frag["args_str"]) if frag["args_str"] else {}`. -/
def heldArgs (loads : Loads) (argsStr : List Char) : List (String × Json) :=
  if argsStr = [] then [] else argsOf loads argsStr

def Held.toolCall (loads : Loads) (h : Held) : ToolCall := Ai.toolCall h.id h.tool (heldArgs loads h.argsStr)

/-- `assembled_tool_calls`. -/
def assemble (loads : Loads) (fragments : Dict ℕ Held) : List ToolCall :=
  (fragments.keys.mergeSort Nat.ble).map fun idx => (fragments.getD idx {}).toolCall loads

def exhausted : String :=
  "AI 思考过程过长，耗尽了 token 预算，未生成回答。 请尝试关闭思考模式、简化问题或减少数据量后重试。"

/-- What is yielded last. -/
def Stream.finish (loads : Loads) (s : Stream) : Event :=
  if s.finishReason = "length".toList ∧ s.hasContent = false then .error exhausted
  else .done (assemble loads s.fragments)

/-- A line of the response. -/
inductive Read where
  | skip
  | stop
  | choice (c : Choice)

def Read.choice? : Read → Option Choice
  | .choice c => some c
  | _ => none

def readLine (decode : Decode) (line : Line) : Read :=
  if !"data: ".toList.isPrefixOf (trim line) then .skip
  else if trim ((trim line).drop 6) = "[DONE]".toList then .stop
  else
    match decode ((trim line).drop 6) with
    | some (c :: _) => .choice c
    | _ => .skip

/-- How the lines of a response come to their end. -/
inductive Ending where
  | closed
  | timeout
  | failed
  | refused (e : AppError)

def Ending.close (loads : Loads) (s : Stream) : Ending → Event
  | .closed => s.finish loads
  | .timeout => .error "AI 服务请求超时"
  | .failed => .error "AI 服务连接失败"
  | .refused e => .error e.message

/-- The loop over the lines, and what comes after it. -/
def follow (loads : Loads) (decode : Decode) (ending : Ending) : Stream → List Line → List Event
  | s, [] => [ending.close loads s]
  | s, line :: lines =>
    match readLine decode line with
    | .skip => follow loads decode ending s lines
    | .stop => [s.finish loads]
    | .choice c => c.events ++ follow loads decode ending (s.take c) lines

def choices (decode : Decode) (lines : List Line) : List Choice :=
  lines.filterMap fun line => (readLine decode line).choice?

/-- The fragments of a call. -/
def pieces (cs : List Choice) (i : ℕ) : List Fragment := (cs.flatMap (·.toolCalls)).filter (·.index = i)

/-- The arguments of a call, as far as they have come. -/
def received (cs : List Choice) (i : ℕ) : List Char := (pieces cs i).flatMap (·.arguments)

/-- The calls of which something has come. -/
def present (cs : List Choice) (n : ℕ) : List ℕ := (List.range n).filter fun i => !(pieces cs i).isEmpty

/-- A text is given whole, as often as one likes. -/
def Given (values : List (List Char)) (v : List Char) : Prop := (∀ x ∈ values, x = [] ∨ x = v) ∧ (v = [] ∨ v ∈ values)

/-- **A message in pieces.** Its text is cut anywhere, and so are the arguments of its calls, whose fragments mix in any
way. -/
structure Cut (m : Message) (cs : List Choice) : Prop where
  content : cs.flatMap (·.content) = m.content
  finishReason : Given (cs.map (·.finishReason)) m.finishReason
  index : ∀ c ∈ cs, ∀ f ∈ c.toolCalls, f.index < m.toolCalls.length
  some_piece : ∀ i < m.toolCalls.length, pieces cs i ≠ []
  call : ∀ i tc, m.toolCalls[i]? = some tc → Given ((pieces cs i).map (·.id)) tc.id ∧
    Given ((pieces cs i).map (·.name)) tc.name ∧ received cs i = tc.arguments

def Event.text : Event → List Char
  | .chunk content => content
  | _ => []

section Lines

variable {loads : Loads} {decode : Decode} {ending : Ending} {lines : List Line}

end Lines

/-- A text that is not empty takes the place of the one before. -/
def fill (a x : List Char) : List Char := if x = [] then a else x

def sampleLoads (text : List Char) : Option Json :=
  if text = "\x7b\x7d".toList then some (.obj [])
  else if text = "\x7b\"a\":1\x7d".toList then some (.obj [("a", .int 1)])
  else none

end Irip.Ai
