import Irip.Converters.Text

/-!
# `Converters.LlmResponse` — the structured data in the answer of a language model

The answer is to be a JSON object. It is looked for in three places: the whole text, the first block between fences, and
the text from the first brace to the last. The first of them that can be decoded is used, whatever it is.
-/

namespace Irip.Converters.Llm

/-! ## Places -/

/-- What follows the first occurrence of a word. -/
def after (word : List Char) : List Char → Option (List Char)
  | [] => if word = [] then some [] else none
  | c :: cs => if word.isPrefixOf (c :: cs) then some ((c :: cs).drop word.length) else after word cs

/-- What comes before the first occurrence of a word. -/
def before (word : List Char) : List Char → Option (List Char)
  | [] => if word = [] then some [] else none
  | c :: cs => if word.isPrefixOf (c :: cs) then some [] else (before word cs).map (c :: ·)

def fence : List Char := "\x60\x60\x60".toList

/-- What `(?:json)?` skips. -/
def dropJson (cs : List Char) : List Char := if ['j', 's', 'o', 'n'].isPrefixOf cs then cs.drop 4 else cs

/-- `match.group(1).strip()` of the pattern for a fenced block, which takes as little as it can. -/
def fenced (content : List Char) : Option (List Char) :=
  ((after fence content).bind fun rest => before fence (dropJson rest)).map trim

/-- `content[start : end + 1]`, from the first opening brace to the last closing one. -/
def braced (content : List Char) : Option (List Char) :=
  let rest := ((content.dropWhile (· ≠ '{')).reverse).dropWhile (· ≠ '}')
  if rest = [] then none else some rest.reverse

/-! ## Decoding -/

/-- What `json.loads` raises: a `JSONDecodeError`, or another exception. -/
inductive DecodeError where
  | decode
  | other (name : String)

abbrev Decoder := List Char → Except DecodeError Json

/-- What is raised: an `AppError`, or an exception of Python. -/
inductive Raised where
  | app (e : AppError)
  | python (name : String)

def parseFailed (content : List Char) : AppError :=
  { code := "ai_parse_failed", retryable := true
    message := "无法从 LLM 响应中解析 JSON：" ++ String.ofList (content.take 200) }

/-- One attempt: only a `JSONDecodeError` leads to the next one. -/
def attempt (loads : Decoder) (place : Option (List Char)) (next : Except Raised Json) : Except Raised Json :=
  match place with
  | none => next
  | some text =>
    match loads text with
    | .ok value => .ok value
    | .error .decode => next
    | .error (.other name) => .error (.python name)

/-- `_parse_llm_json`. -/
def parseLlmJson (loads : Decoder) (content : List Char) : Except Raised Json :=
  attempt loads (some content) <| attempt loads (fenced content) <| attempt loads (braced content) <|
    .error (.app (parseFailed content))

/-! ## Answers -/

/-- `{"metadata": …, "points": …, "series": …}`. -/
structure Extracted where
  metadata : Json := .obj []
  points : Json := .arr []
  series : Json := .arr []

/-- `·.get(key, default)`. -/
def getOr (fields : List (String × Json)) (key : String) (default : Json) : Json := (fields.lookup key).getD default

/-- What becomes of the text of an answer: only an object has a `get`. -/
def decodeAnswer (loads : Decoder) (answer : List Char) : Except Raised Extracted :=
  match parseLlmJson loads answer with
  | .error e => .error e
  | .ok (.obj fields) => .ok
    { metadata := getOr fields "metadata" (.obj []), points := getOr fields "points" (.arr [])
      series := getOr fields "series" (.arr []) }
  | .ok _ => .error (.python "AttributeError")

/-- The model is asked, after the checks of `call_llm_for_structured`. -/
def Asked (content prompt : List Char) (configured : Bool) (maxChars : ℕ) : Prop :=
  prompt ≠ [] ∧ configured = true ∧ trim (content.take maxChars) ≠ []

/-- `call_llm_for_structured`: `choices` are the texts that the model answers with. -/
def callLlmForStructured (loads : Decoder) (content prompt : List Char) (configured : Bool) (maxChars : ℕ)
    (choices : Except AppError (List (List Char))) : Except Raised Extracted :=
  if prompt = [] then .error (.app { code := "validation_failed", message := "缺少 prompt 参数" })
  else if !configured then
    .error (.app { code := "ai_not_configured", message := "AI 大模型未配置，请在平台治理 → AI 配置中开启" })
  else if trim (content.take maxChars) = [] then .ok {}
  else
    match choices with
    | .error e => .error (.app e)
    | .ok [] => .error (.app { code := "ai_empty_response", message := "LLM 返回空响应", retryable := true })
    | .ok (answer :: _) => decodeAnswer loads answer

/-! ## Soundness -/

def IsObject : Json → Prop
  | .obj _ => True
  | _ => False

def IsList : Json → Prop
  | .arr _ => True
  | _ => False

/-- What is returned has the right types, and nothing is raised but an `AppError`. -/
def Sound : Except Raised Extracted → Prop
  | .ok e => IsObject e.metadata ∧ IsList e.points ∧ IsList e.series
  | .error (.app _) => True
  | .error (.python _) => False

/-- A decoded text that can be used: an object, with members of the right types as far as it has them. -/
def Usable : Except DecodeError Json → Prop
  | .ok (.obj fields) => IsObject (getOr fields "metadata" (.obj [])) ∧ IsList (getOr fields "points" (.arr [])) ∧
    IsList (getOr fields "series" (.arr []))
  | _ => False

/-- A parsed answer that can be used, or that is refused as it should be. -/
def Settled : Except Raised Json → Prop
  | .ok value => Usable (.ok value)
  | .error (.app _) => True
  | .error (.python _) => False

/-- The text is no JSON. -/
def Fails (loads : Decoder) (text : List Char) : Prop := loads text = .error .decode

/-- The text is the first of those that are some JSON, or make `json.loads` raise something else. -/
def First (loads : Decoder) (texts : List (List Char)) (text : List Char) : Prop :=
  ∃ earlier later, texts = earlier ++ text :: later ∧ (∀ t ∈ earlier, Fails loads t) ∧ ¬ Fails loads text

/-- The places an object is looked for in. -/
def places (content : List Char) : List (List Char) := content :: ((fenced content).toList ++ (braced content).toList)

section First

variable {loads : Decoder} {text : List Char} {texts : List (List Char)}

theorem first_cons_of_fails (h : Fails loads text) {t : List Char} :
    First loads (text :: texts) t ↔ First loads texts t := by
  constructor
  · rintro ⟨earlier, later, heq, hearlier, ht⟩
    cases earlier with
    | nil =>
      obtain ⟨rfl, -⟩ := List.cons.inj heq
      exact absurd h ht
    | cons e earlier =>
      exact ⟨earlier, later, (List.cons.inj heq).2, fun t ht => hearlier t (List.mem_cons_of_mem _ ht), ht⟩
  · rintro ⟨earlier, later, rfl, hearlier, ht⟩
    refine ⟨text :: earlier, later, rfl, fun t hmem => ?_, ht⟩
    rcases List.mem_cons.mp hmem with rfl | hmem
    · exact h
    · exact hearlier t hmem

theorem first_cons_of_not_fails (h : ¬ Fails loads text) {t : List Char} :
    First loads (text :: texts) t ↔ t = text := by
  constructor
  · rintro ⟨earlier, later, heq, hearlier, -⟩
    cases earlier with
    | nil => exact (List.cons.inj heq).1.symm
    | cons e earlier =>
      obtain ⟨rfl, -⟩ := List.cons.inj heq
      exact absurd (hearlier text List.mem_cons_self) h
  · rintro rfl
    exact ⟨[], texts, rfl, List.forall_mem_nil _, h⟩

theorem not_first_nil {t : List Char} : ¬ First loads [] t := by
  rintro ⟨earlier, later, heq, -⟩
  cases earlier <;> cases heq

end First

theorem attempt_some (loads : Decoder) (text : List Char) (next : Except Raised Json) :
    Fails loads text ∧ attempt loads (some text) next = next ∨
      ¬ Fails loads text ∧ ((∃ v, loads text = .ok v ∧ attempt loads (some text) next = .ok v) ∨
        ∃ name, loads text = .error (.other name) ∧ attempt loads (some text) next = .error (.python name)) := by
  simp only [attempt, Fails]
  rcases loads text with (_ | name) | v <;> simp

/-- Attempts at some places, one after the other. -/
def attempts (loads : Decoder) (texts : List (List Char)) (last : Except Raised Json) : Except Raised Json :=
  texts.foldr (fun text next => attempt loads (some text) next) last

/-- **What attempts at some places come to**: to the first of them that is some JSON. -/
theorem attempts_iff {P : Except Raised Json → Prop} {loads : Decoder} {last : Except Raised Json} (hlast : P last)
    (texts : List (List Char)) : P (attempts loads texts last) ↔ ∀ t, First loads texts t →
      (∃ v, loads t = .ok v ∧ P (.ok v)) ∨ ∃ name, loads t = .error (.other name) ∧ P (.error (.python name)) := by
  induction texts with
  | nil => exact ⟨fun _ t ht => absurd ht not_first_nil, fun _ => hlast⟩
  | cons text texts ih =>
    show P (attempt loads (some text) (attempts loads texts last)) ↔ _
    rcases attempt_some loads text (attempts loads texts last) with ⟨hfails, heq⟩ | ⟨hdecodes, hresult⟩
    · rw [heq, ih]
      exact forall_congr' fun t => by rw [first_cons_of_fails hfails]
    · simp only [first_cons_of_not_fails hdecodes, forall_eq]
      rcases hresult with ⟨v, hv, heq⟩ | ⟨name, hname, heq⟩ <;> rw [heq]
      · simp [hv]
      · simp [hname]

theorem sound_decodeAnswer (loads : Decoder) (answer : List Char) :
    Sound (decodeAnswer loads answer) ↔ Settled (parseLlmJson loads answer) := by
  unfold decodeAnswer
  cases parseLlmJson loads answer with
  | error e => cases e <;> exact Iff.rfl
  | ok v => cases v <;> exact Iff.rfl

/-- **An answer is decoded soundly** when the first place that is some JSON can be used. -/
theorem sound_decodeAnswer_iff (loads : Decoder) (answer : List Char) :
    Sound (decodeAnswer loads answer) ↔ ∀ t, First loads (places answer) t → Usable (loads t) := by
  have hparse : parseLlmJson loads answer = attempts loads (places answer) (.error (.app (parseFailed answer))) := by
    unfold parseLlmJson attempts places
    cases fenced answer <;> cases braced answer <;> rfl
  have hlast : Settled (.error (.app (parseFailed answer))) := trivial
  rw [sound_decodeAnswer, hparse, attempts_iff hlast]
  refine forall_congr' fun t => imp_congr_right fun _ => ⟨?_, fun h => ?_⟩
  · rintro (⟨v, hv, h⟩ | ⟨name, _, h⟩)
    · rw [hv]
      exact h
    · exact h.elim
  · cases hv : loads t with
    | ok v =>
      rw [hv] at h
      exact .inl ⟨v, rfl, h⟩
    | error e =>
      rw [hv] at h
      exact h.elim

theorem sound_callLlmForStructured (loads : Decoder) (content prompt : List Char) (configured : Bool) (maxChars : ℕ)
    (choices : Except AppError (List (List Char))) :
    Sound (callLlmForStructured loads content prompt configured maxChars choices) ↔
      (Asked content prompt configured maxChars → ∀ answer rest, choices = .ok (answer :: rest) →
        Sound (decodeAnswer loads answer)) := by
  unfold callLlmForStructured
  by_cases hprompt : prompt = []
  · rw [if_pos hprompt]
    exact ⟨fun _ hasked => absurd hprompt hasked.1, fun _ => trivial⟩
  rw [if_neg hprompt]
  cases configured with
  | false => exact ⟨fun _ hasked => absurd hasked.2.1 Bool.false_ne_true, fun _ => trivial⟩
  | true =>
    rw [if_neg (by simp)]
    by_cases hblank : trim (content.take maxChars) = []
    · rw [if_pos hblank]
      exact ⟨fun _ hasked => absurd hblank hasked.2.2, fun _ => ⟨trivial, trivial, trivial⟩⟩
    rw [if_neg hblank]
    have hasked : Asked content prompt true maxChars := ⟨hprompt, rfl, hblank⟩
    rcases choices with e | (_ | ⟨answer, rest⟩)
    · exact ⟨fun _ _ _ _ h => (by cases h), fun _ => trivial⟩
    · exact ⟨fun _ _ _ _ h => (by cases h), fun _ => trivial⟩
    · refine ⟨fun h _ answer' rest' heq => ?_, fun h => h hasked answer rest rfl⟩
      obtain ⟨rfl, -⟩ := List.cons.inj (Except.ok.inj heq)
      exact h

/-! ## Priority -/

theorem dropWhile_append_of_ne {b : Char} {p : List Char} (hp : ∀ c ∈ p, c ≠ b) (rest : List Char) :
    (p ++ b :: rest).dropWhile (· ≠ b) = b :: rest := by
  rw [List.dropWhile_append_of_pos (by simpa using hp)]
  simp

/-- **An object between texts without braces** is what the braces are around. -/
theorem braced_append {p q : List Char} (hp : ∀ c ∈ p, c ≠ '{') (hq : ∀ c ∈ q, c ≠ '}') (inner : List Char) :
    braced (p ++ '{' :: (inner ++ '}' :: q)) = some ('{' :: (inner ++ ['}'])) := by
  have hreverse : ('{' :: (inner ++ '}' :: q)).reverse = q.reverse ++ '}' :: ('{' :: inner).reverse := by simp
  unfold braced
  simp only [dropWhile_append_of_ne hp, hreverse]
  rw [dropWhile_append_of_ne fun c hc => hq c (List.mem_reverse.mp hc)]
  simp

theorem parseLlmJson_iff {loads : Decoder} {answer text : List Char} {value : Json}
    (hbraced : braced answer = some text) (hvalue : loads text = .ok value) : parseLlmJson loads answer = .ok value ↔
      ∀ t, First loads (answer :: (fenced answer).toList) t → loads t = .ok value := by
  have hparse : parseLlmJson loads answer = attempts loads (answer :: (fenced answer).toList) (.ok value) := by
    unfold parseLlmJson attempts
    rw [hbraced]
    cases fenced answer <;> simp [attempt, hvalue]
  rw [hparse, attempts_iff (P := (· = Except.ok value)) rfl]
  refine forall_congr' fun t => imp_congr_right fun _ => ⟨?_, fun h => .inl ⟨value, h, rfl⟩⟩
  rintro (⟨v, hv, h⟩ | ⟨name, _, h⟩)
  · rw [hv, Except.ok.inj h]
  · cases h

/-- **The answer of a model** is decoded soundly if and only if the first place that is some JSON, or on which the
decoder fails otherwise, can be used. An object between texts without braces is the one that is used if and only if
neither the whole text nor the first fenced block is some other JSON before it: a fenced fragment comes before the
object, also a fragment of one of its strings. -/
theorem llm_answer_sound_iff (loads : Decoder) :
    (∀ (content prompt : List Char) (configured : Bool) (maxChars : ℕ) (choices : Except AppError (List (List Char))),
      Sound (callLlmForStructured loads content prompt configured maxChars choices) ↔
        (Asked content prompt configured maxChars → ∀ answer rest, choices = .ok (answer :: rest) →
          ∀ t, First loads (places answer) t → Usable (loads t))) ∧
      ∀ (p inner q : List Char) (fields : List (String × Json)), (∀ c ∈ p, c ≠ '{' ∧ c ≠ '}') →
        (∀ c ∈ q, c ≠ '{' ∧ c ≠ '}') → loads ('{' :: (inner ++ ['}'])) = .ok (.obj fields) →
        (parseLlmJson loads (p ++ '{' :: (inner ++ '}' :: q)) = .ok (.obj fields) ↔
          ∀ t, First loads ((p ++ '{' :: (inner ++ '}' :: q)) :: (fenced (p ++ '{' :: (inner ++ '}' :: q))).toList) t →
            loads t = .ok (.obj fields)) := by
  refine ⟨fun content prompt configured maxChars choices => ?_, fun p inner q fields hp hq hvalue => ?_⟩
  · rw [sound_callLlmForStructured]
    simp only [sound_decodeAnswer_iff]
  · exact parseLlmJson_iff (braced_append (fun c hc => (hp c hc).1) (fun c hc => (hq c hc).2) inner) hvalue

/-- An object, one of whose strings has a block between fences. -/
def sampleObject : List Char := "\x7b\"a\": \"\x60\x60\x605\x60\x60\x60\"\x7d".toList

def sampleFields : List (String × Json) := [("a", .str "\x60\x60\x605\x60\x60\x60")]

def sampleLoads : Decoder := fun text =>
  if text = ['5'] then .ok (.int 5) else if text = sampleObject then .ok (.obj sampleFields) else .error .decode

/-- A number has no `get`; and of an object in prose, the block in its string is used. -/
theorem llm_answer_unsound :
    ¬ Sound (callLlmForStructured sampleLoads ['x'] ['p'] true 9 (.ok [['5']])) ∧
      sampleLoads sampleObject = .ok (.obj sampleFields) ∧
      parseLlmJson sampleLoads ("see ".toList ++ sampleObject) = .ok (.int 5) :=
  ⟨fun h => h, rfl, rfl⟩

end Irip.Converters.Llm
